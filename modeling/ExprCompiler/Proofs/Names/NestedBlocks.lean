import ExprCompiler.Proofs.Names.ScopeRefinement

/-! Blocks that are opened and closed. Main statement: a block that inserts, deletes and changes
entries only in levels of its own leaves every look-up of every name as it was.
-/

namespace ExprCompiler

/-- Whether an operation inserts, deletes or changes an entry. -/
def Operation.Alters (entries : Entries) : Operation → Prop
  | .insert name _ => entries name = none
  | .erase name => (entries name).isSome
  | .modify name _ => (entries name).isSome
  | .grow => False

theorem Operation.record_of_not_alters {entries : Entries} {operation : Operation}
    (alters : ¬operation.Alters entries)
    : operation.record entries = entries := by
  cases operation with
  | insert name uid =>
      obtain ⟨symbol, present⟩ := Option.ne_none_iff_exists'.mp alters
      simp [record, present]
  | erase name =>
      exact Function.update_eq_self_iff.mpr (Option.not_isSome_iff_eq_none.mp alters).symm
  | modify name update =>
      simp [record, Option.not_isSome_iff_eq_none.mp alters]
  | grow => rfl

/-- Whether an operation closes only blocks that were opened inside of the `outside + 1`
outermost ones, and inserts, deletes and changes entries only in levels above the `outside`
outermost ones.
-/
def ScopeOperation.IsInside (outside : Nat) (levels : Levels) : ScopeOperation → Prop
  | .push => True
  | .pop => outside + 1 < levels.length
  | .dispose => False
  | .insert _ _ => True
  | .modify name _ => ∀ symbol depth, Visible name symbol levels depth → outside ≤ depth
  | .inTop _ => True
  | .inGlobal operation =>
      outside = 0 ∨ ∀ entries ∈ levels.getLast?, ¬operation.Alters entries

/-- Whether the operations of a body stay inside of a block above `outside` levels, up to its
end, where only the block itself is still open.
-/
def StaysInside (outside : Nat) (levels : Levels) : List ScopeOperation → Prop
  | [] => levels.length = outside + 1
  | operation :: later =>
      operation.IsInside outside levels ∧ StaysInside outside (operation.record levels) later

/-- A block with a body. -/
def block (body : List ScopeOperation) : List ScopeOperation :=
  .push :: (body ++ [.pop])

/-- A change in the front of a list leaves the back as it is, by induction on the front. -/
theorem modify_append {α : Type} {change : α → α} {index : Nat} {front back : List α}
    (inFront : index < front.length)
    : (front ++ back).modify index change = front.modify index change ++ back := by
  induction front generalizing index with
  | nil => simp at inFront
  | cons first rest ih =>
      cases index with
      | zero => rfl
      | succ index =>
          have later := ih (Nat.lt_of_succ_lt_succ inFront)
          simp only [List.cons_append, List.modify_succ_cons, later]

variable {inner outer : Levels} {operation : ScopeOperation} {name : String}

/-- A name that some level has is visible, by induction on the levels. -/
theorem exists_visible {levels : Levels} (has : ∃ entries ∈ levels, (entries name).isSome)
    : ∃ symbol, ∃ depth < levels.length, Visible name symbol levels depth := by
  induction levels with
  | nil => simp at has
  | cons entries outer ih =>
      cases present : entries name with
      | some symbol => exact ⟨symbol, outer.length, Nat.lt_succ_self _, .here present rfl⟩
      | none =>
          obtain ⟨symbol, depth, below, visible⟩ := ih (by simpa [present] using has)
          refine ⟨symbol, depth, Nat.lt_succ_of_lt below, .outer ?_ visible⟩
          simp [present]

/-- Levels without a name do not hide it, by induction on them. -/
theorem Innermost.append {symbol : Symbol} {depth : Nat} (visible : Visible name symbol outer depth)
    (absent : ∀ entries ∈ inner, entries name = none)
    : Visible name symbol (inner ++ outer) depth := by
  induction inner with
  | nil => exact visible
  | cons entries inner ih =>
      obtain ⟨hidden, later⟩ := List.forall_mem_cons.mp absent
      refine .outer ?_ (ih later)
      simp [hidden]

/-- A change inside of a block finds the name above the outer levels, or nowhere. -/
theorem findIdx_of_inside
    (isInside : ∀ symbol depth, Visible name symbol (inner ++ outer) depth → outer.length ≤ depth)
    : (inner ++ outer).findIdx (fun entries => (entries name).isSome) < inner.length
      ∨ (inner ++ outer).length
        ≤ (inner ++ outer).findIdx fun entries => (entries name).isSome := by
  by_cases inInner : ∃ entries ∈ inner, (entries name).isSome = true
  · left
    rw [List.findIdx_append, if_pos (List.findIdx_lt_length.mpr inInner)]
    exact List.findIdx_lt_length.mpr inInner
  · right
    have absent : ∀ entries ∈ inner, entries name = none := by simpa using inInner
    by_contra found
    obtain ⟨entries, member, present⟩ := List.findIdx_lt_length.mp (Nat.lt_of_not_le found)
    have inOuter : entries ∈ outer := by
      refine (List.mem_append.mp member).resolve_left ?_
      intro inFront
      simp [absent entries inFront] at present
    obtain ⟨symbol, depth, below, visible⟩ := exists_visible ⟨entries, inOuter, present⟩
    exact Nat.not_le_of_lt below (isInside symbol depth (visible.append absent))

/-- An operation inside of a block leaves the levels below it as they are. -/
theorem ScopeOperation.IsInside.record (isInside : operation.IsInside outer.length (inner ++ outer))
    (opened : inner ≠ [])
    : ∃ changed, changed ≠ [] ∧ operation.record (inner ++ outer) = changed ++ outer := by
  have positive : 0 < inner.length := List.length_pos_iff.mpr opened
  have changes {index : Nat} (inFront : index < inner.length) (change : Entries → Entries)
      : ∃ changed, changed ≠ [] ∧ (inner ++ outer).modify index change = changed ++ outer :=
    ⟨_, by simp [opened], modify_append inFront⟩
  cases operation with
  | push => exact ⟨(fun _ => none) :: inner, by simp, rfl⟩
  | pop =>
      cases inner with
      | nil => exact absurd rfl opened
      | cons entries inner =>
          refine ⟨inner, ?_, rfl⟩
          rintro rfl
          simp [IsInside] at isInside
  | dispose => exact isInside.elim
  | insert name uid => exact changes positive _
  | modify name update =>
      rcases findIdx_of_inside isInside with found | missing
      · exact changes found _
      · exact ⟨inner, opened, List.modify_eq_self missing⟩
  | inTop operation => exact changes positive _
  | inGlobal operation =>
      rcases isInside with noOuter | unaltered
      · obtain rfl : outer = [] := List.eq_nil_of_length_eq_zero noOuter
        refine ⟨_, ?_, (List.append_nil _).symm⟩
        simp [ScopeOperation.record, opened]
      · refine ⟨inner, opened, ?_⟩
        rcases List.eq_nil_or_concat (inner ++ outer) with empty | ⟨front, last, split⟩
        · rw [empty]
          rfl
        · rw [List.concat_eq_append] at split
          rw [split] at unaltered ⊢
          rw [ScopeOperation.record, ScopeStack.modify_last,
            Operation.record_of_not_alters (unaltered last (by simp))]

/-- The body of a block leaves the levels below it as they are, by induction on the body. -/
theorem StaysInside.record {body : List ScopeOperation}
    (inside : StaysInside outer.length (inner ++ outer) body) (opened : inner ≠ [])
    : ∃ entries, body.foldl ScopeOperation.record (inner ++ outer) = entries :: outer := by
  induction body generalizing inner with
  | nil =>
      have single : inner.length = 1 := by
        rw [StaysInside, List.length_append] at inside
        omega
      obtain ⟨entries, rfl⟩ := List.length_eq_one_iff.mp single
      exact ⟨entries, rfl⟩
  | cons operation later ih =>
      obtain ⟨isInside, inside⟩ := inside
      obtain ⟨changed, stillOpen, recorded⟩ := isInside.record opened
      rw [recorded] at inside
      rw [List.foldl_cons, recorded]
      exact ih inside stillOpen

/-- A block leaves all levels as they are. -/
theorem record_block {levels : Levels} {body : List ScopeOperation}
    (inside : StaysInside levels.length ((fun _ => none) :: levels) body)
    : (block body).foldl ScopeOperation.record levels = levels := by
  have start : (fun _ => none) :: levels = [fun _ => none] ++ levels := rfl
  rw [start] at inside
  obtain ⟨entries, ends⟩ := inside.record (List.cons_ne_nil _ _)
  have opens : ScopeOperation.push.record levels = [fun _ => none] ++ levels := rfl
  rw [block, List.foldl_cons, List.foldl_append, opens, ends]
  rfl

namespace ScopeStack

/-- After every history a stack of blocks is the stack of finite maps that the history makes. A
block that is opened there and closed again, and that inserts, deletes and changes entries only in
levels of its own, leaves every look-up of every name as it was.
-/
theorem represents_levels_after (history : List ScopeOperation) (small : StaysSmall {} history)
    : (run {} history).Represents (Levels.after history)
      ∧ ∀ body,
          StaysInside (Levels.after history).length ((fun _ => none) :: Levels.after history) body
          → StaysSmall {} (history ++ block body)
          → (run {} (history ++ block body)).Represents (Levels.after history)
            ∧ ∀ name,
                (run {} (history ++ block body)).get name = (run {} history).get name
                ∧ (run {} (history ++ block body)).getWithDepth name
                  = (run {} history).getWithDepth name
                ∧ (run {} (history ++ block body)).getInitialized name
                  = (run {} history).getInitialized name
                ∧ (run {} (history ++ block body)).isGlobal name
                  = (run {} history).isGlobal name := by
  obtain ⟨represents, levels⟩ := run_start small
  refine ⟨represents, ?_⟩
  intro body inside blockSmall
  obtain ⟨afterRepresents, afterLevels⟩ := run_start blockSmall
  have restored : Levels.after (history ++ block body) = Levels.after history := by
    rw [Levels.after, List.foldl_append]
    exact record_block inside
  rw [restored] at afterRepresents afterLevels
  have same := getWhere_congr (afterLevels.trans levels.symm)
  have sameWithDepth := same fun _ => true
  refine ⟨afterRepresents, fun name => ⟨?_, sameWithDepth name, same _ name, ?_⟩⟩
  · exact congrArg ((·.1) <$> ·) (sameWithDepth name)
  · exact congrArg ((fun found => decide (found.2 = 0)) <$> ·) (sameWithDepth name)

/-- A global `x` stays what it is while a block shadows it, changes its own entry from a nested
block and makes the global table grow.
-/
theorem represents_levels_after_shadowing
    : let history : List ScopeOperation := [.push, .insert "x" 1, .modify "x" (.setKind .integer)]
      let body : List ScopeOperation :=
        [.insert "x" 2, .push, .modify "x" (.setKind .string), .pop, .inGlobal .grow]
      (run {} (history ++ block body)).getWithDepth "x"
        = .ok ({ name := "x", uid := 1, kind := .integer }, 0) := by
  intro history body
  obtain ⟨-, restores⟩ := represents_levels_after history (by decide +kernel)
  have inside : StaysInside (Levels.after history).length
      ((fun _ => none) :: Levels.after history) body := by
    refine ⟨trivial, trivial, ?_, Nat.lt_succ_self 2, .inr fun _ _ => id, rfl⟩
    intro symbol depth visible
    cases visible with
    | here found _ => cases found
    | outer _ visible =>
        cases visible with
        | here found _ => decide
        | outer hidden _ => cases hidden _ rfl
  have found : (run {} history).getWithDepth "x"
      = .ok ({ name := "x", uid := 1, kind := .integer }, 0) := by
    decide +kernel
  rw [((restores body inside (by decide +kernel)).2 "x").2.1, found]

end ScopeStack

end ExprCompiler

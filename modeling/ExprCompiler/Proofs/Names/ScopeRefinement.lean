import ExprCompiler.Names.Scope
import ExprCompiler.Proofs.Names.Refinement

/-! A stack of blocks is a stack of finite maps. After any history of operations, failed ones
included, all look-ups resolve a name to its innermost entry in the levels on which the same
operations were done.
-/

namespace ExprCompiler

/-- What can be done to a stack of blocks. -/
inductive ScopeOperation where
  | push
  | pop
  | dispose
  | insert (name : String) (uid : UInt32)
  | modify (name : String) (update : Update)
  | inTop (operation : Operation)
  | inGlobal (operation : Operation)

/-- What is stored in each block, innermost first. -/
abbrev Levels :=
  List Entries

namespace ScopeOperation

/-- The operation on a stack of blocks. -/
def apply (scopes : ScopeStack) : ScopeOperation → Except SymbolError ScopeStack
  | .push => .ok scopes.push
  | .pop => (·.2) <$> scopes.pop
  | .dispose => .ok scopes.dispose
  | .insert name uid => scopes.insert name uid
  | .modify name update => scopes.modify name update.change
  | .inTop operation => scopes.top >>= fun frame => scopes.setTop <$> operation.apply frame
  | .inGlobal operation =>
      scopes.global >>= fun frame => scopes.setGlobal <$> operation.apply frame

/-- The operation on the levels. Names are inserted in the innermost level, and a name is changed
in the innermost level that has it.
-/
def record (levels : Levels) : ScopeOperation → Levels
  | .push => (fun _ => none) :: levels
  | .pop => levels.tail
  | .dispose => []
  | .insert name uid => levels.modify 0 (Operation.insert name uid).record
  | .modify name update =>
      levels.modify (levels.findIdx fun entries => (entries name).isSome)
        (Operation.modify name update).record
  | .inTop operation => levels.modify 0 operation.record
  | .inGlobal operation => levels.modify (levels.length - 1) operation.record

end ScopeOperation

/-- The levels after all operations of a history that starts with no block. -/
def Levels.after (history : List ScopeOperation) : Levels :=
  history.foldl ScopeOperation.record []

/-- `symbol` is the innermost wanted entry for `name`. It stands in the level with index `depth`,
where the outermost level has index 0.
-/
inductive Innermost (wanted : Symbol → Bool) (name : String) (symbol : Symbol)
    : Levels → Nat → Prop
  | here {entries : Entries} {outer : Levels} (found : entries name = some symbol)
    (isWanted : wanted symbol = true)
    : Innermost wanted name symbol (entries :: outer) outer.length
  | outer {entries : Entries} {outer : Levels} {depth : Nat}
    (hidden : ∀ inner, entries name = some inner → wanted inner = false)
    (found : Innermost wanted name symbol outer depth)
    : Innermost wanted name symbol (entries :: outer) depth

/-- `symbol` is the innermost entry for `name`. -/
abbrev Visible (name : String) (symbol : Symbol) : Levels → Nat → Prop :=
  Innermost (fun _ => true) name symbol

/-- Why a look-up finds no wanted entry for `name`: no block is open, or no level has one. -/
def Unresolved (wanted : Symbol → Bool) (name : String) (levels : Levels) (error : SymbolError)
    : Prop :=
  levels = [] ∧ error = .notInitialized
    ∨ levels ≠ [] ∧ error = .itemNotFound
      ∧ ∀ entries ∈ levels, ∀ symbol, entries name = some symbol → wanted symbol = false

namespace ScopeStack

/-- The stack after an operation; if it fails, nothing happens. -/
def perform (scopes : ScopeStack) (operation : ScopeOperation) : ScopeStack :=
  match operation.apply scopes with
  | .ok changed => changed
  | .error _ => scopes

/-- The stack after all operations of a history. -/
def run (scopes : ScopeStack) (history : List ScopeOperation) : ScopeStack :=
  history.foldl perform scopes

/-- Every table has so few slots that their number can be doubled in a machine word, as every
table in memory has.
-/
def IsSmall (scopes : ScopeStack) : Prop :=
  ∀ frame ∈ scopes.frames, frame.capacity < 2 ^ 63

/-- Tables are small from the start to the end of a history. -/
def StaysSmall (scopes : ScopeStack) : List ScopeOperation → Prop
  | [] => scopes.IsSmall
  | operation :: later => scopes.IsSmall ∧ (scopes.perform operation).StaysSmall later

instance (scopes : ScopeStack) : Decidable scopes.IsSmall :=
  inferInstanceAs (Decidable (∀ frame ∈ scopes.frames, frame.capacity < 2 ^ 63))

instance decidableStaysSmall
    : (scopes : ScopeStack) → (history : List ScopeOperation)
      → Decidable (scopes.StaysSmall history)
  | scopes, [] => inferInstanceAs (Decidable scopes.IsSmall)
  | scopes, operation :: later =>
      have := decidableStaysSmall (scopes.perform operation) later
      inferInstanceAs (Decidable (scopes.IsSmall ∧ (scopes.perform operation).StaysSmall later))

/-- The stack answers as the levels say, and an operation fails only for a reason that is seen
in them.
-/
structure Represents (scopes : ScopeStack) (levels : Levels) : Prop where
  frames : List.Forall₂ SymbolTable.Represents scopes.frames levels
  getWithDepth : ∀ name symbol depth,
    scopes.getWithDepth name = .ok (symbol, depth) ↔ Visible name symbol levels depth
  getWithDepth_fails : ∀ name error,
    scopes.getWithDepth name = .error error ↔ Unresolved (fun _ => true) name levels error
  get : ∀ name symbol,
    scopes.get name = .ok symbol ↔ ∃ depth, Visible name symbol levels depth
  get_fails : ∀ name error,
    scopes.get name = .error error ↔ Unresolved (fun _ => true) name levels error
  isGlobal : ∀ name answer,
    scopes.isGlobal name = .ok answer
      ↔ ∃ symbol depth, Visible name symbol levels depth ∧ answer = decide (depth = 0)
  isGlobal_fails : ∀ name error,
    scopes.isGlobal name = .error error ↔ Unresolved (fun _ => true) name levels error
  getInitialized : ∀ name symbol depth,
    scopes.getInitialized name = .ok (symbol, depth)
      ↔ Innermost Symbol.initialized name symbol levels depth
  getInitialized_fails : ∀ name error,
    scopes.getInitialized name = .error error
      ↔ Unresolved Symbol.initialized name levels error
  /-- A change sees the visible entry, and fails only with it or without one. -/
  modify_fails : ∀ name change error,
    scopes.modify name change = .error error
      ↔ Unresolved (fun _ => true) name levels error
        ∨ ∃ symbol depth, Visible name symbol levels depth ∧ change symbol = .error error
  insert_fails : ∀ name uid error,
    scopes.insert name uid = .error error
      ↔ levels = [] ∧ error = .notInitialized
        ∨ error = .alreadyStored ∧ ∃ entries ∈ levels.head?, (entries name).isSome
  pop_fails : ∀ error, scopes.pop = .error error ↔ levels = [] ∧ error = .notInitialized
  top_fails : ∀ error, scopes.top = .error error ↔ levels = [] ∧ error = .notInitialized
  global_fails : ∀ error, scopes.global = .error error ↔ levels = [] ∧ error = .notInitialized

-----------------------------------------------------------------------------------------
-- Operations on the blocks and on the levels
-----------------------------------------------------------------------------------------

theorem modify_last {α : Type} (change : α → α) (inner : List α) (last : α)
    : (inner ++ [last]).modify ((inner ++ [last]).length - 1) change = inner ++ [change last] := by
  simp [List.modify_eq_take_drop]

/-- What the tables of the blocks store. -/
def levels (scopes : ScopeStack) : Levels :=
  scopes.frames.map SymbolTable.find?

/-- Every table meets its invariant. -/
def WellFormed (scopes : ScopeStack) : Prop :=
  ∀ frame ∈ scopes.frames, frame.WellFormed

variable {scopes : ScopeStack}

theorem frames_perform_inTop (scopes : ScopeStack) (operation : Operation)
    : (scopes.perform (.inTop operation)).frames
      = scopes.frames.modify 0 fun frame => frame.perform operation := by
  obtain ⟨frames⟩ := scopes
  cases frames with
  | nil => rfl
  | cons frame outer =>
      have applied : (ScopeOperation.inTop operation).apply ⟨frame :: outer⟩
          = setTop ⟨frame :: outer⟩ <$> operation.apply frame :=
        rfl
      rw [perform, applied, List.modify_zero_cons, SymbolTable.perform]
      cases operation.apply frame <;> rfl

/-- Declaring a name is an insertion in the innermost block. -/
theorem perform_insert (scopes : ScopeStack) (name : String) (uid : UInt32)
    : scopes.perform (.insert name uid) = scopes.perform (.inTop (.insert name uid)) :=
  rfl

theorem setGlobal_concat (inner : List SymbolTable) (frame changed : SymbolTable)
    : setGlobal ⟨inner ++ [frame]⟩ changed = ⟨inner ++ [changed]⟩ := by
  cases inner with
  | nil => rfl
  | cons first rest =>
      exact congrArg (fun outer => ScopeStack.mk (outer ++ [changed])) List.dropLast_concat

theorem frames_perform_inGlobal (scopes : ScopeStack) (operation : Operation)
    : (scopes.perform (.inGlobal operation)).frames
      = scopes.frames.modify (scopes.frames.length - 1)
          fun frame => frame.perform operation := by
  obtain ⟨frames⟩ := scopes
  rcases List.eq_nil_or_concat frames with rfl | ⟨inner, frame, rfl⟩
  · rfl
  · rw [List.concat_eq_append]
    have outermost : global ⟨inner ++ [frame]⟩ = .ok frame := by simp [global]
    have applied : (ScopeOperation.inGlobal operation).apply ⟨inner ++ [frame]⟩
        = setGlobal ⟨inner ++ [frame]⟩ <$> operation.apply frame := by
      rw [ScopeOperation.apply, outermost]
      rfl
    rw [modify_last, perform, applied, SymbolTable.perform]
    cases operation.apply frame with
    | error error => rfl
    | ok changed => exact congrArg frames (setGlobal_concat inner frame changed)

/-- A change goes to the first table that has the name, by induction on the blocks. -/
theorem modifyIn_eq (name : String) (update : Update) (frames : List SymbolTable)
    : (match modifyIn name update.change frames with
        | .ok changed => changed
        | .error _ => frames)
      = frames.modify (frames.findIdx fun frame => frame.contains name)
          fun frame => frame.perform (.modify name update) := by
  induction frames with
  | nil => rfl
  | cons frame outer ih =>
      cases present : frame.contains name with
      | true =>
          simp only [modifyIn, present, if_true, List.findIdx_cons, cond_true,
            List.modify_zero_cons, SymbolTable.perform, Operation.apply]
          cases frame.modify name update.change <;> rfl
      | false =>
          simp only [modifyIn, present, List.findIdx_cons, cond_false, List.modify_succ_cons,
            ← ih]
          cases modifyIn name update.change outer <;> rfl

theorem frames_perform_modify (scopes : ScopeStack) (name : String) (update : Update)
    : (scopes.perform (.modify name update)).frames
      = scopes.frames.modify (scopes.frames.findIdx fun frame => frame.contains name)
          fun frame => frame.perform (.modify name update) := by
  rw [← modifyIn_eq]
  obtain ⟨frames⟩ := scopes
  cases frames with
  | nil => rfl
  | cons frame outer =>
      have applied : (ScopeOperation.modify name update).apply ⟨frame :: outer⟩
          = ScopeStack.mk <$> modifyIn name update.change (frame :: outer) :=
        rfl
      rw [perform, applied]
      cases modifyIn name update.change (frame :: outer) <;> rfl

/-- An operation on one table keeps the invariants, and does to one level what it is to do. By
induction on the blocks.
-/
theorem modify_frames {frames : List SymbolTable} (wellFormed : ∀ frame ∈ frames, frame.WellFormed)
    (roomy : ∀ frame ∈ frames, frame.HasRoom) (index : Nat) (operation : Operation)
    : (∀ frame ∈ frames.modify index fun frame => frame.perform operation, frame.WellFormed)
      ∧ (frames.modify index fun frame => frame.perform operation).map SymbolTable.find?
        = (frames.map SymbolTable.find?).modify index operation.record := by
  induction frames generalizing index with
  | nil => simp
  | cons frame outer ih =>
      obtain ⟨frameWellFormed, outerWellFormed⟩ := List.forall_mem_cons.mp wellFormed
      obtain ⟨frameRoomy, outerRoomy⟩ := List.forall_mem_cons.mp roomy
      cases index with
      | zero =>
          obtain ⟨keeps, entries⟩ := frameWellFormed.perform frameRoomy operation
          simp only [List.modify_zero_cons, List.map_cons, entries]
          exact ⟨List.forall_mem_cons.mpr ⟨keeps, outerWellFormed⟩, trivial⟩
      | succ index =>
          obtain ⟨keeps, later⟩ := ih outerWellFormed outerRoomy index
          simp only [List.modify_succ_cons, List.map_cons, later]
          exact ⟨List.forall_mem_cons.mpr ⟨frameWellFormed, keeps⟩, trivial⟩

/-- An operation keeps the invariants, and does to the levels what it is to do. -/
theorem WellFormed.perform (wellFormed : scopes.WellFormed) (small : scopes.IsSmall)
    (operation : ScopeOperation)
    : (scopes.perform operation).WellFormed
      ∧ (scopes.perform operation).levels = operation.record scopes.levels := by
  have changed := modify_frames wellFormed fun frame member =>
    (wellFormed frame member).hasRoom (small frame member)
  cases operation with
  | push =>
      have start : SymbolTable.empty.find? = fun _ => none :=
        funext (SymbolTable.find?_withCapacity 11)
      refine ⟨List.forall_mem_cons.mpr ⟨SymbolTable.wellFormed_withCapacity 11, wellFormed⟩, ?_⟩
      exact congrArg (· :: scopes.levels) start
  | pop =>
      obtain ⟨frames⟩ := scopes
      cases frames with
      | nil => exact ⟨wellFormed, rfl⟩
      | cons frame outer => exact ⟨(List.forall_mem_cons.mp wellFormed).2, rfl⟩
  | dispose =>
      refine ⟨?_, rfl⟩
      rintro _ ⟨⟩
  | insert name uid =>
      rw [perform_insert, WellFormed, levels, frames_perform_inTop]
      exact changed 0 (.insert name uid)
  | modify name update =>
      have sameIndex : scopes.levels.findIdx (fun entries => (entries name).isSome)
          = scopes.frames.findIdx fun frame => frame.contains name :=
        List.findIdx_map ..
      rw [WellFormed, levels, frames_perform_modify, ScopeOperation.record, sameIndex]
      exact changed _ (.modify name update)
  | inTop operation =>
      rw [WellFormed, levels, frames_perform_inTop]
      exact changed 0 operation
  | inGlobal operation =>
      have sameLength : scopes.levels.length = scopes.frames.length := List.length_map _
      rw [WellFormed, levels, frames_perform_inGlobal, ScopeOperation.record, sameLength]
      exact changed _ operation

theorem StaysSmall.isSmall {history : List ScopeOperation} (small : scopes.StaysSmall history)
    : scopes.IsSmall := by
  cases history with
  | nil => exact small
  | cons operation later => exact small.1

/-- A history keeps the invariants, and does to the levels what its operations are to do. By
induction on the history.
-/
theorem WellFormed.run {history : List ScopeOperation} (wellFormed : scopes.WellFormed)
    (small : scopes.StaysSmall history)
    : (scopes.run history).WellFormed ∧ (scopes.run history).IsSmall
      ∧ (scopes.run history).levels = history.foldl ScopeOperation.record scopes.levels := by
  induction history generalizing scopes with
  | nil => exact ⟨wellFormed, small.isSmall, rfl⟩
  | cons operation later ih =>
      obtain ⟨keeps, levels⟩ := wellFormed.perform small.isSmall operation
      have after := ih keeps small.2
      rw [levels] at after
      exact after

-----------------------------------------------------------------------------------------
-- Look-ups
-----------------------------------------------------------------------------------------

/-- The search through the blocks finds exactly the innermost wanted entry, by induction on the
blocks.
-/
theorem findIn_eq_some_iff {wanted : Symbol → Bool} {name : String} {symbol : Symbol}
    {depth : Nat} (frames : List SymbolTable)
    : findIn wanted name frames = some (symbol, depth)
      ↔ Innermost wanted name symbol (frames.map SymbolTable.find?) depth := by
  induction frames with
  | nil =>
      refine ⟨fun found => by simp [findIn] at found, fun found => ?_⟩
      cases found
  | cons frame outer ih =>
      rw [findIn]
      cases entry : (frame.find? name).filter wanted with
      | some inner =>
          obtain ⟨present, isWanted⟩ := Option.filter_eq_some_iff.mp entry
          constructor
          · intro same
            obtain ⟨rfl, rfl⟩ : inner = symbol ∧ outer.length = depth := by simpa using same
            rw [← List.length_map SymbolTable.find?]
            exact .here present isWanted
          · intro found
            cases found with
            | here found _ => simp [Option.some.inj (present.symm.trans found)]
            | outer hidden _ => simp [hidden inner present] at isWanted
      | none =>
          rw [Option.filter_eq_none_iff] at entry
          constructor
          · intro found
            exact .outer (fun inner present => by simpa using entry inner present) (ih.mp found)
          · intro found
            cases found with
            | here present isWanted => exact absurd isWanted (entry symbol present)
            | outer _ found => exact ih.mpr found

/-- The search through the blocks fails exactly if no block has a wanted entry. -/
theorem findIn_eq_none_iff {wanted : Symbol → Bool} {name : String} (frames : List SymbolTable)
    : findIn wanted name frames = none
      ↔ ∀ entries ∈ frames.map SymbolTable.find?, ∀ symbol, entries name = some symbol
        → wanted symbol = false := by
  induction frames with
  | nil => simp [findIn]
  | cons frame outer ih =>
      rw [findIn, List.map_cons, List.forall_mem_cons, ← ih]
      cases entry : (frame.find? name).filter wanted with
      | some inner =>
          obtain ⟨present, isWanted⟩ := Option.filter_eq_some_iff.mp entry
          simp [present, isWanted]
      | none =>
          rw [Option.filter_eq_none_iff] at entry
          simpa using fun _ => entry

theorem getWhere_eq_ok_iff {wanted : Symbol → Bool} {name : String} {symbol : Symbol}
    {depth : Nat}
    : scopes.getWhere wanted name = .ok (symbol, depth)
      ↔ Innermost wanted name symbol scopes.levels depth := by
  rw [levels, ← findIn_eq_some_iff]
  obtain ⟨frames⟩ := scopes
  cases frames with
  | nil => simp [getWhere, isOpen, findIn]
  | cons frame outer =>
      simp only [getWhere, isOpen, List.isEmpty_cons, Bool.not_false, if_true]
      cases findIn wanted name (frame :: outer) <;> simp

theorem getWhere_eq_error_iff {wanted : Symbol → Bool} {name : String} {error : SymbolError}
    : scopes.getWhere wanted name = .error error
      ↔ Unresolved wanted name scopes.levels error := by
  rw [Unresolved, levels, ← findIn_eq_none_iff]
  obtain ⟨frames⟩ := scopes
  cases frames with
  | nil => simp [getWhere, isOpen, eq_comm]
  | cons frame outer =>
      simp only [getWhere, isOpen, List.isEmpty_cons, Bool.not_false, if_true]
      cases findIn wanted name (frame :: outer) <;> simp [eq_comm]

/-- A change fails if no block has the name, or by itself on the visible entry. By induction on
the blocks.
-/
theorem modifyIn_eq_error_iff {name : String} {change : Symbol → Except SymbolError Symbol}
    {error : SymbolError} (frames : List SymbolTable)
    : modifyIn name change frames = .error error
      ↔ error = .itemNotFound ∧ findIn (fun _ => true) name frames = none
        ∨ ∃ symbol depth, findIn (fun _ => true) name frames = some (symbol, depth)
          ∧ change symbol = .error error := by
  induction frames with
  | nil => simp [modifyIn, findIn, eq_comm]
  | cons frame outer ih =>
      cases present : frame.find? name with
      | some symbol =>
          have found : findIn (fun _ => true) name (frame :: outer)
              = some (symbol, outer.length) := by
            simp only [findIn, present, Option.filter_some, if_true]
          have here : modifyIn name change (frame :: outer)
              = (· :: outer) <$> frame.modify name change := by
            simp [modifyIn, SymbolTable.contains, present]
          have fails : frame.modify name change = .error error ↔ change symbol = .error error := by
            simp [SymbolTable.modify_eq_error_iff, present]
          rw [here, found]
          cases modified : frame.modify name change <;> simp_all
      | none =>
          have passed : findIn (fun _ => true) name (frame :: outer)
              = findIn (fun _ => true) name outer := by
            simp only [findIn, present, Option.filter_none]
          have later : modifyIn name change (frame :: outer)
              = (frame :: ·) <$> modifyIn name change outer := by
            simp [modifyIn, SymbolTable.contains, present]
          rw [later, passed, ← ih]
          cases modifyIn name change outer <;> simp

theorem modify_eq_error_iff {name : String} {change : Symbol → Except SymbolError Symbol}
    {error : SymbolError}
    : scopes.modify name change = .error error
      ↔ Unresolved (fun _ => true) name scopes.levels error
        ∨ ∃ symbol depth, Visible name symbol scopes.levels depth
          ∧ change symbol = .error error := by
  simp only [Unresolved, levels, ← findIn_eq_none_iff, ← findIn_eq_some_iff]
  obtain ⟨frames⟩ := scopes
  cases frames with
  | nil => simp [modify, isOpen, findIn, eq_comm]
  | cons frame outer =>
      have opened : modify ⟨frame :: outer⟩ name change
          = ScopeStack.mk <$> modifyIn name change (frame :: outer) :=
        rfl
      have fails : modifyIn name change (frame :: outer) = .error error ↔ _ :=
        modifyIn_eq_error_iff _
      rw [opened]
      cases modified : modifyIn name change (frame :: outer) <;> simp_all

/-- A stack that meets the invariants represents what its tables store. -/
theorem WellFormed.represents (wellFormed : scopes.WellFormed) (small : scopes.IsSmall)
    : scopes.Represents scopes.levels where
  frames := by
    rw [levels, List.forall₂_map_right_iff, List.forall₂_same]
    intro frame member
    exact (wellFormed frame member).represents (small frame member)
  getWithDepth _ _ _ := getWhere_eq_ok_iff
  getWithDepth_fails _ _ := getWhere_eq_error_iff
  get name symbol := by
    simp only [get, ← getWhere_eq_ok_iff, ← getWithDepth.eq_def]
    cases scopes.getWithDepth name <;> simp [Prod.ext_iff]
  get_fails name error := by
    rw [get, ← getWhere_eq_error_iff, ← getWithDepth.eq_def]
    cases scopes.getWithDepth name <;> simp
  isGlobal name answer := by
    simp only [isGlobal, ← getWhere_eq_ok_iff, ← getWithDepth.eq_def]
    cases scopes.getWithDepth name <;> simp [Prod.ext_iff, eq_comm]
  isGlobal_fails name error := by
    rw [isGlobal, ← getWhere_eq_error_iff, ← getWithDepth.eq_def]
    cases scopes.getWithDepth name <;> simp
  getInitialized _ _ _ := getWhere_eq_ok_iff
  getInitialized_fails _ _ := getWhere_eq_error_iff
  modify_fails _ _ _ := modify_eq_error_iff
  insert_fails name uid error := by
    obtain ⟨frames⟩ := scopes
    cases frames with
    | nil =>
        have closed : insert ⟨[]⟩ name uid = .error .notInitialized := rfl
        simp [closed, levels, @eq_comm _ SymbolError.notInitialized]
    | cons frame outer =>
        have fails : frame.insert name uid = .error error ↔ _ :=
          (wellFormed frame List.mem_cons_self).insert_eq_error_iff
            ((wellFormed frame List.mem_cons_self).hasRoom (small frame List.mem_cons_self))
        have inserts : insert ⟨frame :: outer⟩ name uid
            = setTop ⟨frame :: outer⟩ <$> frame.insert name uid :=
          rfl
        rw [inserts]
        cases inserted : frame.insert name uid <;> simp_all [levels, and_comm]
  pop_fails error := by
    obtain ⟨frames⟩ := scopes
    cases frames <;> simp [pop, levels, eq_comm]
  top_fails error := by
    obtain ⟨frames⟩ := scopes
    cases frames <;> simp [top, levels, eq_comm]
  global_fails error := by
    obtain ⟨frames⟩ := scopes
    rcases List.eq_nil_or_concat frames with rfl | ⟨inner, frame, rfl⟩
    · simp [global, levels, eq_comm]
    · simp [global, levels]

/-- Look-ups see no more of a stack than its levels. -/
theorem getWhere_congr {scopes other : ScopeStack} (same : scopes.levels = other.levels)
    (wanted : Symbol → Bool) (name : String)
    : scopes.getWhere wanted name = other.getWhere wanted name := by
  cases found : other.getWhere wanted name with
  | ok entry => exact getWhere_eq_ok_iff.mpr (same ▸ getWhere_eq_ok_iff.mp found)
  | error error => exact getWhere_eq_error_iff.mpr (same ▸ getWhere_eq_error_iff.mp found)

/-- After every history a stack of blocks answers as the levels that the history makes. -/
theorem run_start {history : List ScopeOperation} (small : StaysSmall {} history)
    : (run {} history).Represents (Levels.after history)
      ∧ (run {} history).levels = Levels.after history := by
  have wellFormed : WellFormed {} := by rintro _ ⟨⟩
  obtain ⟨keeps, endsSmall, levels⟩ := wellFormed.run small
  have represents := keeps.represents endsSmall
  rw [levels] at represents
  exact ⟨represents, levels⟩

end ScopeStack

end ExprCompiler

import ExprCompiler.Proofs.Names.Numbering
import ExprCompiler.Proofs.Target.InstructionDecoder

/-! Different entries are different variables of the target. The name of a variable is the name of
its symbol with the number of the entry, and no two entries of a run have the same number.
-/

namespace ExprCompiler

namespace Assembly

/-- A variable is told by its text, as both frames are written with two letters. -/
theorem Variable.text_injective {first second : Variable} (same : first.text = second.text)
    : first = second := by
  obtain ⟨frame, name⟩ := first
  obtain ⟨otherFrame, otherName⟩ := second
  have chars := congrArg String.toList same
  simp only [Variable.text, String.toList_append, List.append_assoc] at chars
  have sameLength : frame.text.toList.length = otherFrame.text.toList.length := by
    cases frame <;> cases otherFrame <;> rfl
  obtain ⟨frames, names⟩ := List.append_inj chars sameLength
  have sameName : name = otherName := String.toList_inj.mp (List.append_cancel_left names)
  have sameFrame : frame = otherFrame := by
    cases frame with
    | globals =>
        cases otherFrame with
        | globals => rfl
        | locals => exact absurd frames (by decide)
    | locals =>
        cases otherFrame with
        | globals => exact absurd frames (by decide)
        | locals => rfl
  rw [sameName, sameFrame]

end Assembly

namespace Symbol

/-- The text of the variable that stands for a symbol. -/
def variableText (symbol : Symbol) (global : Bool) : String :=
  (Operand.variable symbol.name symbol.uid global).symb.text

/-- A variable shows the number of its symbol, also if its name ends in a number. -/
theorem uid_eq_of_variableText {symbol other : Symbol} {global otherGlobal : Bool}
    (same : symbol.variableText global = other.variableText otherGlobal)
    : symbol.uid = other.uid := by
  have names : symbol.name ++ "_" ++ Nat.repr symbol.uid.toNat
      = other.name ++ "_" ++ Nat.repr other.uid.toNat :=
    congrArg Assembly.Variable.name (Assembly.Variable.text_injective same)
  have numbered := Assembly.numbered?_append symbol.name symbol.uid
  rw [names, Assembly.numbered?_append, Option.some.injEq] at numbered
  exact (congrArg Prod.snd numbered).symm

/-- A variable is no helper, as the names of helpers are no identifiers. -/
theorem variableText_ne_helper {symbol : Symbol}
    (identifier : Assembly.isIdentifier symbol.name = true) (global : Bool)
    {helper : Assembly.Variable} (isHelper : helper.name ∈ Assembly.helpers)
    : symbol.variableText global ≠ helper.text := by
  intro same
  have names := congrArg Assembly.Variable.name (Assembly.Variable.text_injective same)
  rw [← names] at isHelper
  exact Assembly.numbered_not_mem_helpers identifier symbol.uid.toNat isHelper

end Symbol

theorem Ledger.created_le_of_prefix {early history : List SessionRequest}
    (isPrefix : early <+: history)
    : (Ledger.after early).created ≤ (Ledger.after history).created := by
  obtain ⟨rest, rfl⟩ := isPrefix
  rw [Ledger.after, Ledger.after, List.foldl_append]
  exact Ledger.created_le_foldl _ rest

namespace Session

theorem Tracks.isSome_find? {session : Session} {ledger : Ledger}
    (tracks : session.Tracks ledger) (place : EntryPlace)
    : (session.find? place).isSome = (ledger.find? place).isSome := by
  rcases tracks.find? place with ⟨noSymbol, noEntry⟩ | ⟨symbol, entry, found, isEntry, _⟩
  · rw [noSymbol, noEntry]
    rfl
  · rw [found, isEntry]
    rfl

theorem Tracks.uid_eq {session : Session} {ledger : Ledger} (tracks : session.Tracks ledger)
    {place : EntryPlace} {symbol : Symbol} {entry : Nat}
    (found : session.find? place = some symbol) (isEntry : ledger.find? place = some entry)
    : symbol.name = place.name ∧ symbol.uid = .ofNat entry ∧ entry < ledger.created := by
  rcases tracks.find? place with ⟨noSymbol, _⟩ | ⟨stored, recorded, isStored, isRecorded, same⟩
  · rw [noSymbol] at found
    cases found
  · rw [isStored] at found
    rw [isRecorded] at isEntry
    cases found
    cases isEntry
    exact same

/-- In a run that makes no more entries than there are numbers, the entries are found where the
ledger has them, and their numbers increase in the order in which they were made. So an entry
keeps its number as long as it lives, and different entries, at the same time or not, have
different numbers. Their variables are different, and none is a helper.
-/
theorem variables_distinct {history early late : List SessionRequest}
    (bounded : (Ledger.after history).created ≤ 2 ^ 32) (isEarly : early <+: history)
    (isLate : late <+: history) (here there : EntryPlace)
    : ((after early).find? here).isSome = ((Ledger.after early).find? here).isSome
      ∧ ∀ symbol other entry otherEntry,
        (after early).find? here = some symbol → (Ledger.after early).find? here = some entry →
        (after late).find? there = some other →
        (Ledger.after late).find? there = some otherEntry →
        symbol.name = here.name
        ∧ (symbol.uid < other.uid ↔ entry < otherEntry)
        ∧ (symbol.uid = other.uid ↔ entry = otherEntry)
        ∧ (entry ≠ otherEntry →
          ∀ global otherGlobal, symbol.variableText global ≠ other.variableText otherGlobal)
        ∧ (Assembly.isIdentifier symbol.name = true →
          ∀ global, ∀ helper ∈ [Assembly.firstParam, Assembly.secondParam, Assembly.result],
            symbol.variableText global ≠ helper.text) := by
  have earlyBound := (Ledger.created_le_of_prefix isEarly).trans bounded
  have lateBound := (Ledger.created_le_of_prefix isLate).trans bounded
  have earlyTracks := tracks_after earlyBound
  refine ⟨earlyTracks.isSome_find? here, ?_⟩
  intro symbol other entry otherEntry found isEntry otherFound isOther
  obtain ⟨name, uid, small⟩ := earlyTracks.uid_eq found isEntry
  obtain ⟨_, otherUid, otherSmall⟩ := (tracks_after lateBound).uid_eq otherFound isOther
  have number : symbol.uid.toNat = entry := by
    rw [uid]
    exact UInt32.toNat_ofNat_of_lt' (small.trans_le earlyBound)
  have otherNumber : other.uid.toNat = otherEntry := by
    rw [otherUid]
    exact UInt32.toNat_ofNat_of_lt' (otherSmall.trans_le lateBound)
  have sameUid : symbol.uid = other.uid ↔ entry = otherEntry := by
    rw [← UInt32.toNat_inj, number, otherNumber]
  refine ⟨name, ?_, sameUid, fun differ global otherGlobal same => ?_, ?_⟩
  · rw [UInt32.lt_iff_toNat_lt, number, otherNumber]
  · exact differ (sameUid.mp (Symbol.uid_eq_of_variableText same))
  · intro identifier global helper member
    exact Symbol.variableText_ne_helper identifier global (List.mem_map_of_mem member)

/-- A name that is deleted and inserted again is another variable, whatever else was declared in
the meantime.
-/
theorem variables_distinct_reinserted
    : let history : List SessionRequest :=
        [.newTable 0 2, .inStack 1 .push, .inStack 1 .register, .inStack 0 (.inTop (.insert "a_1")),
          .inStack 1 .push, .inStack 1 (.insert "a"), .inStack 0 (.inTop (.insert "a_1")),
          .inStack 0 (.inTop (.erase "a_1")), .inStack 0 (.inTop .grow), .detach 1 2,
          .inStack 0 (.inTop (.insert "a_1"))]
      let place : EntryPlace := ⟨0, 0, "a_1"⟩
      (Ledger.after history).created ≤ 2 ^ 32
      ∧ (after (history.take 5)).find? place = some { name := "a_1", uid := 10 }
      ∧ (Ledger.after (history.take 5)).find? place = some 10
      ∧ (after history).find? place = some { name := "a_1", uid := 12 }
      ∧ (Ledger.after history).find? place = some 12
      ∧ ∀ global otherGlobal, Symbol.variableText { name := "a_1", uid := 10 } global
        ≠ Symbol.variableText { name := "a_1", uid := 12 } otherGlobal := by
  intro history place
  have bounded : (Ledger.after history).created ≤ 2 ^ 32 := by decide +kernel
  have found : (after (history.take 5)).find? place = some { name := "a_1", uid := 10 } := by
    decide +kernel
  have isEntry : (Ledger.after (history.take 5)).find? place = some 10 := by decide +kernel
  have foundLater : (after history).find? place = some { name := "a_1", uid := 12 } := by
    decide +kernel
  have isLater : (Ledger.after history).find? place = some 12 := by decide +kernel
  obtain ⟨_, distinct⟩ := variables_distinct bounded (List.take_prefix 5 history)
    List.prefix_rfl place place
  obtain ⟨_, _, _, differ, _⟩ := distinct _ _ _ _ found isEntry foundLater isLater
  exact ⟨bounded, found, isEntry, foundLater, isLater, differ (by decide)⟩

end Session

end ExprCompiler

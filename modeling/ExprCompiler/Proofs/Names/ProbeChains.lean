import ExprCompiler.Proofs.Names.Probing

/-! Slots in which every stored name can be found: on the way to it no slot was never used, and
no name is stored twice. Putting something else than an empty slot in the place of a slot keeps
this, so insertions, deletions and changes do.
-/

namespace ExprCompiler.Slots

/-- The search for a name gets to a slot, passing only slots in use. -/
def Leads (slots : Array Slot) (name : String) (index : Nat) : Prop :=
  ∃ target < slots.size, (Probe.ofName name slots.size).index target = index
    ∧ ∀ before < target, slots[(Probe.ofName name slots.size).index before]? ≠ some .empty

/-- Every name in the slots can be found. -/
structure Chained (slots : Array Slot) : Prop where
  prime : slots.size.Prime
  leads
    : ∀ (index : Nat) (symbol : Symbol), slots[index]? = some (.occupied symbol) →
        Leads slots symbol.name index
  distinct
    : ∀ (first second : Nat) (one other : Symbol), slots[first]? = some (.occupied one) →
        slots[second]? = some (.occupied other) → one.name = other.name → first = second

variable {slots : Array Slot} {name : String} {index : Nat}

/-- The place that was searched for a name was never used, and the name leads there. -/
theorem vacancy?_spec (vacant : vacancy? slots name = some index)
    : slots[index]? = some .empty ∧ Leads slots name index := by
  obtain ⟨target, _, bound, isIndex, isEmpty, passes⟩ := exists_visited_of_vacancyFrom vacant
  exact ⟨isEmpty, target, by omega, isIndex, fun before => passes before (Nat.zero_le _)⟩

namespace Chained

/-- A search for a name finds exactly what one of the slots holds for it. On the way to that slot
there is no other one with the name, as the slots on the way are all different.
-/
theorem find?_eq_some_iff (chained : Chained slots) {symbol : Symbol}
    : find? slots name = some (index, symbol)
      ↔ slots[index]? = some (.occupied symbol) ∧ symbol.name = name := by
  refine ⟨getElem?_of_findFrom, ?_⟩
  rintro ⟨present, rfl⟩
  obtain ⟨target, bound, rfl, passes⟩ := chained.leads index symbol present
  refine findFrom_eq_some present rfl (Nat.zero_le _) (by omega) ?_
  intro between _ less
  have inUse := passes between less
  have inside := Probe.index_lt (Probe.ofName symbol.name slots.size) chained.prime.pos between
  obtain ⟨slot, isSlot⟩ : ∃ slot, slots[(Probe.ofName symbol.name slots.size).index between]?
      = some slot := ⟨_, Array.getElem?_eq_getElem inside⟩
  rw [isSlot] at inUse ⊢
  cases slot with
  | empty => exact absurd rfl inUse
  | tombstone => exact .inl rfl
  | occupied other =>
      -- A second slot with the name would be the same slot, but the two visits differ.
      refine .inr ⟨other, rfl, fun sameName => ?_⟩
      have sameSlot := chained.distinct _ _ other symbol isSlot present sameName
      have sameVisit := Probe.index_injective symbol.name chained.prime (by omega) bound sameSlot
      omega

/-- A search for a name finds nothing exactly if no slot holds it. -/
theorem find?_eq_none_iff (chained : Chained slots)
    : find? slots name = none
      ↔ ∀ (index : Nat) (symbol : Symbol), slots[index]? = some (.occupied symbol) →
          symbol.name ≠ name := by
  rw [Option.eq_none_iff_forall_ne_some]
  constructor
  · intro absent index symbol present sameName
    exact absent (index, symbol) (chained.find?_eq_some_iff.mpr ⟨present, sameName⟩)
  · rintro absent ⟨index, symbol⟩ found
    obtain ⟨present, sameName⟩ := chained.find?_eq_some_iff.mp found
    exact absent index symbol present sameName

/-- Slots that were never used hold no name to be found. -/
theorem replicate {size : Nat} (prime : size.Prime)
    : Chained (Array.replicate size .empty) where
  prime := by simpa using prime
  leads := by
    intro index symbol present
    simp [Array.getElem?_replicate] at present
  distinct := by
    intro first second one other present
    simp [Array.getElem?_replicate] at present

/-- A slot in use may take the place of any slot. What was in use before still is, so names are
found as before; the name in the new slot must lead there, and be in no other one.
-/
theorem set (chained : Chained slots) {slot : Slot} (inUse : slot ≠ .empty)
    (leads : ∀ symbol, slot = .occupied symbol → Leads slots symbol.name index)
    (alone : ∀ symbol, slot = .occupied symbol → ∀ (second : Nat) (other : Symbol),
      slots[second]? = some (.occupied other) → other.name = symbol.name → second = index)
    : Chained (slots.setIfInBounds index slot) := by
  -- A way that passed only slots in use still does.
  have stillUsed {name : String} {place : Nat} (before : Leads slots name place)
      : Leads (slots.setIfInBounds index slot) name place := by
    obtain ⟨target, bound, isPlace, passes⟩ := before
    refine ⟨target, by simpa using bound, by simpa using isPlace, ?_⟩
    intro visited less
    have used := passes visited less
    simp only [Array.size_setIfInBounds, Array.getElem?_setIfInBounds]
    split
    · split
      · simpa using inUse
      · simp
    · exact used
  have content {place : Nat} {symbol : Symbol}
      (present : (slots.setIfInBounds index slot)[place]? = some (.occupied symbol))
      : (place = index ∧ slot = .occupied symbol) ∨ slots[place]? = some (.occupied symbol) := by
    rw [Array.getElem?_setIfInBounds] at present
    split at present
    · next same =>
        split at present
        · exact .inl ⟨same.symm, Option.some.inj present⟩
        · cases present
    · exact .inr present
  refine ⟨by simpa using chained.prime, ?_, ?_⟩
  · intro place symbol present
    rcases content present with ⟨rfl, isSlot⟩ | before
    · exact stillUsed (leads symbol isSlot)
    · exact stillUsed (chained.leads place symbol before)
  · intro first second one other firstPresent secondPresent sameName
    rcases content firstPresent with ⟨rfl, firstSlot⟩ | firstBefore
    · rcases content secondPresent with ⟨rfl, _⟩ | secondBefore
      · rfl
      · exact (alone one firstSlot second other secondBefore sameName.symm).symm
    · rcases content secondPresent with ⟨rfl, secondSlot⟩ | secondBefore
      · exact alone other secondSlot first one firstBefore sameName
      · exact chained.distinct first second one other firstBefore secondBefore sameName

/-- A name that is neither in the new slot nor in the old one is found as before. -/
theorem find?_set_of_ne {slot : Slot} (before : Chained slots)
    (after : Chained (slots.setIfInBounds index slot))
    (notNew : ∀ symbol, slot = .occupied symbol → symbol.name ≠ name)
    (notOld : ∀ symbol : Symbol, slots[index]? = some (.occupied symbol) → symbol.name ≠ name)
    : find? (slots.setIfInBounds index slot) name = find? slots name := by
  apply Option.ext
  rintro ⟨place, symbol⟩
  rw [after.find?_eq_some_iff, before.find?_eq_some_iff, Array.getElem?_setIfInBounds]
  refine and_congr_left fun hasName => ?_
  split
  · next same =>
      subst same
      refine iff_of_false ?_ fun present => notOld symbol present hasName
      split
      · exact fun isSlot => notNew symbol (Option.some.inj isSlot) hasName
      · simp
  · rfl

/-- There is a place for every name as long as one slot was never used. -/
theorem exists_vacancy?_eq (chained : Chained slots) (name : String)
    (isEmpty : slots[index]? = some .empty)
    : ∃ place, vacancy? slots name = some place := by
  have bound : index < slots.size := (Array.getElem?_eq_some_iff.mp isEmpty).1
  obtain ⟨target, visited, rfl⟩ := Probe.exists_index_eq name chained.prime bound
  exact Option.isSome_iff_exists.mp
    (vacancyFrom_isSome (Nat.zero_le target) (by omega) isEmpty)

/-- A new name may be put in the place that was searched for it. -/
theorem insert (chained : Chained slots) {symbol : Symbol}
    (vacant : vacancy? slots symbol.name = some index)
    (absent : find? slots symbol.name = none)
    : Chained (slots.setIfInBounds index (.occupied symbol)) := by
  refine chained.set (by simp) ?_ ?_
  · rintro _ ⟨⟩
    exact (vacancy?_spec vacant).2
  · rintro _ ⟨⟩ second other present sameName
    exact absurd sameName (chained.find?_eq_none_iff.mp absent second other present)

theorem erase (chained : Chained slots) (index : Nat)
    : Chained (slots.setIfInBounds index .tombstone) :=
  chained.set (by simp) (by simp) (by simp)

/-- What a slot holds for a name may be changed, if the name stays. -/
theorem replace (chained : Chained slots) {old changed : Symbol}
    (found : find? slots name = some (index, old)) (sameName : changed.name = old.name)
    : Chained (slots.setIfInBounds index (.occupied changed)) := by
  obtain ⟨present, _⟩ := chained.find?_eq_some_iff.mp found
  refine chained.set (by simp) ?_ ?_
  · rintro _ ⟨⟩
    rw [sameName]
    exact chained.leads index old present
  · rintro _ ⟨⟩ second other otherPresent otherName
    exact chained.distinct second index other old otherPresent present
      (otherName.trans sameName)

end Chained

end ExprCompiler.Slots

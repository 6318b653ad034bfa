import ExprCompiler.Proofs.Names.ProbeChains

/-! What slots hold: how many are in use, which names are in them, and what becomes of that when
names are placed one after the other.
-/

namespace ExprCompiler

namespace Slot

/-- The slot was used. -/
def isUsed (slot : Slot) : Bool :=
  slot ≠ .empty

/-- The slot held a name that was deleted. -/
def isTombstone (slot : Slot) : Bool :=
  slot = .tombstone

theorem symbol?_eq_some_iff {slot : Slot} {symbol : Symbol}
    : slot.symbol? = some symbol ↔ slot = .occupied symbol := by
  cases slot <;> simp [symbol?]

end Slot

namespace Slots

variable {slots : Array Slot} {name : String} {index : Nat}

/-- The symbols in slot order. -/
def symbols (slots : Array Slot) : List Symbol :=
  slots.toList.filterMap Slot.symbol?

/-- How many slots are of some sort. -/
def count (sort : Slot → Bool) (slots : Array Slot) : Nat :=
  slots.toList.countP sort

/-- Another slot in the place of one changes the count by the two of them. -/
theorem count_set (sort : Slot → Bool) {old : Slot} (present : slots[index]? = some old)
    (new : Slot)
    : count sort (slots.setIfInBounds index new) + (if sort old then 1 else 0)
      = count sort slots + (if sort new then 1 else 0) := by
  obtain ⟨bound, isOld⟩ := Array.getElem?_eq_some_iff.mp present
  have inList : index < slots.toList.length := by simpa using bound
  have listed : slots.toList[index] = old := by simpa using isOld
  have member : old ∈ slots.toList := listed ▸ List.getElem_mem inList
  rw [count, count, Array.toList_setIfInBounds, List.countP_set inList, listed]
  cases sorted : sort old with
  | false => simp
  | true =>
      have positive : 0 < slots.toList.countP sort := List.countP_pos_iff.mpr ⟨old, member, sorted⟩
      simp only [if_true]
      omega

/-- A slot in use holds a symbol or a tombstone. -/
theorem count_isUsed (slots : Array Slot)
    : count Slot.isUsed slots = count Slot.isTombstone slots + (symbols slots).length := by
  unfold count symbols
  induction slots.toList with
  | nil => rfl
  | cons slot rest ih =>
      rw [List.countP_cons, List.countP_cons, List.filterMap_cons, ih]
      cases slot <;> simp [Slot.isUsed, Slot.isTombstone, Slot.symbol?] <;> omega

/-- If not all slots are in use, one was never used. -/
theorem exists_empty_of_count_lt (room : count Slot.isUsed slots < slots.size)
    : ∃ index : Nat, slots[index]? = some .empty := by
  by_contra full
  have allUsed : ∀ slot ∈ slots.toList, slot.isUsed = true := by
    intro slot member
    obtain ⟨index, bound, isSlot⟩ := List.mem_iff_getElem.mp member
    simp only [Slot.isUsed, decide_eq_true_eq]
    rintro rfl
    exact full ⟨index, by simpa [Array.getElem?_eq_some_iff] using ⟨by simpa using bound, isSlot⟩⟩
  have all := List.countP_eq_length.mpr allUsed
  unfold count at room
  simp [all] at room

/-- What is stored for a name. -/
def lookup (slots : Array Slot) (name : String) : Option Symbol :=
  (find? slots name).map (·.2)

/-- A symbol is listed if one of the slots holds it. -/
theorem mem_symbols_iff {symbol : Symbol}
    : symbol ∈ symbols slots ↔ ∃ index : Nat, slots[index]? = some (.occupied symbol) := by
  rw [symbols, List.mem_filterMap]
  constructor
  · rintro ⟨slot, member, isSymbol⟩
    obtain ⟨index, isSlot⟩ := List.mem_iff_getElem?.mp member
    obtain rfl := Slot.symbol?_eq_some_iff.mp isSymbol
    exact ⟨index, by simpa using isSlot⟩
  · rintro ⟨index, present⟩
    exact ⟨.occupied symbol, Array.mem_toList_iff.mpr (Array.mem_of_getElem? present), rfl⟩

namespace Chained

/-- What is stored for a name is the symbol with this name among the listed ones. -/
theorem lookup_eq_some_iff (chained : Chained slots) {symbol : Symbol}
    : lookup slots name = some symbol ↔ symbol ∈ symbols slots ∧ symbol.name = name := by
  rw [lookup, Option.map_eq_some_iff, mem_symbols_iff]
  constructor
  · rintro ⟨⟨index, held⟩, found, rfl⟩
    obtain ⟨present, hasName⟩ := chained.find?_eq_some_iff.mp found
    exact ⟨⟨index, present⟩, hasName⟩
  · rintro ⟨⟨index, present⟩, hasName⟩
    exact ⟨(index, symbol), chained.find?_eq_some_iff.mpr ⟨present, hasName⟩, rfl⟩

/-- No name is listed twice. -/
theorem nodup_names (chained : Chained slots) : ((symbols slots).map Symbol.name).Nodup := by
  rw [symbols, List.map_filterMap, List.Nodup, List.pairwise_filterMap,
    List.pairwise_iff_getElem]
  intro first second firstBound secondBound less one oneNamed other otherNamed same
  obtain ⟨oneSymbol, oneHeld, rfl⟩ := Option.map_eq_some_iff.mp oneNamed
  obtain ⟨otherSymbol, otherHeld, rfl⟩ := Option.map_eq_some_iff.mp otherNamed
  have held {index : Nat} {symbol : Symbol} (bound : index < slots.toList.length)
      (isSymbol : slots.toList[index].symbol? = some symbol)
      : slots[index]? = some (.occupied symbol) := by
    rw [← Array.getElem?_toList, List.getElem?_eq_getElem bound,
      Slot.symbol?_eq_some_iff.mp isSymbol]
  have sameSlot := chained.distinct first second oneSymbol otherSymbol
    (held firstBound oneHeld) (held secondBound otherHeld) same
  omega

end Chained

theorem count_replicate_empty (sort : Slot → Bool) (notEmpty : sort .empty = false) (size : Nat)
    : count sort (Array.replicate size .empty) = 0 := by
  simp [count, List.countP_replicate, notEmpty]

theorem lookup_replicate_empty {size : Nat} (prime : size.Prime) (name : String)
    : lookup (Array.replicate size .empty) name = none := by
  have notFound : find? (Array.replicate size .empty) name = none := by
    rw [(Chained.replicate prime).find?_eq_none_iff]
    intro index symbol present
    simp [Array.getElem?_replicate] at present
  rw [lookup, notFound]
  rfl

/-- If the only slot for a name gets another content for this name, only this name is affected. -/
theorem Chained.lookup_set {slot : Slot} (before : Chained slots)
    (after : Chained (slots.setIfInBounds index slot)) (bound : index < slots.size)
    (alone : ∀ (place : Nat) (symbol : Symbol), slots[place]? = some (.occupied symbol) →
      symbol.name = name → place = index)
    (oldName : ∀ symbol : Symbol, slots[index]? = some (.occupied symbol) → symbol.name = name)
    (newName : ∀ symbol, slot = .occupied symbol → symbol.name = name) (other : String)
    : lookup (slots.setIfInBounds index slot) other
      = if other = name then slot.symbol? else lookup slots other := by
  split
  · next sameName =>
      subst sameName
      apply Option.ext
      intro symbol
      rw [after.lookup_eq_some_iff, mem_symbols_iff, Slot.symbol?_eq_some_iff]
      constructor
      · rintro ⟨⟨place, held⟩, isName⟩
        have samePlace : place = index := by
          by_contra different
          rw [Array.getElem?_setIfInBounds_ne (Ne.symm different)] at held
          exact different (alone place symbol held isName)
        rw [samePlace, Array.getElem?_setIfInBounds_self_of_lt bound] at held
        exact Option.some.inj held
      · intro isSlot
        refine ⟨⟨index, ?_⟩, newName symbol isSlot⟩
        rw [Array.getElem?_setIfInBounds_self_of_lt bound, isSlot]
  · next otherName =>
      have unchanged : find? (slots.setIfInBounds index slot) other = find? slots other := by
        refine before.find?_set_of_ne after ?_ ?_
        · rintro symbol isSymbol rfl
          exact otherName (newName symbol isSymbol)
        · rintro symbol isOld rfl
          exact otherName (oldName symbol isOld)
      rw [lookup, unchanged]
      rfl

/-- The same for a name that is found: the slot that holds it is the only one. -/
theorem Chained.lookup_set_of_find? {slot : Slot} {old : Symbol} (before : Chained slots)
    (after : Chained (slots.setIfInBounds index slot))
    (found : find? slots name = some (index, old))
    (newName : ∀ symbol, slot = .occupied symbol → symbol.name = name) (other : String)
    : lookup (slots.setIfInBounds index slot) other
      = if other = name then slot.symbol? else lookup slots other := by
  obtain ⟨present, oldName⟩ := before.find?_eq_some_iff.mp found
  refine before.lookup_set after (Array.getElem?_eq_some_iff.mp present).1 ?_ ?_ newName other
  · intro place symbol held isName
    exact before.distinct _ _ _ _ held present (isName.trans oldName.symm)
  · intro symbol held
    rw [present] at held
    cases held
    exact oldName

/-- Some slots with one more symbol. -/
structure Adds (slots placed : Array Slot) (symbol : Symbol) : Prop where
  chained : Chained placed
  size : placed.size = slots.size
  used : count Slot.isUsed placed = count Slot.isUsed slots + 1
  tombstones : count Slot.isTombstone placed = count Slot.isTombstone slots
  lookup
    : ∀ name, lookup placed name = if name = symbol.name then some symbol else lookup slots name

theorem find?_eq_none_of_lookup (absent : lookup slots name = none)
    : find? slots name = none := by
  simpa [lookup] using absent

/-- A new symbol finds its place as long as not all slots are in use. -/
theorem Chained.adds_place (chained : Chained slots) (symbol : Symbol)
    (absent : Slots.lookup slots symbol.name = none)
    (room : count Slot.isUsed slots < slots.size)
    : (∃ index, vacancy? slots symbol.name = some index)
      ∧ Adds slots (place slots symbol) symbol := by
  obtain ⟨free, isEmpty⟩ := exists_empty_of_count_lt room
  obtain ⟨index, vacant⟩ := chained.exists_vacancy?_eq symbol.name isEmpty
  have wasEmpty := (vacancy?_spec vacant).1
  have notFound := find?_eq_none_of_lookup absent
  have placed : place slots symbol = slots.setIfInBounds index (.occupied symbol) := by
    simp [place, vacant]
  have after := chained.insert vacant notFound
  refine ⟨⟨index, vacant⟩, ?_⟩
  rw [placed]
  refine ⟨after, by simp, ?_, ?_, ?_⟩
  · simpa [Slot.isUsed] using count_set Slot.isUsed wasEmpty (.occupied symbol)
  · simpa [Slot.isTombstone] using count_set Slot.isTombstone wasEmpty (.occupied symbol)
  · refine chained.lookup_set after (Array.getElem?_eq_some_iff.mp wasEmpty).1 ?_ ?_ ?_
    · intro place other held isName
      exact absurd isName (chained.find?_eq_none_iff.mp notFound place other held)
    · simp [wasEmpty]
    · rintro _ ⟨⟩
      rfl

/-- Some slots with more symbols. -/
structure AddsAll (slots placed : Array Slot) (added : List Symbol) : Prop where
  chained : Chained placed
  size : placed.size = slots.size
  used : count Slot.isUsed placed = count Slot.isUsed slots + added.length
  tombstones : count Slot.isTombstone placed = count Slot.isTombstone slots
  lookup
    : ∀ name symbol, lookup placed name = some symbol
        ↔ (symbol ∈ added ∧ symbol.name = name) ∨ lookup slots name = some symbol

/-- New symbols with different names find their places one after the other, as long as there are
enough slots. By induction on the symbols.
-/
theorem Chained.addsAll_foldl_place {added : List Symbol} (chained : Chained slots)
    (distinct : (added.map Symbol.name).Nodup)
    (absent : ∀ symbol ∈ added, Slots.lookup slots symbol.name = none)
    (room : count Slot.isUsed slots + added.length ≤ slots.size)
    : AddsAll slots (added.foldl place slots) added := by
  induction added generalizing slots with
  | nil => exact ⟨chained, rfl, rfl, rfl, by simp⟩
  | cons first rest ih =>
      obtain ⟨firstAbsent, restAbsent⟩ := List.forall_mem_cons.mp absent
      obtain ⟨firstNew, restDistinct⟩ := List.nodup_cons.mp distinct
      rw [List.length_cons] at room
      obtain ⟨_, step⟩ := chained.adds_place first firstAbsent (by omega)
      -- The names to come differ from the first one, so they are still absent after it.
      have stillAbsent : ∀ symbol ∈ rest,
          Slots.lookup (place slots first) symbol.name = none := by
        intro symbol inRest
        have otherName : symbol.name ≠ first.name := by
          intro same
          exact firstNew (same ▸ List.mem_map_of_mem inRest)
        rw [step.lookup, if_neg otherName]
        exact restAbsent symbol inRest
      have all := ih step.chained restDistinct stillAbsent (by rw [step.used, step.size]; omega)
      refine ⟨all.chained, all.size.trans step.size, ?_, all.tombstones.trans step.tombstones, ?_⟩
      · rw [List.length_cons, List.foldl_cons, all.used, step.used]
        omega
      · intro name symbol
        rw [List.foldl_cons, all.lookup, step.lookup, List.mem_cons]
        split
        · next sameName =>
            rw [sameName, firstAbsent]
            grind
        · next otherName => grind

end Slots

end ExprCompiler

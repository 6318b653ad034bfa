import ExprCompiler.Proofs.Names.PrimeSizes
import ExprCompiler.Proofs.Names.SlotContents

/-! The invariant of symbol tables: every name can be found, the counters are right, and at most
65 percent of the slots are in use. Every operation keeps it, and changes what is stored for one
name only.
-/

namespace ExprCompiler.SymbolTable

/-- Every name can be found, and the counters are right. -/
structure Consistent (table : SymbolTable) : Prop where
  chained : Slots.Chained table.slots
  counted : Slots.count Slot.isUsed table.slots = table.count
  buried : Slots.count Slot.isTombstone table.slots = table.tombstones

/-- The invariant of all tables in use. -/
structure WellFormed (table : SymbolTable) : Prop extends Consistent table where
  light : 20 * table.count ≤ 13 * table.capacity

/-- A table of the next size has room for all names in use and one more. -/
def HasRoom (table : SymbolTable) : Prop :=
  20 * (table.count + 1) ≤ 13 * Capacity.next table.capacity

variable {table : SymbolTable} {name : String}

/-- Where everything can be found, a search finds the symbol of a name that is listed. -/
theorem find?_eq_some_iff_of_chained (chained : Slots.Chained table.slots) {symbol : Symbol}
    : table.find? name = some symbol ↔ symbol ∈ table.symbols ∧ symbol.name = name :=
  chained.lookup_eq_some_iff

namespace Consistent

/-- The size of a table is the number of its symbols. -/
theorem size_eq (consistent : table.Consistent) : table.size = table.symbols.length := by
  have used := Slots.count_isUsed table.slots
  rw [consistent.counted, consistent.buried] at used
  unfold size
  exact Nat.sub_eq_of_eq_add' used

/-- A name is stored exactly with the symbol of this name. -/
theorem find?_eq_some_iff (consistent : table.Consistent) {symbol : Symbol}
    : table.find? name = some symbol ↔ symbol ∈ table.symbols ∧ symbol.name = name :=
  find?_eq_some_iff_of_chained consistent.chained

theorem name_eq (consistent : table.Consistent) {symbol : Symbol}
    (found : table.find? name = some symbol)
    : symbol.name = name :=
  (consistent.find?_eq_some_iff.mp found).2

/-- Growing makes a table with all the names and no tombstones. -/
theorem grow (consistent : table.Consistent)
    (fits : 20 * table.count ≤ 13 * Capacity.next table.capacity)
    : table.grow.WellFormed ∧ table.grow.find? = table.find? := by
  have used := Slots.count_isUsed table.slots
  rw [consistent.counted, consistent.buried] at used
  have prime := Capacity.prime_next table.capacity
  have positive := prime.pos
  have unused := Slots.count_replicate_empty Slot.isUsed rfl (Capacity.next table.capacity)
  have noTombstones :=
    Slots.count_replicate_empty Slot.isTombstone rfl (Capacity.next table.capacity)
  have placed := (Slots.Chained.replicate prime).addsAll_foldl_place
    consistent.chained.nodup_names (fun symbol _ => Slots.lookup_replicate_empty prime symbol.name)
    (by rw [unused, Array.size_replicate]; omega)
  have capacity : table.grow.capacity = Capacity.next table.capacity :=
    placed.size.trans Array.size_replicate
  have count : table.grow.count = (Slots.symbols table.slots).length := by
    change table.count - table.tombstones = _
    omega
  refine ⟨⟨⟨placed.chained, ?_, ?_⟩, by omega⟩, ?_⟩
  · rw [count]
    exact placed.used.trans (by rw [unused, Nat.zero_add])
  · exact placed.tombstones.trans noTombstones
  · funext name
    apply Option.ext
    intro symbol
    rw [consistent.find?_eq_some_iff]
    exact (placed.lookup name symbol).trans
      (by simp [Slots.lookup_replicate_empty prime, SymbolTable.symbols, Slots.symbols])

end Consistent

theorem wellFormed_withCapacity (hint : Nat) : (withCapacity hint).WellFormed where
  chained := Slots.Chained.replicate (Capacity.prime_forHint hint)
  counted := Slots.count_replicate_empty Slot.isUsed rfl _
  buried := Slots.count_replicate_empty Slot.isTombstone rfl _
  light := Nat.zero_le _

theorem find?_withCapacity (hint : Nat) (name : String) : (withCapacity hint).find? name = none :=
  Slots.lookup_replicate_empty (Capacity.prime_forHint hint) name

theorem exists_slot_of_find? {symbol : Symbol} (found : table.find? name = some symbol)
    : ∃ index, Slots.find? table.slots name = some (index, symbol) := by
  obtain ⟨⟨index, _⟩, inSlots, rfl⟩ := Option.map_eq_some_iff.mp found
  exact ⟨index, inSlots⟩

/-- A table with one more symbol, before it may grow. -/
def withSymbol (table : SymbolTable) (symbol : Symbol) : SymbolTable :=
  { table with slots := Slots.place table.slots symbol, count := table.count + 1 }

theorem handOut_of_occupied {index : Nat} {symbol : Symbol}
    (present : table.slots[index]? = some (.occupied symbol))
    : table.handOut index = .done table := by
  rw [handOut, present]

/-- A new name is placed, and then the table grows if it is too full. Only the search for the name
in a table that has grown could fail.
-/
theorem store_eq {index : Nat} {uid : UInt32} (absent : table.find? name = none)
    (vacant : Slots.vacancy? table.slots name = some index)
    : table.store name uid
      = if (withSymbol table { name, uid }).isOverloaded then
          match (withSymbol table { name, uid }).grow.find? name with
          | none => .fail .capacityExhausted (withSymbol table { name, uid }).grow
          | some _ => .done (withSymbol table { name, uid }).grow
        else .done (withSymbol table { name, uid }) := by
  have notStored : ¬table.contains name = true := by simp [contains, absent]
  have bound := (Array.getElem?_eq_some_iff.mp (Slots.vacancy?_spec vacant).1).1
  have placed : withSymbol table { name, uid }
      = { table with
          slots := table.slots.setIfInBounds index (.occupied { name, uid })
          count := table.count + 1 } := by
    simp [withSymbol, Slots.place, vacant]
  rw [store, if_neg notStored, vacant, placed]
  dsimp only
  split
  · rw [find?]
    cases found : Slots.find? (SymbolTable.grow _).slots name with
    | none => rfl
    | some entry => exact handOut_of_occupied (Slots.getElem?_of_findFrom found).1
  · exact handOut_of_occupied (Array.getElem?_setIfInBounds_self_of_lt bound)

namespace WellFormed

/-- A table in use always has a free slot. -/
theorem count_lt (wellFormed : table.WellFormed)
    : Slots.count Slot.isUsed table.slots < table.slots.size := by
  have light := wellFormed.light
  have positive := wellFormed.chained.prime.pos
  rw [wellFormed.counted]
  unfold capacity at light
  omega

/-- Two more slots make up for one more name, as 13 of 20 slots may be in use. -/
theorem hasRoom (wellFormed : table.WellFormed) (bounded : table.capacity < 2 ^ 63)
    : table.HasRoom := by
  have larger : table.capacity + 2 ≤ Capacity.next table.capacity :=
    Capacity.add_two_le_next wellFormed.chained.prime bounded
  have light := wellFormed.light
  unfold HasRoom
  omega

/-- A table with few names has room, however large it is. -/
theorem hasRoom_of_count_le (wellFormed : table.WellFormed) (few : table.count ≤ 2 ^ 32)
    : table.HasRoom := by
  rcases Nat.lt_or_ge table.capacity (2 ^ 63) with bounded | huge
  · exact wellFormed.hasRoom bounded
  · have atLeast := Capacity.min_largest_le_next table.capacity
    unfold HasRoom
    unfold Capacity.largest at atLeast
    omega

/-- With a symbol for a new name the counters are still right, before the table may grow. -/
theorem consistent_withSymbol (wellFormed : table.WellFormed) (absent : table.find? name = none)
    (uid : UInt32)
    : (withSymbol table { name, uid }).Consistent := by
  obtain ⟨_, adds⟩ := wellFormed.chained.adds_place { name, uid } absent wellFormed.count_lt
  exact ⟨adds.chained, adds.used.trans (by rw [wellFormed.counted]; rfl),
    adds.tombstones.trans wellFormed.buried⟩

/-- A new name is stored with a fresh symbol, and nothing else changes. If the table grows, the
name is found again.
-/
theorem store (wellFormed : table.WellFormed) (room : table.HasRoom)
    (absent : table.find? name = none) (uid : UInt32)
    : ∃ changed, table.store name uid = .done changed ∧ changed.WellFormed
        ∧ changed.find? = Function.update table.find? name (some { name, uid }) := by
  obtain ⟨⟨index, vacant⟩, adds⟩ :=
    wellFormed.chained.adds_place { name, uid } absent wellFormed.count_lt
  have capacity : (withSymbol table { name, uid }).capacity = table.capacity := adds.size
  have count : (withSymbol table { name, uid }).count = table.count + 1 := rfl
  have consistent := wellFormed.consistent_withSymbol absent uid
  have fits : 20 * (withSymbol table { name, uid }).count
      ≤ 13 * Capacity.next (withSymbol table { name, uid }).capacity := by
    rw [count, capacity]
    exact room
  have lookup : (withSymbol table { name, uid }).find?
      = Function.update table.find? name (some { name, uid }) := by
    funext other
    rw [Function.update_apply]
    exact adds.lookup other
  rw [store_eq absent vacant]
  by_cases overloaded : (withSymbol table { name, uid }).isOverloaded
  · have grown := consistent.grow fits
    have found : (withSymbol table { name, uid }).grow.find? name = some { name, uid } := by
      rw [grown.2, lookup, Function.update_self]
    rw [if_pos overloaded, found]
    exact ⟨_, rfl, grown.1, grown.2.trans lookup⟩
  · rw [if_neg overloaded]
    refine ⟨_, rfl, ⟨consistent, ?_⟩, lookup⟩
    simpa [isOverloaded] using overloaded

theorem insert (wellFormed : table.WellFormed) (room : table.HasRoom)
    (absent : table.find? name = none) (uid : UInt32)
    : ∃ changed, table.insert name uid = .ok changed ∧ changed.WellFormed
        ∧ changed.find? = Function.update table.find? name (some { name, uid }) := by
  obtain ⟨changed, stores, keeps, entries⟩ := wellFormed.store room absent uid
  exact ⟨changed, congrArg Call.result stores, keeps, entries⟩

/-- A stored name is deleted, and nothing else changes. -/
theorem erase (wellFormed : table.WellFormed) {symbol : Symbol}
    (found : table.find? name = some symbol)
    : ∃ changed, table.erase name = .ok changed ∧ changed.WellFormed
        ∧ changed.find? = Function.update table.find? name none := by
  obtain ⟨index, inSlots⟩ := exists_slot_of_find? found
  obtain ⟨present, _⟩ := wellFormed.chained.find?_eq_some_iff.mp inSlots
  have after := wellFormed.chained.erase index
  have used := Slots.count_set Slot.isUsed present .tombstone
  have buried := Slots.count_set Slot.isTombstone present .tombstone
  rw [wellFormed.counted] at used
  rw [wellFormed.buried] at buried
  refine ⟨{ table with
    slots := table.slots.setIfInBounds index .tombstone, tombstones := table.tombstones + 1 },
    by rw [SymbolTable.erase, inSlots], ⟨⟨after, ?_, ?_⟩, ?_⟩, ?_⟩
  · simpa [Slot.isUsed] using used
  · simpa [Slot.isTombstone] using buried
  · simpa [capacity] using wellFormed.light
  · funext other
    rw [Function.update_apply]
    exact wellFormed.chained.lookup_set_of_find? after inSlots (by simp) other

/-- What is stored for a name is changed, and nothing else. -/
theorem modify (wellFormed : table.WellFormed) {symbol changed : Symbol}
    {change : Symbol → Except SymbolError Symbol} (found : table.find? name = some symbol)
    (changes : change symbol = .ok changed) (keepsName : changed.name = symbol.name)
    : ∃ after, table.modify name change = .ok after ∧ after.WellFormed
        ∧ after.find? = Function.update table.find? name (some changed) := by
  obtain ⟨index, inSlots⟩ := exists_slot_of_find? found
  obtain ⟨present, hasName⟩ := wellFormed.chained.find?_eq_some_iff.mp inSlots
  have after := wellFormed.chained.replace inSlots keepsName
  have used := Slots.count_set Slot.isUsed present (.occupied changed)
  have buried := Slots.count_set Slot.isTombstone present (.occupied changed)
  rw [wellFormed.counted] at used
  rw [wellFormed.buried] at buried
  refine ⟨{ table with slots := table.slots.setIfInBounds index (.occupied changed) },
    by rw [SymbolTable.modify, inSlots]; simp only [changes], ⟨⟨after, ?_, ?_⟩, ?_⟩, ?_⟩
  · simpa [Slot.isUsed] using used
  · simpa [Slot.isTombstone] using buried
  · simpa [capacity] using wellFormed.light
  · funext other
    rw [Function.update_apply]
    refine wellFormed.chained.lookup_set_of_find? after inSlots ?_ other
    rintro _ ⟨⟩
    exact keepsName.trans hasName

end WellFormed

end ExprCompiler.SymbolTable

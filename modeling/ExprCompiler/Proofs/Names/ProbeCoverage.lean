import ExprCompiler.Proofs.Names.Refinement
import ExprCompiler.Proofs.Number.RatioOrder

/-! Every name finds a place. The slots that are visited for it are all slots, and some of them were
never used, because the counters are right and a table grows before it gets too full. Main
statement: this holds after every history, so that no insertion runs out of slots and no name gets
lost when a table grows.
-/

namespace ExprCompiler

namespace Probe

/-- In a table of prime size the slots that are visited are all slots, each one once. -/
theorem perm_range (name : String) {size : Nat} (prime : size.Prime)
    : ((List.range size).map (ofName name size).index).Perm (List.range size) := by
  have once : ((List.range size).map (ofName name size).index).Nodup := by
    refine List.Nodup.map_on ?_ List.nodup_range
    intro first firstVisited second secondVisited same
    exact index_injective name prime (List.mem_range.mp firstVisited)
      (List.mem_range.mp secondVisited) same
  refine (List.perm_ext_iff_of_nodup once List.nodup_range).mpr fun index => ?_
  rw [List.mem_map, List.mem_range]
  constructor
  · rintro ⟨visited, _, rfl⟩
    exact index_lt (ofName name size) prime.pos visited
  · intro bound
    obtain ⟨visited, inRange, isIndex⟩ := exists_index_eq name prime bound
    exact ⟨visited, List.mem_range.mpr inRange, isIndex⟩

/-- The slot to visit is found without a number too large for a word, as sizes have 32 bits. -/
theorem unreduced_le_largest (name : String) {size visited : Nat} (large : 2 ≤ size)
    (bounded : size < 2 ^ 32) (inRange : visited < size)
    : (ofName name size).home + visited * (ofName name size).step ≤ Capacity.largest := by
  have home : (ofName name size).home < size := Nat.mod_lt _ (by omega)
  have step := (step_ofName name large).2
  have product : visited * (ofName name size).step ≤ (2 ^ 32 - 1) * (2 ^ 32 - 1) :=
    Nat.mul_le_mul (by omega) (by omega)
  unfold Capacity.largest
  omega

end Probe

namespace SymbolTable

variable {table : SymbolTable}

/-- Growing finds a free slot for each symbol after those before it are placed, and so keeps all
symbols.
-/
structure Rehomes (table : SymbolTable) : Prop where
  finds
    : ∀ before symbol after, table.symbols = before ++ symbol :: after →
        ∃ index,
          Slots.vacancy?
              (before.foldl Slots.place
                (Array.replicate (Capacity.next table.capacity) .empty))
              symbol.name
            = some index
  keeps : table.grow.symbols.Perm table.symbols

theorem Consistent.mem_symbols_iff (consistent : table.Consistent) {symbol : Symbol}
    : symbol ∈ table.symbols ↔ table.find? symbol.name = some symbol := by
  rw [consistent.find?_eq_some_iff, and_iff_left rfl]

/-- A table grows to one with room for all its symbols. Before each of them fewer slots are in use
than there are, and its name is not among those that were placed.
-/
theorem Consistent.rehomes (consistent : table.Consistent)
    (fits : 20 * table.count ≤ 13 * Capacity.next table.capacity)
    : table.Rehomes where
  finds := by
    intro before symbol after split
    have prime := Capacity.prime_next table.capacity
    have size := consistent.size_eq
    have distinct : (table.symbols.map Symbol.name).Nodup := consistent.chained.nodup_names
    have positive := prime.pos
    rw [split, List.length_append, List.length_cons, SymbolTable.size] at size
    rw [split, List.map_append, List.map_cons, List.nodup_append] at distinct
    have unused := Slots.count_replicate_empty Slot.isUsed rfl (Capacity.next table.capacity)
    have placed := (Slots.Chained.replicate prime).addsAll_foldl_place distinct.1
      (fun earlier _ => Slots.lookup_replicate_empty prime earlier.name)
      (by rw [unused, Array.size_replicate]; omega)
    have absent
        : Slots.lookup
            (before.foldl Slots.place (Array.replicate (Capacity.next table.capacity) .empty))
            symbol.name
          = none := by
      rw [Option.eq_none_iff_forall_ne_some]
      intro found isFound
      rcases (placed.lookup symbol.name found).mp isFound with ⟨isBefore, sameName⟩ | inEmpty
      · exact distinct.2.2 found.name (List.mem_map_of_mem isBefore) symbol.name
          List.mem_cons_self sameName
      · simp [Slots.lookup_replicate_empty prime] at inEmpty
    refine (placed.chained.adds_place symbol absent ?_).1
    rw [placed.used, placed.size, unused, Array.size_replicate]
    omega
  keeps := by
    obtain ⟨grown, sameEntries⟩ := consistent.grow fits
    have distinct : table.symbols.Nodup := List.Nodup.of_map _ consistent.chained.nodup_names
    have grownDistinct : table.grow.symbols.Nodup := List.Nodup.of_map _ grown.chained.nodup_names
    refine (List.perm_ext_iff_of_nodup grownDistinct distinct).mpr fun symbol => ?_
    rw [grown.mem_symbols_iff, consistent.mem_symbols_iff, sameEntries]

/-- 65 percent, as a double. -/
def loadLimit : Double :=
  .ofRatio false 13 20

/-- Comparing doubles says whether more than 65 percent of the slots are in use. A share above the
limit is above it by more than the distance to the next double.
-/
theorem isOverloaded_iff (positive : 0 < table.capacity) (bounded : table.capacity < 2 ^ 32)
    : table.isOverloaded = true
      ↔ loadLimit.magnitudeValue < table.loadFactor.magnitudeValue := by
  have positiveRatio : (0 : ℚ) < table.capacity := by exact_mod_cast positive
  rw [isOverloaded, decide_eq_true_iff]
  constructor
  · intro overloaded
    -- the double after the limit, as a ratio
    have nextDouble
        : loadLimit.magnitudeValue
          < (Double.ofRatio false 0x14CCCCCCCCCCCE 0x20000000000000).magnitudeValue :=
      Double.magnitudeValue_lt (Double.toNat_bits_ofRatio_lt ..) (by decide +kernel)
    refine nextDouble.trans_le (Double.magnitudeValue_ofRatio_le (by decide) positive ?_)
    rw [div_le_div_iff₀ (by norm_num) positiveRatio]
    exact_mod_cast (by omega : 0x14CCCCCCCCCCCE * table.capacity ≤ table.count * 0x20000000000000)
  · intro above
    by_contra light
    refine absurd above (not_lt.mpr (Double.magnitudeValue_ofRatio_le positive (by decide) ?_))
    rw [div_le_div_iff₀ positiveRatio (by norm_num)]
    exact_mod_cast (by omega : table.count * 20 ≤ 13 * table.capacity)

/-- Every name finds a place in a table, now and when it grows. -/
structure FindsPlaces (table : SymbolTable) : Prop where
  /-- The slots that are visited for a name are all slots, each one once. -/
  visitsAll
    : ∀ name,
        ((List.range table.capacity).map (Probe.ofName name table.capacity).index).Perm
          (List.range table.capacity)
  /-- They are found without a number too large for a word. -/
  inWords
    : ∀ name visited, visited < table.capacity →
        (Probe.ofName name table.capacity).home
            + visited * (Probe.ofName name table.capacity).step
          ≤ Capacity.largest
  used : table.symbols.length + Slots.count Slot.isTombstone table.slots = table.count
  buried : Slots.count Slot.isTombstone table.slots = table.tombstones
  buried_le : table.tombstones ≤ table.count
  light : 20 * table.count ≤ 13 * table.capacity
  /-- A table of this size is found too full by comparing doubles exactly if it is. -/
  overloads
    : ∀ other : SymbolTable, other.capacity = table.capacity →
        (other.isOverloaded = true
          ↔ loadLimit.magnitudeValue < other.loadFactor.magnitudeValue)
  meetsEmpty
    : ∀ name, ∃ visited < table.capacity,
        table.slots[(Probe.ofName name table.capacity).index visited]? = some .empty
  rehomes : table.Rehomes
  /-- A new name is stored and can be found, and nothing gets lost if the table grows for it. -/
  inserts
    : ∀ name uid, table.find? name = none →
        (withSymbol table { name, uid }).Rehomes
          ∧ ∃ changed, table.insert name uid = .ok changed
              ∧ changed.find? name = some { name, uid }
  notExhausted : ∀ name uid, table.insert name uid ≠ .error .capacityExhausted
  /-- Nothing fails after the table was changed. -/
  unchanged
    : ∀ name uid error, (table.store name uid).answer = .error error →
        (table.store name uid).after = table

namespace WellFormed

/-- Some slot that is visited for a name was never used. -/
theorem exists_empty (wellFormed : table.WellFormed) (name : String)
    : ∃ visited < table.capacity,
        table.slots[(Probe.ofName name table.capacity).index visited]? = some .empty := by
  obtain ⟨free, isEmpty⟩ := Slots.exists_empty_of_count_lt wellFormed.count_lt
  obtain ⟨visited, inRange, rfl⟩ := Probe.exists_index_eq name wellFormed.chained.prime
    (Array.getElem?_eq_some_iff.mp isEmpty).1
  exact ⟨visited, inRange, isEmpty⟩

theorem findsPlaces (wellFormed : table.WellFormed) (bounded : table.capacity < 2 ^ 32)
    : table.FindsPlaces := by
  have prime : table.capacity.Prime := wellFormed.chained.prime
  have room : table.HasRoom := wellFormed.hasRoom (by omega)
  have used := Slots.count_isUsed table.slots
  rw [wellFormed.counted, wellFormed.buried] at used
  refine {
    visitsAll := fun name => Probe.perm_range name prime
    inWords := fun name visited => Probe.unreduced_le_largest name prime.two_le bounded
    used := by rw [used, wellFormed.buried]; exact Nat.add_comm _ _
    buried := wellFormed.buried
    buried_le := by omega
    light := wellFormed.light
    overloads := fun other same => isOverloaded_iff (same ▸ prime.pos) (same ▸ bounded)
    meetsEmpty := wellFormed.exists_empty
    rehomes := wellFormed.rehomes (by unfold HasRoom at room; omega)
    inserts := ?_
    notExhausted := ?_
    unchanged := fun name uid error fails => (wellFormed.after_store_of_error room fails).2 }
  · intro name uid absent
    have consistent := wellFormed.consistent_withSymbol absent uid
    have capacity : (withSymbol table { name, uid }).capacity = table.capacity :=
      Slots.size_place ..
    refine ⟨consistent.rehomes (by rw [capacity]; exact room), ?_⟩
    obtain ⟨changed, inserts, _, entries⟩ := wellFormed.insert room absent uid
    exact ⟨changed, inserts, by rw [entries, Function.update_self]⟩
  · intro name uid exhausted
    exact absurd ((wellFormed.insert_eq_error_iff room).mp exhausted).2 (by decide)

end WellFormed

/-- After every history each name finds a place in a table, and no branch for a full table is
taken. The size of the table is bounded as that of all tables in memory is.
-/
theorem findsPlaces_after (hint : Nat) (history : List Operation)
    (bounded : ((withCapacity hint).run history).capacity < 2 ^ 32)
    : ((withCapacity hint).run history).FindsPlaces :=
  ((wellFormed_withCapacity hint).run (by omega)).1.findsPlaces bounded

/-- Seven of eleven slots may be in use. The eighth name makes the table grow to 23 slots, which
frees the slot of a name that was deleted.
-/
theorem findsPlaces_after_overload
    : let table := (withCapacity 2).run
        [.insert "a" 1, .insert "b" 2, .insert "c" 3, .insert "d" 4, .insert "e" 5,
          .insert "f" 6, .insert "g" 7, .erase "c", .insert "h" 8]
      table.capacity = 23 ∧ table.count = 7 ∧ table.tombstones = 0 ∧ table.FindsPlaces := by
  intro table
  have state : table.capacity = 23 ∧ table.count = 7 ∧ table.tombstones = 0 := by decide +kernel
  exact ⟨state.1, state.2.1, state.2.2, findsPlaces_after 2 _ (by rw [state.1]; decide)⟩

end SymbolTable

end ExprCompiler

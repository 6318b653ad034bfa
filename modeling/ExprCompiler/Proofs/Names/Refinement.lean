import Mathlib.Data.Set.Card
import ExprCompiler.Proofs.Names.TableInvariant

/-! A symbol table is a finite map. After any history of operations, failed ones included, it
answers as a function from names to symbols on which the same operations were done.
-/

namespace ExprCompiler

/-- A change of a symbol. It may fail, and does not give another name to the symbol. -/
structure Update where
  change : Symbol → Except SymbolError Symbol
  keepsName : ∀ symbol changed, change symbol = .ok changed → changed.name = symbol.name

/-- The change of what a symbol denotes. -/
def Update.setKind (kind : SymbolKind) : Update where
  change symbol := .ok { symbol with kind }
  keepsName := by
    rintro _ _ ⟨⟩
    rfl

/-- What can be done to a table. -/
inductive Operation where
  | insert (name : String) (uid : UInt32)
  | erase (name : String)
  | modify (name : String) (update : Update)
  | grow

/-- What is stored for each name. -/
abbrev Entries :=
  String → Option Symbol

namespace Operation

/-- The operation on a table. -/
def apply (table : SymbolTable) : Operation → Except SymbolError SymbolTable
  | .insert name uid => table.insert name uid
  | .erase name => table.erase name
  | .modify name update => table.modify name update.change
  | .grow => .ok table.grow

/-- The operation on the entries. A name that is stored cannot be inserted again, and a name that
is not stored can be neither deleted nor changed.
-/
def record (entries : Entries) : Operation → Entries
  | .insert name uid =>
      match entries name with
      | some _ => entries
      | none => Function.update entries name (some { name, uid })
  | .erase name => Function.update entries name none
  | .modify name update =>
      match entries name with
      | some symbol =>
          match update.change symbol with
          | .ok changed => Function.update entries name (some changed)
          | .error _ => entries
      | none => entries
  | .grow => entries

end Operation

/-- The table after an operation; if it fails, nothing happens. -/
def SymbolTable.perform (table : SymbolTable) (operation : Operation) : SymbolTable :=
  match operation.apply table with
  | .ok changed => changed
  | .error _ => table

/-- The table after all operations of a history. -/
def SymbolTable.run (table : SymbolTable) (history : List Operation) : SymbolTable :=
  history.foldl perform table

/-- The entries after all operations of a history that starts with nothing. -/
def Entries.after (history : List Operation) : Entries :=
  history.foldl Operation.record fun _ => none

/-- The table answers as the entries say, and an operation fails only for a reason that is seen
in them.
-/
structure SymbolTable.Represents (table : SymbolTable) (entries : Entries) : Prop where
  find? : ∀ name, table.find? name = entries name
  contains : ∀ name, table.contains name = (entries name).isSome
  get : ∀ name symbol, table.get name = .ok symbol ↔ entries name = some symbol
  get_fails : ∀ name error,
    table.get name = .error error ↔ entries name = none ∧ error = .itemNotFound
  insert_fails : ∀ name uid error,
    table.insert name uid = .error error ↔ (entries name).isSome ∧ error = .alreadyStored
  erase_fails : ∀ name error,
    table.erase name = .error error ↔ entries name = none ∧ error = .itemNotFound
  modify_fails : ∀ name change error,
    table.modify name change = .error error
      ↔ entries name = none ∧ error = .itemNotFound
        ∨ ∃ symbol, entries name = some symbol ∧ change symbol = .error error
  /-- Every entry is listed once, and nothing else. -/
  count_symbols : ∀ symbol,
    table.symbols.count symbol = if entries symbol.name = some symbol then 1 else 0
  /-- The entry of a name has this name. -/
  entry_name : ∀ name symbol, entries name = some symbol → symbol.name = name
  size : {name | (entries name).isSome}.encard = table.size

-----------------------------------------------------------------------------------------
-- Sizes
-----------------------------------------------------------------------------------------

namespace Slots

@[simp] theorem size_place (slots : Array Slot) (symbol : Symbol)
    : (place slots symbol).size = slots.size := by
  unfold place
  split <;> simp

theorem size_foldl_place (added : List Symbol) (slots : Array Slot)
    : (added.foldl place slots).size = slots.size := by
  induction added generalizing slots with
  | nil => rfl
  | cons first rest ih => exact (ih _).trans (size_place slots first)

end Slots

namespace SymbolTable

variable {table : SymbolTable}

theorem capacity_grow (table : SymbolTable)
    : table.grow.capacity = Capacity.next table.capacity :=
  (Slots.size_foldl_place _ _).trans Array.size_replicate

theorem store_of_contains {name : String} (stored : table.contains name = true) (uid : UInt32)
    : table.store name uid = .fail .alreadyStored table :=
  if_pos stored

/-- An insertion places a symbol with a new name, and may make the table grow after that. -/
theorem insert_eq_ok {name : String} {uid : UInt32} {changed : SymbolTable}
    (inserts : table.insert name uid = .ok changed)
    : table.find? name = none
      ∧ (changed = withSymbol table { name, uid }
        ∨ changed = (withSymbol table { name, uid }).grow) := by
  rw [insert] at inserts
  cases stored : table.contains name with
  | true =>
      rw [store_of_contains stored] at inserts
      cases inserts
  | false =>
      have absent : table.find? name = none := by simpa [contains] using stored
      cases vacant : Slots.vacancy? table.slots name with
      | none =>
          rw [store, if_neg (by simp [stored]), vacant] at inserts
          cases inserts
      | some index =>
          rw [store_eq absent vacant] at inserts
          split at inserts
          · split at inserts
            · cases inserts
            · cases inserts
              exact ⟨absent, .inr rfl⟩
          · cases inserts
            exact ⟨absent, .inl rfl⟩

/-- A deletion leaves a tombstone in the slot where the name is found. -/
theorem erase_eq_ok {name : String} {changed : SymbolTable}
    (erases : table.erase name = .ok changed)
    : ∃ index symbol, Slots.find? table.slots name = some (index, symbol)
        ∧ changed = { table with
            slots := table.slots.setIfInBounds index .tombstone
            tombstones := table.tombstones + 1 } := by
  unfold erase at erases
  split at erases
  · cases erases
  · next index symbol found =>
      cases erases
      exact ⟨index, symbol, found, rfl⟩

/-- A change puts what it makes in the slot where the name is found. -/
theorem modify_eq_ok {name : String} {change : Symbol → Except SymbolError Symbol}
    {changed : SymbolTable} (modifies : table.modify name change = .ok changed)
    : ∃ index symbol result, Slots.find? table.slots name = some (index, symbol)
        ∧ change symbol = .ok result
        ∧ changed = { table with
            slots := table.slots.setIfInBounds index (.occupied result) } := by
  unfold modify at modifies
  split at modifies
  · cases modifies
  · next index symbol found =>
      split at modifies
      · cases modifies
      · next result changes =>
          cases modifies
          exact ⟨index, symbol, result, found, changes, rfl⟩

/-- An insertion keeps the size of a table, or makes it grow once. -/
theorem capacity_of_insert {name : String} {uid : UInt32} {changed : SymbolTable}
    (inserts : table.insert name uid = .ok changed)
    : changed.capacity = table.capacity ∨ changed.capacity = Capacity.next table.capacity := by
  have same : (withSymbol table { name, uid }).capacity = table.capacity := Slots.size_place ..
  obtain ⟨_, rfl | rfl⟩ := insert_eq_ok inserts
  · exact .inl same
  · rw [capacity_grow, same]
    exact .inr rfl

theorem capacity_of_erase {name : String} {changed : SymbolTable}
    (erases : table.erase name = .ok changed)
    : changed.capacity = table.capacity := by
  obtain ⟨_, _, _, rfl⟩ := erase_eq_ok erases
  simp [capacity]

theorem capacity_of_modify {name : String} {change : Symbol → Except SymbolError Symbol}
    {changed : SymbolTable} (modifies : table.modify name change = .ok changed)
    : changed.capacity = table.capacity := by
  obtain ⟨_, _, _, _, _, rfl⟩ := modify_eq_ok modifies
  simp [capacity]

/-- An operation keeps the size of a table, or makes it grow once. -/
theorem capacity_perform (table : SymbolTable) (operation : Operation)
    : (table.perform operation).capacity = table.capacity
      ∨ (table.perform operation).capacity = Capacity.next table.capacity := by
  unfold perform
  split
  · next changed applied =>
      cases operation with
      | insert name uid => exact capacity_of_insert applied
      | erase name => exact .inl (capacity_of_erase applied)
      | modify name update => exact .inl (capacity_of_modify applied)
      | grow =>
          cases applied
          exact .inr table.capacity_grow
  · exact .inl rfl

/-- A table that is small after a history was small before it. By induction on the history, as a
large table does not get small again.
-/
theorem capacity_lt_of_run {history : List Operation} {bound : Nat}
    (countable : bound ≤ Capacity.largest) (small : (table.run history).capacity < bound)
    : table.capacity < bound := by
  induction history generalizing table with
  | nil => exact small
  | cons operation rest ih =>
      have next := ih small
      have atLeast := Capacity.min_largest_le_next table.capacity
      rcases table.capacity_perform operation with same | grown <;> omega

-----------------------------------------------------------------------------------------
-- Operations on the table and on the entries
-----------------------------------------------------------------------------------------

theorem erase_eq_error_iff {name : String} {error : SymbolError}
    : table.erase name = .error error ↔ table.find? name = none ∧ error = .itemNotFound := by
  unfold erase find?
  cases Slots.find? table.slots name <;> simp [eq_comm]

/-- A change fails for a name that is not stored, or by itself. -/
theorem modify_eq_error_iff {name : String} {change : Symbol → Except SymbolError Symbol}
    {error : SymbolError}
    : table.modify name change = .error error
      ↔ table.find? name = none ∧ error = .itemNotFound
        ∨ ∃ symbol, table.find? name = some symbol ∧ change symbol = .error error := by
  unfold modify find?
  cases Slots.find? table.slots name with
  | none => simp [eq_comm]
  | some found => cases changes : change found.2 <;> simp [changes]

theorem perform_of_ok (operation : Operation) {changed : SymbolTable}
    (applied : operation.apply table = .ok changed)
    : table.perform operation = changed := by
  rw [perform, applied]

theorem perform_of_error (operation : Operation) {error : SymbolError}
    (fails : operation.apply table = .error error)
    : table.perform operation = table := by
  rw [perform, fails]

namespace WellFormed

/-- An insertion fails only for a name that is stored; there is always a place for a new one. -/
theorem insert_eq_error_iff (wellFormed : table.WellFormed) (room : table.HasRoom)
    {name : String} {uid : UInt32} {error : SymbolError}
    : table.insert name uid = .error error
      ↔ (table.find? name).isSome ∧ error = .alreadyStored := by
  cases found : table.find? name with
  | some symbol =>
      simp [SymbolTable.insert, store_of_contains, contains, found, Call.result, Call.fail, eq_comm]
  | none =>
      obtain ⟨changed, inserts, _⟩ := wellFormed.insert room found uid
      simp [inserts]

/-- An insertion that fails leaves the table as it was: it fails before anything is stored. -/
theorem after_store_of_error (wellFormed : table.WellFormed) (room : table.HasRoom) {name : String}
    {uid : UInt32} {error : SymbolError} (fails : (table.store name uid).answer = .error error)
    : error = .alreadyStored ∧ (table.store name uid).after = table := by
  cases found : table.find? name with
  | some symbol =>
      have stored : table.contains name = true := by simp [contains, found]
      rw [store_of_contains stored] at fails ⊢
      cases fails
      exact ⟨rfl, rfl⟩
  | none =>
      obtain ⟨changed, stores, _⟩ := wellFormed.store room found uid
      rw [stores] at fails
      cases fails

/-- An operation keeps the invariant, and does to the entries what it is to do. -/
theorem perform (wellFormed : table.WellFormed) (room : table.HasRoom)
    (operation : Operation)
    : (table.perform operation).WellFormed
      ∧ (table.perform operation).find? = operation.record table.find? := by
  cases operation with
  | insert name uid =>
      cases found : table.find? name with
      | some symbol =>
          have fails : table.insert name uid = .error .alreadyStored :=
            (wellFormed.insert_eq_error_iff room).mpr ⟨by simp [found], rfl⟩
          rw [perform_of_error (.insert name uid) fails]
          exact ⟨wellFormed, by simp only [Operation.record, found]⟩
      | none =>
          obtain ⟨changed, inserts, keeps, entries⟩ := wellFormed.insert room found uid
          rw [perform_of_ok (.insert name uid) inserts]
          exact ⟨keeps, by simp only [Operation.record, found, entries]⟩
  | erase name =>
      cases found : table.find? name with
      | some symbol =>
          obtain ⟨changed, erases, keeps, entries⟩ := wellFormed.erase found
          rw [perform_of_ok (.erase name) erases]
          exact ⟨keeps, entries⟩
      | none =>
          have fails : table.erase name = .error .itemNotFound :=
            erase_eq_error_iff.mpr ⟨found, rfl⟩
          rw [perform_of_error (.erase name) fails]
          exact ⟨wellFormed, (Function.update_eq_self_iff.mpr found.symm).symm⟩
  | modify name update =>
      cases found : table.find? name with
      | some symbol =>
          cases changes : update.change symbol with
          | ok changed =>
              obtain ⟨after, modifies, keeps, entries⟩ :=
                wellFormed.modify found changes (update.keepsName symbol changed changes)
              rw [perform_of_ok (.modify name update) modifies]
              exact ⟨keeps, by simp only [Operation.record, found, changes, entries]⟩
          | error error =>
              have fails : table.modify name update.change = .error error :=
                modify_eq_error_iff.mpr (.inr ⟨symbol, found, changes⟩)
              rw [perform_of_error (.modify name update) fails]
              exact ⟨wellFormed, by simp only [Operation.record, found, changes]⟩
      | none =>
          have fails : table.modify name update.change = .error .itemNotFound :=
            modify_eq_error_iff.mpr (.inl ⟨found, rfl⟩)
          rw [perform_of_error (.modify name update) fails]
          exact ⟨wellFormed, by simp only [Operation.record, found]⟩
  | grow =>
      unfold HasRoom at room
      exact wellFormed.grow (by omega)

/-- A history keeps the invariant, and does to the entries what its operations are to do. By
induction on the history.
-/
theorem run {history : List Operation} (wellFormed : table.WellFormed)
    (bounded : (table.run history).capacity < 2 ^ 63)
    : (table.run history).WellFormed
      ∧ (table.run history).find? = history.foldl Operation.record table.find? := by
  induction history generalizing table with
  | nil => exact ⟨wellFormed, rfl⟩
  | cons operation rest ih =>
      -- The bound on the last table bounds the one that this operation starts from.
      have small : table.capacity < 2 ^ 63 := capacity_lt_of_run (by decide) bounded
      obtain ⟨keeps, entries⟩ := wellFormed.perform (wellFormed.hasRoom small) operation
      have later := ih keeps bounded
      rw [entries] at later
      exact later

/-- A table that meets the invariant represents what it stores. -/
theorem represents (wellFormed : table.WellFormed) (bounded : table.capacity < 2 ^ 63)
    : table.Represents table.find? where
  find? _ := rfl
  contains _ := rfl
  get name symbol := by
    unfold SymbolTable.get
    cases table.find? name <;> simp
  get_fails name error := by
    unfold SymbolTable.get
    cases table.find? name <;> simp [eq_comm]
  insert_fails _ _ _ := wellFormed.insert_eq_error_iff (wellFormed.hasRoom bounded)
  erase_fails _ _ := erase_eq_error_iff
  modify_fails _ _ _ := modify_eq_error_iff
  count_symbols symbol := by
    have distinct : table.symbols.Nodup := List.Nodup.of_map _ wellFormed.chained.nodup_names
    -- No name is listed twice, so no symbol is.
    rw [distinct.count]
    simp [wellFormed.find?_eq_some_iff]
  entry_name _ _ := wellFormed.name_eq
  size := by
    have active : {name | (table.find? name).isSome}
        = ((table.symbols.map Symbol.name).toFinset : Set String) := by
      ext name
      simp [Option.isSome_iff_exists, wellFormed.find?_eq_some_iff]
    have distinct : (table.symbols.map Symbol.name).Nodup := wellFormed.chained.nodup_names
    rw [active, Set.encard_coe_eq_coe_finsetCard, List.toFinset_card_of_nodup distinct,
      List.length_map, wellFormed.size_eq]

end WellFormed

/-- After every history a table is the finite map that the history makes. Its size is bounded as
that of all tables in memory is.
-/
theorem represents_after (hint : Nat) (history : List Operation)
    (bounded : ((withCapacity hint).run history).capacity < 2 ^ 32)
    : ((withCapacity hint).run history).Represents (Entries.after history) := by
  have small : ((withCapacity hint).run history).capacity < 2 ^ 63 := by omega
  obtain ⟨wellFormed, entries⟩ := (wellFormed_withCapacity hint).run small
  have start : (withCapacity hint).find? = fun _ => none := funext (find?_withCapacity hint)
  have represents := wellFormed.represents small
  rw [entries, start] at represents
  exact represents

/-- A name that was deleted and inserted again has its second entry, also after the table grew. -/
theorem represents_after_reinsertion
    : ((withCapacity 2).run
        [.insert "x" 1, .insert "y" 2, .erase "x", .insert "x" 3,
          .modify "x" (.setKind .function), .grow]).find? "x"
      = some { name := "x", uid := 3, kind := .function } :=
  (represents_after 2 _ (by decide +kernel)).find? "x"

end SymbolTable

end ExprCompiler

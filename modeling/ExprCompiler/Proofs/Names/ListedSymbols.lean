import ExprCompiler.Proofs.Names.Refinement

/-! What is listed in a table can be found there, after every history and without a bound on the
size of the table. Besides, an operation lists nothing that was not listed before, but for the
symbol it is about.
-/

namespace ExprCompiler

namespace Slots

variable {slots : Array Slot} {index : Nat}

/-- A slot in the place of another one adds nothing but its own symbol. -/
theorem mem_symbols_of_set {slot : Slot} {symbol : Symbol}
    (listed : symbol ∈ symbols (slots.setIfInBounds index slot))
    : slot = .occupied symbol ∨ symbol ∈ symbols slots := by
  obtain ⟨place, held⟩ := mem_symbols_iff.mp listed
  rw [Array.getElem?_setIfInBounds] at held
  split at held
  · split at held
    · exact .inl (Option.some.inj held)
    · cases held
  · exact .inr (mem_symbols_iff.mpr ⟨place, held⟩)

theorem mem_symbols_of_place {added symbol : Symbol}
    (listed : symbol ∈ symbols (place slots added))
    : symbol = added ∨ symbol ∈ symbols slots := by
  unfold place at listed
  split at listed
  · rcases mem_symbols_of_set listed with isAdded | before
    · cases isAdded
      exact .inl rfl
    · exact .inr before
  · exact .inr listed

/-- By induction on the symbols that are placed. -/
theorem mem_symbols_of_foldl_place {added : List Symbol} {symbol : Symbol}
    (listed : symbol ∈ symbols (added.foldl place slots))
    : symbol ∈ added ∨ symbol ∈ symbols slots := by
  induction added generalizing slots with
  | nil => exact .inr listed
  | cons first rest ih =>
      rcases ih listed with isLater | before
      · exact .inl (List.mem_cons_of_mem first isLater)
      · rcases mem_symbols_of_place before with rfl | before
        · exact .inl List.mem_cons_self
        · exact .inr before

theorem symbols_replicate_empty (size : Nat) : symbols (Array.replicate size .empty) = [] := by
  simp [symbols, Slot.symbol?]

namespace Chained

/-- A new symbol may be placed, whether or not there is a place for it. -/
theorem place (chained : Chained slots) {symbol : Symbol}
    (absent : ∀ listed ∈ symbols slots, listed.name ≠ symbol.name)
    : Chained (Slots.place slots symbol) := by
  unfold Slots.place
  split
  · next index vacant =>
      refine chained.insert vacant (chained.find?_eq_none_iff.mpr ?_)
      intro place held present
      exact absent held (mem_symbols_iff.mpr ⟨place, present⟩)
  · exact chained

/-- New symbols with different names may be placed one after the other, by induction on them. -/
theorem foldl_place {added : List Symbol} (chained : Chained slots)
    (distinct : (added.map Symbol.name).Nodup)
    (absent : ∀ listed ∈ symbols slots, ∀ symbol ∈ added, listed.name ≠ symbol.name)
    : Chained (added.foldl Slots.place slots) := by
  induction added generalizing slots with
  | nil => exact chained
  | cons first rest ih =>
      obtain ⟨firstNew, restDistinct⟩ := List.nodup_cons.mp distinct
      have step := chained.place fun listed member => absent listed member first List.mem_cons_self
      refine ih step restDistinct ?_
      intro listed member symbol inRest sameName
      rcases mem_symbols_of_place member with rfl | before
      · exact firstNew (sameName ▸ List.mem_map_of_mem inRest)
      · exact absent listed before symbol (List.mem_cons_of_mem first inRest) sameName

end Chained

end Slots

namespace SymbolTable

variable {table changed : SymbolTable} {name : String}

/-- Where everything can be found, a search fails only for a name that is not listed. -/
theorem find?_eq_none_iff_of_chained (chained : Slots.Chained table.slots)
    : table.find? name = none ↔ ∀ symbol ∈ table.symbols, symbol.name ≠ name := by
  rw [Option.eq_none_iff_forall_ne_some]
  constructor
  · intro notFound symbol listed sameName
    exact notFound symbol ((find?_eq_some_iff_of_chained chained).mpr ⟨listed, sameName⟩)
  · intro absent symbol found
    obtain ⟨listed, sameName⟩ := (find?_eq_some_iff_of_chained chained).mp found
    exact absent symbol listed sameName

theorem mem_symbols_of_grow {symbol : Symbol} (listed : symbol ∈ table.grow.symbols)
    : symbol ∈ table.symbols := by
  rcases Slots.mem_symbols_of_foldl_place listed with before | inEmpty
  · exact before
  · rw [Slots.symbols_replicate_empty] at inEmpty
    cases inEmpty

theorem chained_grow (chained : Slots.Chained table.slots) : Slots.Chained table.grow.slots := by
  have start := Slots.Chained.replicate (Capacity.prime_next table.capacity)
  refine start.foldl_place chained.nodup_names ?_
  intro listed inEmpty
  rw [Slots.symbols_replicate_empty] at inEmpty
  cases inEmpty

theorem mem_symbols_of_insert {uid : UInt32} {symbol : Symbol}
    (inserts : table.insert name uid = .ok changed) (listed : symbol ∈ changed.symbols)
    : symbol = { name, uid } ∨ symbol ∈ table.symbols := by
  obtain ⟨_, rfl | rfl⟩ := insert_eq_ok inserts
  · exact Slots.mem_symbols_of_place listed
  · exact Slots.mem_symbols_of_place (mem_symbols_of_grow listed)

theorem mem_symbols_of_erase {symbol : Symbol} (erases : table.erase name = .ok changed)
    (listed : symbol ∈ changed.symbols)
    : symbol ∈ table.symbols := by
  obtain ⟨_, _, _, rfl⟩ := erase_eq_ok erases
  exact (Slots.mem_symbols_of_set listed).resolve_left (by simp)

/-- Everything that is listed can still be found after an insertion. -/
theorem chained_of_insert {uid : UInt32} (chained : Slots.Chained table.slots)
    (inserts : table.insert name uid = .ok changed)
    : Slots.Chained changed.slots := by
  obtain ⟨absent, grown⟩ := insert_eq_ok inserts
  have placed : Slots.Chained (withSymbol table { name, uid }).slots :=
    chained.place ((find?_eq_none_iff_of_chained chained).mp absent)
  rcases grown with rfl | rfl
  · exact placed
  · exact chained_grow placed

theorem chained_of_erase (chained : Slots.Chained table.slots)
    (erases : table.erase name = .ok changed)
    : Slots.Chained changed.slots := by
  obtain ⟨index, _, _, rfl⟩ := erase_eq_ok erases
  exact chained.erase index

theorem chained_of_modify (chained : Slots.Chained table.slots) (update : Update)
    (modifies : table.modify name update.change = .ok changed)
    : Slots.Chained changed.slots := by
  obtain ⟨index, symbol, result, found, changes, rfl⟩ := modify_eq_ok modifies
  exact chained.replace found (update.keepsName symbol result changes)

theorem chained_perform (chained : Slots.Chained table.slots) (operation : Operation)
    : Slots.Chained (table.perform operation).slots := by
  unfold perform
  split
  · next changed applied =>
      cases operation with
      | insert name uid => exact chained_of_insert chained applied
      | erase name => exact chained_of_erase chained applied
      | modify name update => exact chained_of_modify chained update applied
      | grow =>
          cases applied
          exact chained_grow chained
  · exact chained

/-- Whatever is done to a table, everything that is listed can be found. By induction on the
history.
-/
theorem chained_run (chained : Slots.Chained table.slots) (history : List Operation)
    : Slots.Chained (table.run history).slots := by
  induction history generalizing table with
  | nil => exact chained
  | cons operation rest ih => exact ih (chained_perform chained operation)

end SymbolTable

end ExprCompiler

import ExprCompiler.Names.Capacity
import ExprCompiler.Names.Symbol
import ExprCompiler.Number.Double

/-! Declared names of one block, in an open-addressing hash table with double hashing. A
deleted name leaves a tombstone, so that the names placed past it are still found; growing
the table drops all tombstones.
-/

namespace ExprCompiler

-----------------------------------------------------------------------------------------
-- Slots and the order in which they are visited
-----------------------------------------------------------------------------------------

/-- A place for one name. -/
inductive Slot where
  | empty
  | occupied (symbol : Symbol)
  | tombstone
deriving DecidableEq, Repr, Inhabited

/-- The name stored in a slot. -/
def Slot.symbol? : Slot → Option Symbol
  | .occupied symbol => some symbol
  | _ => none

/-- A polynomial hash of the bytes of a name, in 64-bit arithmetic. -/
def polynomialHash (seed factor : UInt64) (name : String) : UInt64 :=
  (Utf8.encode name).foldl (fun hash byte => hash * factor + byte.toUInt64) seed

/-- The slots to visit for one name: from `home` on, every `step`-th one, around a table of
`size` slots.
-/
structure Probe where
  home : Nat
  step : Nat
  size : Nat
deriving DecidableEq, Repr, Inhabited

namespace Probe

/-- The visiting order of a name in a table of `size` slots. The step is positive and smaller
than the size.
-/
def ofName (name : String) (size : Nat) : Probe where
  home := (polynomialHash 5381 33 name).toNat % size
  step := if size ≤ 1 then 1 else 1 + (polynomialHash 0 65599 name).toNat % (size - 1)
  size := size

/-- The slot visited after `visited` others. -/
def index (probe : Probe) (visited : Nat) : Nat :=
  (probe.home + visited * probe.step) % probe.size

end Probe

namespace Slots

/-- Visits `count` slots after the first `visited` ones, up to one that holds `name`. A slot
that was never used ends the search.
-/
def findFrom (slots : Array Slot) (name : String) (probe : Probe) (visited : Nat) :
    Nat → Option (Nat × Symbol)
  | 0 => none
  | count + 1 =>
      match slots[probe.index visited]? with
      | some (.occupied symbol) =>
          if symbol.name = name then some (probe.index visited, symbol)
          else findFrom slots name probe (visited + 1) count
      | some .tombstone => findFrom slots name probe (visited + 1) count
      | some .empty | none => none

/-- The slot that holds `name`, and what it holds. -/
def find? (slots : Array Slot) (name : String) : Option (Nat × Symbol) :=
  findFrom slots name (Probe.ofName name slots.size) 0 slots.size

/-- Visits `count` slots after the first `visited` ones, up to one that was never used. -/
def vacancyFrom (slots : Array Slot) (probe : Probe) (visited : Nat) : Nat → Option Nat
  | 0 => none
  | count + 1 =>
      if slots[probe.index visited]? = some .empty then some (probe.index visited)
      else vacancyFrom slots probe (visited + 1) count

/-- The slot where `name` would be placed. -/
def vacancy? (slots : Array Slot) (name : String) : Option Nat :=
  vacancyFrom slots (Probe.ofName name slots.size) 0 slots.size

/-- Places a symbol in the first slot for its name that was never used. -/
def place (slots : Array Slot) (symbol : Symbol) : Array Slot :=
  match vacancy? slots symbol.name with
  | some index => slots.setIfInBounds index (.occupied symbol)
  | none => slots

end Slots

-----------------------------------------------------------------------------------------
-- Tables
-----------------------------------------------------------------------------------------

/-- The names of one block. `count` slots are in use, `tombstones` of them by names that were
deleted.
-/
structure SymbolTable where
  slots : Array Slot
  count : Nat := 0
  tombstones : Nat := 0
deriving DecidableEq, Repr, Inhabited

namespace SymbolTable

/-- An empty table with at least `hint` slots. -/
def withCapacity (hint : Nat) : SymbolTable where
  slots := Array.replicate (Capacity.forHint hint) .empty

/-- An empty table of the usual size. -/
def empty : SymbolTable :=
  withCapacity 11

/-- The number of slots. -/
def capacity (table : SymbolTable) : Nat :=
  table.slots.size

/-- The number of names that can be found. -/
def size (table : SymbolTable) : Nat :=
  table.count - table.tombstones

/-- The share of slots in use. -/
def loadFactor (table : SymbolTable) : Double :=
  .ofRatio false table.count table.capacity

/-- Whether more than 65 percent of the slots are in use. -/
def isOverloaded (table : SymbolTable) : Bool :=
  13 * table.capacity < 20 * table.count

/-- The names in slot order. -/
def symbols (table : SymbolTable) : List Symbol :=
  table.slots.toList.filterMap Slot.symbol?

/-- What is stored under `name`. -/
def find? (table : SymbolTable) (name : String) : Option Symbol :=
  (Slots.find? table.slots name).map (·.2)

/-- Whether `name` is stored. -/
def contains (table : SymbolTable) (name : String) : Bool :=
  (table.find? name).isSome

/-- What is stored under `name`, or the failure to find it. -/
def get (table : SymbolTable) (name : String) : Except SymbolError Symbol :=
  match table.find? name with
  | some symbol => .ok symbol
  | none => .error .itemNotFound

/-- Moves all names to a table of the next size, without the tombstones. -/
def grow (table : SymbolTable) : SymbolTable where
  slots :=
    table.symbols.foldl Slots.place
      (Array.replicate (Capacity.next table.capacity) .empty)
  count := table.count - table.tombstones
  tombstones := 0

/-- Hands out the entry in a slot. -/
def handOut (table : SymbolTable) (index : Nat) : Call SymbolTable :=
  match table.slots[index]? with
  | some (.occupied _) => .done table
  | _ => .fail .capacityExhausted table

/-- Stores a fresh entry for `name` with the number `uid`, and hands it out. If the table has to
grow, the entry is looked for again.
-/
def store (table : SymbolTable) (name : String) (uid : UInt32) : Call SymbolTable :=
  if table.contains name then .fail .alreadyStored table
  else
    match Slots.vacancy? table.slots name with
    | none => .fail .capacityExhausted table
    | some index =>
        let stored :=
          { table with
            slots := table.slots.setIfInBounds index (.occupied { name, uid })
            count := table.count + 1 }
        if stored.isOverloaded then
          match Slots.find? stored.grow.slots name with
          | none => .fail .capacityExhausted stored.grow
          | some (index, _) => stored.grow.handOut index
        else stored.handOut index

/-- Declares `name` with the number `uid`. It must not be stored already. -/
def insert (table : SymbolTable) (name : String) (uid : UInt32) :
    Except SymbolError SymbolTable :=
  (table.store name uid).result

/-- Deletes `name`; its slot stays in use until the table grows. -/
def erase (table : SymbolTable) (name : String) : Except SymbolError SymbolTable :=
  match Slots.find? table.slots name with
  | none => .error .itemNotFound
  | some (index, _) =>
      .ok
        { table with
          slots := table.slots.setIfInBounds index .tombstone
          tombstones := table.tombstones + 1 }

/-- Changes what is stored under `name`; if the change fails, nothing happens. -/
def modify (table : SymbolTable) (name : String)
    (change : Symbol → Except SymbolError Symbol) : Except SymbolError SymbolTable :=
  match Slots.find? table.slots name with
  | none => .error .itemNotFound
  | some (index, symbol) =>
      match change symbol with
      | .error error => .error error
      | .ok changed =>
          .ok { table with slots := table.slots.setIfInBounds index (.occupied changed) }

/-- Lets `change` work on the entry of `name`. What is left of the entry is there afterwards, also
if the change fails.
-/
def update (table : SymbolTable) (name : String) (change : Symbol → Call Symbol) :
    Call SymbolTable :=
  match Slots.find? table.slots name with
  | none => .fail .itemNotFound table
  | some (index, symbol) =>
      let changed := change symbol
      {
        answer := changed.answer
        after :=
          { table with slots := table.slots.setIfInBounds index (.occupied changed.after) }
      }

end SymbolTable

end ExprCompiler

import ExprCompiler.Names.Builtin
import ExprCompiler.Proofs.Names.ScopeRefinement

/-! The numbers of entries. All tables of a run take the numbers of their entries from one
counter. A ledger of the same run counts the entries as they are made, and says which of them
stands for a name in which table. Main statement: an entry is found wherever the ledger has it,
and its number is its place in the count.
-/

namespace ExprCompiler

/-- A change of a symbol that keeps its number, too. -/
structure Adjustment extends Update where
  keepsUid : ∀ symbol changed, change symbol = .ok changed → changed.uid = symbol.uid

/-- What can be asked of a table. The number of a new entry is not for the caller to choose. -/
inductive TableRequest where
  | insert (name : String)
  | erase (name : String)
  | modify (name : String) (adjustment : Adjustment)
  | grow

/-- What can be asked of a stack of blocks. -/
inductive ScopeRequest where
  | push
  | pop
  | dispose
  | insert (name : String)
  | modify (name : String) (adjustment : Adjustment)
  | inTop (request : TableRequest)
  | inGlobal (request : TableRequest)
  /-- Declares the built-in functions. -/
  | register

/-- What can be asked in a run with many stacks. A table on its own is a stack of one block. -/
inductive SessionRequest where
  | newTable (stack hint : Nat)
  /-- Closes the innermost block of a stack, and keeps its table on its own. -/
  | detach (stack target : Nat)
  | inStack (stack : Nat) (request : ScopeRequest)

/-- Answers a request to a table. A successful insertion takes the next number; a request that
fails changes nothing.
-/
def TableRequest.perform : TableRequest → SymbolTable → UInt32 → SymbolTable × UInt32
  | .insert name, table, next =>
      match table.insert name next with
      | .ok changed => (changed, next + 1)
      | .error _ => (table, next)
  | .erase name, table, next => (table.perform (.erase name), next)
  | .modify name adjustment, table, next =>
      (table.perform (.modify name adjustment.toUpdate), next)
  | .grow, table, next => (table.grow, next)

namespace ScopeStack

/-- Does something to the table of the innermost block. -/
def atTop (change : SymbolTable → UInt32 → SymbolTable × UInt32) (scopes : ScopeStack)
    (next : UInt32) : ScopeStack × UInt32 :=
  match scopes.top with
  | .ok frame => (scopes.setTop (change frame next).1, (change frame next).2)
  | .error _ => (scopes, next)

/-- Does something to the table of the outermost block. -/
def atGlobal (change : SymbolTable → UInt32 → SymbolTable × UInt32) (scopes : ScopeStack)
    (next : UInt32) : ScopeStack × UInt32 :=
  match scopes.global with
  | .ok frame => (scopes.setGlobal (change frame next).1, (change frame next).2)
  | .error _ => (scopes, next)

end ScopeStack

/-- Answers a request to a stack of blocks. -/
def ScopeRequest.perform : ScopeRequest → ScopeStack → UInt32 → ScopeStack × UInt32
  | .push, scopes, next => (scopes.push, next)
  | .pop, scopes, next => (scopes.perform .pop, next)
  | .dispose, scopes, next => (scopes.dispose, next)
  | .insert name, scopes, next =>
      match scopes.insert name next with
      | .ok changed => (changed, next + 1)
      | .error _ => (scopes, next)
  | .modify name adjustment, scopes, next =>
      (scopes.perform (.modify name adjustment.toUpdate), next)
  | .inTop request, scopes, next => scopes.atTop request.perform next
  | .inGlobal request, scopes, next => scopes.atGlobal request.perform next
  | .register, scopes, next => (Builtin.register scopes next).2

/-- All stacks of a run, of which those not in use are empty, and the next number to take. -/
structure Session where
  scopes : Nat → ScopeStack := fun _ => {}
  next : UInt32 := 0

namespace Session

/-- Answers a request. -/
def perform (session : Session) : SessionRequest → Session
  | .newTable stack hint =>
      { session with scopes := Function.update session.scopes stack ⟨[.withCapacity hint]⟩ }
  | .detach stack target =>
      match (session.scopes stack).pop with
      | .ok (table, scopes) =>
          { session with
            scopes :=
              Function.update (Function.update session.scopes stack scopes) target ⟨[table]⟩ }
      | .error _ => session
  | .inStack stack request =>
      let after := request.perform (session.scopes stack) session.next
      ⟨Function.update session.scopes stack after.1, after.2⟩

/-- The session after all requests of a run. -/
def after (requests : List SessionRequest) : Session :=
  requests.foldl perform {}

end Session

-----------------------------------------------------------------------------------------
-- The ledger
-----------------------------------------------------------------------------------------

/-- The entry that stands for each name of a table. -/
abbrev Numbers :=
  String → Option Nat

/-- What a request does to the entries of a table, of which `created` were made before. -/
def TableRequest.record : TableRequest → Numbers → Nat → Numbers × Nat
  | .insert name, numbers, created =>
      match numbers name with
      | some _ => (numbers, created)
      | none => (Function.update numbers name (some created), created + 1)
  | .erase name, numbers, created => (Function.update numbers name none, created)
  | .modify _ _, numbers, created | .grow, numbers, created => (numbers, created)

/-- Makes an entry for each of some names, up to the first that has one. -/
def Numbers.declare : List String → Numbers → Nat → Numbers × Nat
  | [], numbers, created => (numbers, created)
  | name :: names, numbers, created =>
      match numbers name with
      | some _ => (numbers, created)
      | none => declare names (Function.update numbers name (some created)) (created + 1)

/-- Does something to the item with this index, and counts on. -/
def changeAt {α β : Type} (change : α → β → α × β) : Nat → List α → β → List α × β
  | _, [], count => ([], count)
  | 0, item :: items, count => ((change item count).1 :: items, (change item count).2)
  | index + 1, item :: items, count =>
      (item :: (changeAt change index items count).1, (changeAt change index items count).2)

/-- What a request does to the entries of a stack of blocks, innermost first. -/
def ScopeRequest.record : ScopeRequest → List Numbers → Nat → List Numbers × Nat
  | .push, levels, created => ((fun _ => none) :: levels, created)
  | .pop, levels, created => (levels.tail, created)
  | .dispose, _, created => ([], created)
  | .insert name, levels, created => changeAt (TableRequest.insert name).record 0 levels created
  | .modify _ _, levels, created => (levels, created)
  | .inTop request, levels, created => changeAt request.record 0 levels created
  | .inGlobal request, levels, created =>
      changeAt request.record (levels.length - 1) levels created
  | .register, levels, created =>
      changeAt (Numbers.declare (Builtin.all.map Builtin.name)) (levels.length - 1) levels created

/-- The entries of all stacks of a run, and how many were made so far. -/
structure Ledger where
  levels : Nat → List Numbers := fun _ => []
  created : Nat := 0

namespace Ledger

/-- What a request does to the entries. -/
def record (ledger : Ledger) : SessionRequest → Ledger
  | .newTable stack _ =>
      { ledger with levels := Function.update ledger.levels stack [fun _ => none] }
  | .detach stack target =>
      match ledger.levels stack with
      | numbers :: outer =>
          { ledger with
            levels := Function.update (Function.update ledger.levels stack outer) target [numbers] }
      | [] => ledger
  | .inStack stack request =>
      let after := request.record (ledger.levels stack) ledger.created
      ⟨Function.update ledger.levels stack after.1, after.2⟩

/-- The ledger after all requests of a run. -/
def after (requests : List SessionRequest) : Ledger :=
  requests.foldl record {}

end Ledger

-----------------------------------------------------------------------------------------
-- Tables and their entries
-----------------------------------------------------------------------------------------

/-- A table has the entries that the ledger says, of which `created` were made so far. -/
structure SymbolTable.Tracks (created : Nat) (table : SymbolTable) (numbers : Numbers) : Prop where
  wellFormed : table.WellFormed
  few : table.count ≤ created
  uid : ∀ name, (table.find? name).map Symbol.uid = (numbers name).map UInt32.ofNat
  earlier : ∀ name number, numbers name = some number → number < created

/-- Whatever is done to something is done to its record, with numbers from the same count. There
are fewer entries than numbers.
-/
structure Mirrors {α β : Type} (tracks : Nat → α → β → Prop)
    (change : α → UInt32 → α × UInt32) (record : β → Nat → β × Nat) : Prop where
  grows : ∀ note created, created ≤ (record note created).2
  keeps : ∀ created item note, tracks created item note → (record note created).2 ≤ 2 ^ 32 →
    (change item (.ofNat created)).2 = .ofNat (record note created).2
    ∧ tracks (record note created).2 (change item (.ofNat created)).1 (record note created).1

namespace SymbolTable

theorem count_le_of_insert {table changed : SymbolTable} {name : String} {uid : UInt32}
    (inserts : table.insert name uid = .ok changed)
    : changed.count ≤ table.count + 1 := by
  obtain ⟨_, rfl | rfl⟩ := insert_eq_ok inserts
  · exact Nat.le_refl _
  · exact Nat.sub_le _ _

theorem count_perform_erase (table : SymbolTable) (name : String)
    : (table.perform (.erase name)).count = table.count := by
  rw [perform, Operation.apply, erase]
  cases Slots.find? table.slots name <;> rfl

theorem count_perform_modify (table : SymbolTable) (name : String) (update : Update)
    : (table.perform (.modify name update)).count = table.count := by
  rw [perform, Operation.apply, modify]
  cases Slots.find? table.slots name with
  | none => rfl
  | some found =>
      simp only
      cases update.change found.2 <;> rfl

theorem tracks_withCapacity (hint created : Nat)
    : (withCapacity hint).Tracks created fun _ => none where
  wellFormed := wellFormed_withCapacity hint
  few := Nat.zero_le created
  uid name := by rw [find?_withCapacity]; rfl
  earlier := by rintro _ _ ⟨⟩

namespace Tracks

variable {created : Nat} {table : SymbolTable} {numbers : Numbers}

theorem mono {later : Nat} (tracks : table.Tracks created numbers) (atMost : created ≤ later)
    : table.Tracks later numbers where
  wellFormed := tracks.wellFormed
  few := tracks.few.trans atMost
  uid := tracks.uid
  earlier name number isNumber := (tracks.earlier name number isNumber).trans_le atMost

theorem hasRoom (tracks : table.Tracks created numbers) (bounded : created ≤ 2 ^ 32)
    : table.HasRoom :=
  tracks.wellFormed.hasRoom_of_count_le (tracks.few.trans bounded)

theorem isSome_find? (tracks : table.Tracks created numbers) (name : String)
    : (table.find? name).isSome = (numbers name).isSome := by
  have same := congrArg Option.isSome (tracks.uid name)
  rwa [Option.isSome_map, Option.isSome_map] at same

/-- A name with an entry cannot be inserted. -/
theorem insert_of_some (tracks : table.Tracks created numbers) {name : String} {number : Nat}
    (present : numbers name = some number) (uid : UInt32)
    : table.insert name uid = .error .alreadyStored := by
  have stored : table.contains name = true := by
    rw [SymbolTable.contains, tracks.isSome_find?, present]
    rfl
  rw [SymbolTable.insert, store_of_contains stored]
  rfl

/-- A table in which one name changed has the entries in which it changed likewise. -/
theorem update (tracks : table.Tracks created numbers) {changed : SymbolTable} {later : Nat}
    (atMost : created ≤ later) (keeps : changed.WellFormed) (few : changed.count ≤ later)
    {name : String} {symbol? : Option Symbol} {number? : Option Nat}
    (entries : changed.find? = Function.update table.find? name symbol?)
    (uid : symbol?.map Symbol.uid = number?.map UInt32.ofNat)
    (earlier : ∀ number, number? = some number → number < later)
    : changed.Tracks later (Function.update numbers name number?) := by
  refine ⟨keeps, few, fun other => ?_, fun other number => ?_⟩
  · rw [entries, Function.update_apply, Function.update_apply]
    split
    · exact uid
    · exact tracks.uid other
  · rw [Function.update_apply]
    split
    · exact earlier number
    · exact fun isNumber => (tracks.earlier other number isNumber).trans_le atMost

/-- A name without an entry gets the next one. -/
theorem insert_of_none (tracks : table.Tracks created numbers) (bounded : created ≤ 2 ^ 32)
    {name : String} (absent : numbers name = none)
    : ∃ changed, table.insert name (.ofNat created) = .ok changed
        ∧ changed.Tracks (created + 1) (Function.update numbers name (some created)) := by
  have notStored : table.find? name = none := by
    rw [← Option.isNone_iff_eq_none, ← Option.not_isSome, tracks.isSome_find?, absent]
    rfl
  obtain ⟨changed, inserts, keeps, entries⟩ :=
    tracks.wellFormed.insert (tracks.hasRoom bounded) notStored (.ofNat created)
  have few : changed.count ≤ created + 1 :=
    (count_le_of_insert inserts).trans (Nat.succ_le_succ tracks.few)
  refine ⟨changed, inserts, tracks.update (Nat.le_succ created) keeps few entries rfl ?_⟩
  intro number isNumber
  cases isNumber
  exact Nat.lt_succ_self created

/-- Deleting a name ends its entry. -/
theorem erase (tracks : table.Tracks created numbers) (bounded : created ≤ 2 ^ 32)
    (name : String)
    : (table.perform (.erase name)).Tracks created (Function.update numbers name none) := by
  obtain ⟨keeps, entries⟩ := tracks.wellFormed.perform (tracks.hasRoom bounded) (.erase name)
  have few : (table.perform (.erase name)).count ≤ created := by
    rw [count_perform_erase]
    exact tracks.few
  exact tracks.update (Nat.le_refl created) keeps few entries rfl (by simp)

theorem map_uid_modify (entries : Entries) (name : String) (adjustment : Adjustment)
    (other : String)
    : ((Operation.modify name adjustment.toUpdate).record entries other).map Symbol.uid
      = (entries other).map Symbol.uid := by
  cases found : entries name with
  | none => simp only [Operation.record, found]
  | some symbol =>
      cases changes : adjustment.change symbol with
      | error _ => simp only [Operation.record, found, changes]
      | ok changed =>
          simp only [Operation.record, found, changes, Function.update_apply]
          split
          · next same =>
              rw [same, found]
              exact congrArg some (adjustment.keepsUid symbol changed changes)
          · rfl

/-- A change keeps all entries. -/
theorem modify (tracks : table.Tracks created numbers) (bounded : created ≤ 2 ^ 32)
    (name : String) (adjustment : Adjustment)
    : (table.perform (.modify name adjustment.toUpdate)).Tracks created numbers := by
  obtain ⟨keeps, entries⟩ :=
    tracks.wellFormed.perform (tracks.hasRoom bounded) (.modify name adjustment.toUpdate)
  refine ⟨keeps, ?_, fun other => ?_, tracks.earlier⟩
  · rw [count_perform_modify]
    exact tracks.few
  · rw [entries, map_uid_modify]
    exact tracks.uid other

/-- A larger table has the same entries. -/
theorem grow (tracks : table.Tracks created numbers) (bounded : created ≤ 2 ^ 32)
    : table.grow.Tracks created numbers := by
  obtain ⟨keeps, entries⟩ := tracks.wellFormed.perform (tracks.hasRoom bounded) .grow
  refine ⟨keeps, (Nat.sub_le _ _).trans tracks.few, fun name => ?_, tracks.earlier⟩
  have same : table.grow.find? = table.find? := entries
  rw [same]
  exact tracks.uid name

end Tracks

end SymbolTable

/-- A request to a table does to the entries what it is to do. -/
theorem TableRequest.mirrors (request : TableRequest)
    : Mirrors SymbolTable.Tracks request.perform request.record := by
  refine ⟨fun numbers created => ?_, fun created table numbers tracks bounded => ?_⟩
  · fun_cases record request numbers created with
    | case2 => exact Nat.le_succ created
    | case1 | case3 | case4 | case5 => exact Nat.le_refl created
  · cases request with
    | insert name =>
        cases entry : numbers name with
        | some number =>
            simp only [perform, record, entry, tracks.insert_of_some entry]
            exact ⟨trivial, tracks⟩
        | none =>
            simp only [record, entry] at bounded
            obtain ⟨changed, inserts, after⟩ := tracks.insert_of_none (by omega) entry
            simp only [perform, record, entry, inserts]
            exact ⟨(UInt32.ofNat_add ..).symm, after⟩
    | erase name => exact ⟨rfl, tracks.erase bounded name⟩
    | modify name adjustment => exact ⟨rfl, tracks.modify bounded name adjustment⟩
    | grow => exact ⟨rfl, tracks.grow bounded⟩

namespace Builtin

/-- The change that makes an entry a built-in function. -/
def adjustment (builtin : Builtin) : Adjustment where
  change symbol := .ok (builtin.describe symbol)
  keepsName := by
    rintro _ _ ⟨⟩
    rfl
  keepsUid := by
    rintro _ _ ⟨⟩
    rfl

variable {created : Nat} {table : SymbolTable} {numbers : Numbers}

/-- A built-in function without an entry gets the next one. -/
theorem exists_declare (builtin : Builtin) (tracks : table.Tracks created numbers)
    (bounded : created + 1 ≤ 2 ^ 32) (absent : numbers builtin.name = none)
    : ∃ changed, builtin.declare table (.ofNat created) = .ok changed
        ∧ changed.Tracks (created + 1)
          (Function.update numbers builtin.name (some created)) := by
  obtain ⟨inserted, inserts, after⟩ := tracks.insert_of_none (by omega) absent
  have described := after.modify bounded builtin.name builtin.adjustment
  have isDeclared : builtin.declare table (.ofNat created)
      = inserted.modify builtin.name builtin.adjustment.change := by
    rw [declare, inserts]
    rfl
  cases modified : inserted.modify builtin.name builtin.adjustment.change with
  | ok changed =>
      rw [SymbolTable.perform_of_ok (.modify _ builtin.adjustment.toUpdate) modified] at described
      exact ⟨changed, isDeclared.trans modified, described⟩
  | error error =>
      -- The entry was just made, and describing it does not fail.
      have stored := after.isSome_find? builtin.name
      rw [Function.update_self] at stored
      rcases SymbolTable.modify_eq_error_iff.mp modified with ⟨missing, _⟩ | ⟨_, _, fails⟩
      · rw [missing] at stored
        cases stored
      · cases fails

/-- Declaring functions makes entries for their names, by induction over the functions. -/
theorem mirrors_declareAll (builtins : List Builtin)
    : Mirrors SymbolTable.Tracks (fun table next => (declareAll builtins table next).2)
        (Numbers.declare (builtins.map Builtin.name)) := by
  induction builtins with
  | nil => exact ⟨fun _ created => Nat.le_refl created, fun _ _ _ tracks _ => ⟨rfl, tracks⟩⟩
  | cons builtin builtins ih =>
      refine ⟨fun numbers created => ?_, fun created table numbers tracks bounded => ?_⟩
      · rw [List.map_cons, Numbers.declare]
        split
        · exact Nat.le_refl created
        · exact (Nat.le_succ created).trans (ih.grows _ _)
      · cases entry : numbers builtin.name with
        | some number =>
            have fails : builtin.declare table (.ofNat created) = .error .alreadyStored := by
              rw [declare, tracks.insert_of_some entry]
              rfl
            simp only [declareAll, List.map_cons, Numbers.declare, entry, fails]
            exact ⟨trivial, tracks⟩
        | none =>
            simp only [List.map_cons, Numbers.declare, entry] at bounded
            obtain ⟨changed, declares, after⟩ := builtin.exists_declare tracks
              ((ih.grows _ _).trans bounded) entry
            have later := ih.keeps _ _ _ after bounded
            rw [UInt32.ofNat_add] at later
            simp only [declareAll, List.map_cons, Numbers.declare, entry, declares]
            exact later

end Builtin

-----------------------------------------------------------------------------------------
-- Stacks
-----------------------------------------------------------------------------------------

theorem changeAt_nil {α β : Type} (change : α → β → α × β) (index : Nat) (count : β)
    : changeAt change index [] count = ([], count) := by
  cases index <;> rfl

theorem changeAt_concat {α β : Type} (change : α → β → α × β) (items : List α) (last : α)
    (count : β)
    : changeAt change items.length (items ++ [last]) count
      = (items ++ [(change last count).1], (change last count).2) := by
  induction items with
  | nil => rfl
  | cons item items ih =>
      rw [List.cons_append, List.length_cons, changeAt, ih]
      rfl

theorem le_changeAt {α : Type} {record : α → Nat → α × Nat}
    (grows : ∀ note created, created ≤ (record note created).2) (index : Nat) (notes : List α)
    (created : Nat)
    : created ≤ (changeAt record index notes created).2 := by
  fun_induction changeAt record index notes created with
  | case1 => exact Nat.le_refl _
  | case2 note notes created => exact grows note created
  | case3 index note notes created ih => exact ih

/-- What is done to one of several things is done to its record, by induction over the things. -/
theorem Mirrors.changeAt {α β : Type} {tracks : Nat → α → β → Prop}
    {change : α → UInt32 → α × UInt32} {record : β → Nat → β × Nat}
    (mirrors : Mirrors tracks change record)
    (mono : ∀ created later item note, tracks created item note → created ≤ later →
      tracks later item note)
    (index : Nat)
    : Mirrors (fun created => List.Forall₂ (tracks created)) (changeAt change index)
        (changeAt record index) := by
  refine ⟨le_changeAt mirrors.grows index, fun created items notes all bounded => ?_⟩
  induction all generalizing index with
  | nil =>
      rw [changeAt_nil, changeAt_nil]
      exact ⟨rfl, .nil⟩
  | @cons item note items notes first others ih =>
      cases index with
      | zero =>
          obtain ⟨next, after⟩ := mirrors.keeps created item note first bounded
          have atMost := mirrors.grows note created
          exact ⟨next, .cons after
            (others.imp fun item note tracked => mono _ _ item note tracked atMost)⟩
      | succ index =>
          obtain ⟨next, after⟩ := ih index bounded
          have atMost := le_changeAt mirrors.grows index notes created
          exact ⟨next, .cons (mono _ _ item note first atMost) after⟩

namespace ScopeStack

/-- The tables of the blocks have the entries that the ledger says. -/
def Tracks (created : Nat) (scopes : ScopeStack) (levels : List Numbers) : Prop :=
  List.Forall₂ (SymbolTable.Tracks created) scopes.frames levels

theorem Tracks.mono {created later : Nat} {scopes : ScopeStack} {levels : List Numbers}
    (tracks : scopes.Tracks created levels) (atMost : created ≤ later)
    : scopes.Tracks later levels :=
  tracks.imp fun _ _ tracked => tracked.mono atMost

/-- The innermost block can be closed if the ledger has one. -/
theorem Tracks.pop {created : Nat} {scopes : ScopeStack} {levels : List Numbers}
    (tracks : scopes.Tracks created levels)
    : scopes.pop = .error .notInitialized ∧ levels = []
      ∨ ∃ table outer numbers rest, scopes.pop = .ok (table, outer) ∧ levels = numbers :: rest
        ∧ table.Tracks created numbers ∧ outer.Tracks created rest := by
  obtain ⟨frames⟩ := scopes
  cases tracks with
  | nil => exact .inl ⟨rfl, rfl⟩
  | @cons frame numbers frames rest first others =>
      exact .inr ⟨frame, ⟨frames⟩, numbers, rest, rfl, rfl, first, others⟩

theorem atTop_eq (change : SymbolTable → UInt32 → SymbolTable × UInt32) (scopes : ScopeStack)
    (next : UInt32)
    : scopes.atTop change next
      = (⟨(changeAt change 0 scopes.frames next).1⟩, (changeAt change 0 scopes.frames next).2) := by
  obtain ⟨frames⟩ := scopes
  cases frames <;> rfl

theorem atGlobal_eq (change : SymbolTable → UInt32 → SymbolTable × UInt32) (scopes : ScopeStack)
    (next : UInt32)
    : scopes.atGlobal change next
      = (⟨(changeAt change (scopes.frames.length - 1) scopes.frames next).1⟩,
          (changeAt change (scopes.frames.length - 1) scopes.frames next).2) := by
  obtain ⟨frames⟩ := scopes
  rcases List.eq_nil_or_concat frames with rfl | ⟨inner, frame, rfl⟩
  · rfl
  · rw [List.concat_eq_append]
    have outermost : global ⟨inner ++ [frame]⟩ = .ok frame := by simp [global]
    have lastIndex : (inner ++ [frame]).length - 1 = inner.length := by simp
    rw [atGlobal, outermost, lastIndex, changeAt_concat]
    simp only [setGlobal_concat]

theorem mirrors_atTop {change : SymbolTable → UInt32 → SymbolTable × UInt32}
    {record : Numbers → Nat → Numbers × Nat} (mirrors : Mirrors SymbolTable.Tracks change record)
    : Mirrors Tracks (atTop change) (changeAt record 0) := by
  have lifted := mirrors.changeAt (fun _ _ _ _ tracked => tracked.mono) 0
  refine ⟨lifted.grows, fun created scopes levels tracks bounded => ?_⟩
  rw [atTop_eq]
  exact lifted.keeps created scopes.frames levels tracks bounded

theorem mirrors_atGlobal {change : SymbolTable → UInt32 → SymbolTable × UInt32}
    {record : Numbers → Nat → Numbers × Nat} (mirrors : Mirrors SymbolTable.Tracks change record)
    : Mirrors Tracks (atGlobal change)
        (fun levels => changeAt record (levels.length - 1) levels) := by
  have lifted := mirrors.changeAt (fun _ _ _ _ tracked => tracked.mono)
  refine ⟨fun levels => (lifted _).grows levels,
    fun created scopes levels tracks bounded => ?_⟩
  have sameLength : scopes.frames.length = levels.length := tracks.length_eq
  rw [atGlobal_eq, sameLength]
  exact (lifted _).keeps created scopes.frames levels tracks bounded

/-- A change that keeps the entries of each table keeps those of a stack. -/
theorem forall₂_modify {tracks : SymbolTable → Numbers → Prop} {frames : List SymbolTable}
    {levels : List Numbers} {change : SymbolTable → SymbolTable}
    (keeps : ∀ frame numbers, tracks frame numbers → tracks (change frame) numbers)
    (all : List.Forall₂ tracks frames levels) (index : Nat)
    : List.Forall₂ tracks (frames.modify index change) levels := by
  induction all generalizing index with
  | nil =>
      rw [List.modify_nil]
      exact .nil
  | @cons frame numbers frames levels first others ih =>
      cases index with
      | zero => exact .cons (keeps frame numbers first) others
      | succ index => exact .cons first (ih index)

end ScopeStack

/-- A declaration in a stack is an insertion in its innermost block. -/
theorem ScopeRequest.perform_insert (name : String)
    : (ScopeRequest.insert name).perform = (ScopeRequest.inTop (.insert name)).perform := by
  funext scopes next
  obtain ⟨frames⟩ := scopes
  cases frames with
  | nil => rfl
  | cons frame outer =>
      have inserts : ScopeStack.insert ⟨frame :: outer⟩ name next
          = ScopeStack.setTop ⟨frame :: outer⟩ <$> frame.insert name next :=
        rfl
      rw [perform, inserts, perform, ScopeStack.atTop_eq, changeAt, TableRequest.perform]
      cases frame.insert name next <;> rfl

/-- The built-in functions are declared in the outermost block. -/
theorem ScopeRequest.perform_register
    : ScopeRequest.register.perform
      = ScopeStack.atGlobal fun table next => (Builtin.declareAll Builtin.all table next).2 := by
  funext scopes next
  rw [perform, Builtin.register, ScopeStack.atGlobal]
  cases scopes.global <;> rfl

/-- A request to a stack does to the entries what it is to do. -/
theorem ScopeRequest.mirrors (request : ScopeRequest)
    : Mirrors ScopeStack.Tracks request.perform request.record := by
  cases request with
  | push =>
      refine ⟨fun _ created => Nat.le_refl created, fun created scopes levels tracks _ => ?_⟩
      exact ⟨rfl, .cons (SymbolTable.tracks_withCapacity 11 created) tracks⟩
  | pop =>
      refine ⟨fun _ created => Nat.le_refl created, fun created scopes levels tracks _ => ?_⟩
      obtain ⟨frames⟩ := scopes
      cases tracks with
      | nil => exact ⟨rfl, .nil⟩
      | cons _ others => exact ⟨rfl, others⟩
  | dispose => exact ⟨fun _ created => Nat.le_refl created, fun _ _ _ _ _ => ⟨rfl, .nil⟩⟩
  | modify name adjustment =>
      refine ⟨fun _ created => Nat.le_refl created, fun created scopes levels tracks bounded => ?_⟩
      refine ⟨rfl, ?_⟩
      rw [perform, ScopeStack.Tracks, ScopeStack.frames_perform_modify]
      exact ScopeStack.forall₂_modify
        (fun frame numbers tracked => tracked.modify bounded name adjustment) tracks _
  | insert name =>
      rw [perform_insert]
      exact ScopeStack.mirrors_atTop (TableRequest.insert name).mirrors
  | inTop request => exact ScopeStack.mirrors_atTop request.mirrors
  | inGlobal request => exact ScopeStack.mirrors_atGlobal request.mirrors
  | register =>
      rw [perform_register]
      exact ScopeStack.mirrors_atGlobal (Builtin.mirrors_declareAll Builtin.all)

-----------------------------------------------------------------------------------------
-- Runs
-----------------------------------------------------------------------------------------

namespace Ledger

theorem created_le_record (ledger : Ledger) (request : SessionRequest)
    : ledger.created ≤ (ledger.record request).created := by
  cases request with
  | newTable => exact Nat.le_refl _
  | detach stack target =>
      rw [record]
      split <;> exact Nat.le_refl _
  | inStack stack request => exact request.mirrors.grows _ _

/-- No entry is forgotten in the count, by induction over the requests. -/
theorem created_le_foldl (ledger : Ledger) (requests : List SessionRequest)
    : ledger.created ≤ (requests.foldl record ledger).created := by
  induction requests generalizing ledger with
  | nil => exact Nat.le_refl _
  | cons request requests ih => exact (ledger.created_le_record request).trans (ih _)

end Ledger

namespace Session

/-- All stacks have the entries that the ledger says, and the next number is the number of
entries so far.
-/
structure Tracks (session : Session) (ledger : Ledger) : Prop where
  next : session.next = .ofNat ledger.created
  scopes : ∀ stack, (session.scopes stack).Tracks ledger.created (ledger.levels stack)

variable {session : Session} {ledger : Ledger}

theorem Tracks.update {created : Nat} {scopes : Nat → ScopeStack} {levels : Nat → List Numbers}
    (all : ∀ stack, (scopes stack).Tracks created (levels stack)) {changed : ScopeStack}
    {numbers : List Numbers} (tracks : changed.Tracks created numbers) (target stack : Nat)
    : (Function.update scopes target changed stack).Tracks created
        (Function.update levels target numbers stack) := by
  rw [Function.update_apply, Function.update_apply]
  split
  · exact tracks
  · exact all stack

/-- A request does to the entries what it is to do. -/
theorem Tracks.perform (tracks : session.Tracks ledger) (request : SessionRequest)
    (bounded : (ledger.record request).created ≤ 2 ^ 32)
    : (session.perform request).Tracks (ledger.record request) := by
  cases request with
  | newTable stack hint =>
      exact ⟨tracks.next, Tracks.update tracks.scopes
        (.cons (SymbolTable.tracks_withCapacity hint _) .nil) stack⟩
  | detach stack target =>
      rcases (tracks.scopes stack).pop with
        ⟨pops, levels⟩ | ⟨table, outer, numbers, rest, pops, levels, tableTracks, outerTracks⟩
      · simp only [Session.perform, Ledger.record, pops, levels]
        exact tracks
      · simp only [Session.perform, Ledger.record, pops, levels]
        exact ⟨tracks.next, Tracks.update (Tracks.update tracks.scopes outerTracks stack)
          (.cons tableTracks .nil) target⟩
  | inStack stack request =>
      obtain ⟨next, after⟩ := request.mirrors.keeps _ _ _ (tracks.scopes stack) bounded
      rw [← tracks.next] at next after
      have atMost := request.mirrors.grows (ledger.levels stack) ledger.created
      exact ⟨next, Tracks.update (fun other => (tracks.scopes other).mono atMost) after stack⟩

/-- A run does to the entries what its requests are to do, by induction over the requests. -/
theorem Tracks.foldl (tracks : session.Tracks ledger) (requests : List SessionRequest)
    (bounded : (requests.foldl Ledger.record ledger).created ≤ 2 ^ 32)
    : (requests.foldl Session.perform session).Tracks (requests.foldl Ledger.record ledger) := by
  induction requests generalizing session ledger with
  | nil => exact tracks
  | cons request requests ih =>
      have early := (ledger.record request).created_le_foldl requests
      exact ih (tracks.perform request (early.trans bounded)) bounded

/-- A run starts with no entry. -/
theorem tracks_after {requests : List SessionRequest}
    (bounded : (Ledger.after requests).created ≤ 2 ^ 32)
    : (Session.after requests).Tracks (Ledger.after requests) := by
  have start : Tracks {} {} := ⟨rfl, fun _ => .nil⟩
  exact start.foldl requests bounded

end Session

/-- Where an entry can be: under a name, in a block of a stack, counted from the innermost one. -/
structure EntryPlace where
  stack : Nat
  level : Nat
  name : String

/-- The symbol at a place. -/
def Session.find? (session : Session) (place : EntryPlace) : Option Symbol :=
  (session.scopes place.stack).frames[place.level]?.bind fun frame => frame.find? place.name

/-- The entry at a place. -/
def Ledger.find? (ledger : Ledger) (place : EntryPlace) : Option Nat :=
  (ledger.levels place.stack)[place.level]?.bind fun numbers => numbers place.name

theorem forall₂_getElem? {α β : Type} {tracks : α → β → Prop} {items : List α} {notes : List β}
    (all : List.Forall₂ tracks items notes) (index : Nat)
    : items[index]? = none ∧ notes[index]? = none
      ∨ ∃ item note, items[index]? = some item ∧ notes[index]? = some note ∧ tracks item note := by
  induction all generalizing index with
  | nil => exact .inl ⟨rfl, rfl⟩
  | @cons item note items notes first others ih =>
      cases index with
      | zero => exact .inr ⟨item, note, rfl, rfl, first⟩
      | succ index => exact ih index

/-- What the session has at a place is the entry that the ledger has there. -/
theorem Session.Tracks.find? {session : Session} {ledger : Ledger}
    (tracks : session.Tracks ledger) (place : EntryPlace)
    : session.find? place = none ∧ ledger.find? place = none
      ∨ ∃ symbol entry, session.find? place = some symbol ∧ ledger.find? place = some entry
        ∧ symbol.name = place.name ∧ symbol.uid = .ofNat entry ∧ entry < ledger.created := by
  unfold Session.find? Ledger.find?
  rcases forall₂_getElem? (tracks.scopes place.stack) place.level with
    ⟨noTable, noNumbers⟩ | ⟨table, numbers, isTable, areNumbers, tracked⟩
  · rw [noTable, noNumbers]
    exact .inl ⟨rfl, rfl⟩
  · rw [isTable, areNumbers, Option.bind_some, Option.bind_some]
    have uid := tracked.uid place.name
    cases found : table.find? place.name with
    | none =>
        rw [found] at uid
        exact .inl ⟨rfl, Option.map_eq_none_iff.mp uid.symm⟩
    | some symbol =>
        rw [found] at uid
        obtain ⟨entry, isEntry, same⟩ := Option.map_eq_some_iff.mp uid.symm
        exact .inr ⟨symbol, entry, rfl, isEntry, tracked.wellFormed.name_eq found, same.symm,
          tracked.earlier _ _ isEntry⟩

end ExprCompiler

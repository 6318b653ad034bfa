import ExprCompiler.Proofs.Names.TypedAccess

/-! The parameters of functions along a run. Main statement: typed access is sound in every table,
and the parameters of an entry are, in order and without repetition, those that were added since
the entry was inserted.
-/

namespace ExprCompiler

namespace Call

variable {State : Type} {call : Call State}

theorem eq_of_result_eq_ok {after : State} (succeeds : call.result = .ok after)
    : call.answer = .ok () ∧ call.after = after := by
  unfold result at succeeds
  split at succeeds
  · next answered => exact ⟨answered, Except.ok.inj succeeds⟩
  · cases succeeds

theorem answer_of_result_eq_error {error : SymbolError} (fails : call.result = .error error)
    : call.answer = .error error := by
  unfold result at fails
  split at fails
  · cases fails
  · next answered => rw [answered, Except.error.inj fails]

end Call

/-- What can be asked of a table. -/
inductive AccessRequest where
  | insert (name : String) (uid : UInt32)
  | erase (name : String)
  | grow
  | set (name : String) (setter : Setter)

namespace AccessRequest

/-- The operation on a table. -/
def apply (table : SymbolTable) : AccessRequest → Except SymbolError SymbolTable
  | .insert name uid => table.insert name uid
  | .erase name => table.erase name
  | .grow => .ok table.grow
  | .set name setter => setter.apply table name

/-- The table that a request leaves if it fails. -/
def leftBy (table : SymbolTable) : AccessRequest → SymbolTable
  | .set name setter => (setter.apply table name).after
  | _ => table

/-- What a request that succeeds makes of the names of the parameters of a function. -/
def addTo (function : String) (names : List String) : AccessRequest → List String
  | .insert name _ => if name = function then [] else names
  | .set name (.addParam param) => if name = function then names ++ [param.name] else names
  | _ => names

/-- A request about another name adds nothing to a function. -/
theorem addTo_set_of_ne {name function : String} (other : name ≠ function) (setter : Setter)
    (names : List String)
    : (AccessRequest.set name setter).addTo function names = names := by
  cases setter <;> simp [addTo, other]

end AccessRequest

/-- A table, and the requests that succeeded, oldest first. -/
structure AccessRun where
  table : SymbolTable
  done : List AccessRequest := []

/-- The names of the parameters that were added to a function since it was inserted. -/
def addedParams (function : String) (done : List AccessRequest) : List String :=
  done.foldl (AccessRequest.addTo function) []

namespace AccessRun

/-- Answers a request. -/
def perform (run : AccessRun) (request : AccessRequest) : AccessRun :=
  match request.apply run.table with
  | .ok changed => { table := changed, done := run.done ++ [request] }
  | .error _ => { run with table := request.leftBy run.table }

/-- The run after all requests to a new table. -/
def after (hint : Nat) (requests : List AccessRequest) : AccessRun :=
  requests.foldl perform { table := .withCapacity hint }

/-- Every entry has the parameters that were added to it, in order, and no two of one name. -/
structure ParamsInOrder (run : AccessRun) : Prop where
  added
    : ∀ entry ∈ run.table.symbols,
        entry.params.map Param.name = addedParams entry.name run.done
  distinct : ∀ entry ∈ run.table.symbols, (entry.params.map Param.name).Nodup

end AccessRun

theorem addedParams_snoc (function : String) (done : List AccessRequest) (request : AccessRequest)
    : addedParams function (done ++ [request])
      = request.addTo function (addedParams function done) := by
  simp [addedParams]

namespace Setter

variable {setter : Setter}

/-- Only the setter that adds a parameter changes the names of the parameters. -/
theorem names_write (setter : Setter) (entry : Symbol)
    : (setter.write entry).params.map Param.name
      = (AccessRequest.set entry.name setter).addTo entry.name (entry.params.map Param.name) := by
  cases setter with
  | kind | initialized | mutable | nilable | defined | returnType => rfl
  | addParam added => simp [write, AccessRequest.addTo]
  | paramKind param | paramLabel param | paramNilable param =>
      exact Symbol.names_writeParam (fun _ => by rfl) entry param

/-- A parameter is added only if its name is new. -/
theorem nodup_names_write {entry : Symbol} (met : setter.demand.Met entry)
    (distinct : (entry.params.map Param.name).Nodup)
    : ((setter.write entry).params.map Param.name).Nodup := by
  rw [names_write]
  cases setter with
  | addParam added =>
      have isNew : added.name ∉ entry.params.map Param.name := by
        intro present
        have noFault := met.2
        simp [demand, ParamDemand.fault?, present] at noFault
      simp only [AccessRequest.addTo, if_true]
      exact List.nodup_append.mpr ⟨distinct, List.nodup_singleton _, by
        intro name isOld other isAdded same
        rw [List.mem_singleton.mp isAdded] at same
        exact isNew (same ▸ isOld)⟩
  | _ => exact distinct

end Setter

namespace AccessRequest

variable {request : AccessRequest} {table changed : SymbolTable} {listed : Symbol}

theorem leftBy_of_error {error : SymbolError} (fails : request.apply table = .error error)
    : request.leftBy table = table := by
  cases request with
  | insert | erase | grow => rfl
  | set name setter => exact Setter.after_apply_of_error (Call.answer_of_result_eq_error fails)

theorem chained_of_apply (chained : Slots.Chained table.slots)
    (applied : request.apply table = .ok changed)
    : Slots.Chained changed.slots := by
  cases request with
  | insert name uid => exact SymbolTable.chained_of_insert chained applied
  | erase name => exact SymbolTable.chained_of_erase chained applied
  | grow =>
      cases applied
      exact SymbolTable.chained_grow chained
  | set name setter =>
      obtain ⟨succeeds, rfl⟩ := Call.eq_of_result_eq_ok applied
      exact Setter.chained_of_apply chained succeeds

/-- Where an entry comes from that is listed after a request: it was listed before and the request
is not about its parameters, or it is new and has none, or a setter changed it.
-/
theorem listed_of_apply (chained : Slots.Chained table.slots)
    (applied : request.apply table = .ok changed) (member : listed ∈ changed.symbols)
    : (listed ∈ table.symbols ∧ ∀ names, request.addTo listed.name names = names)
      ∨ (listed.params = [] ∧ ∀ names, request.addTo listed.name names = [])
      ∨ ∃ entry ∈ table.symbols, ∃ setter, request = .set entry.name setter
          ∧ setter.demand.Met entry ∧ listed = setter.write entry := by
  cases request with
  | insert name uid =>
      have absent := (SymbolTable.insert_eq_ok applied).1
      rcases SymbolTable.mem_symbols_of_insert applied member with rfl | before
      · exact .inr (.inl ⟨rfl, by simp [addTo]⟩)
      · have otherName := (SymbolTable.find?_eq_none_iff_of_chained chained).mp absent listed before
        exact .inl ⟨before, by simp [addTo, otherName.symm]⟩
  | erase name =>
      exact .inl ⟨SymbolTable.mem_symbols_of_erase applied member, fun _ => rfl⟩
  | grow =>
      cases applied
      exact .inl ⟨SymbolTable.mem_symbols_of_grow member, fun _ => rfl⟩
  | set name setter =>
      obtain ⟨succeeds, rfl⟩ := Call.eq_of_result_eq_ok applied
      have after := Setter.chained_of_apply chained succeeds
      obtain ⟨entry, ⟨isListed, rfl⟩, met, changes⟩ := Setter.changesOnly_of_apply chained succeeds
      -- Only one entry of each name is listed, so that of this name is the changed one.
      have found := (SymbolTable.find?_eq_some_iff_of_chained after).mpr ⟨member, rfl⟩
      rw [changes.found, Function.update_apply] at found
      split at found
      · exact .inr (.inr ⟨entry, isListed, setter, rfl, met, (Option.some.inj found).symm⟩)
      · next otherName =>
          have before := (SymbolTable.find?_eq_some_iff_of_chained chained).mp found
          exact .inl ⟨before.1, addTo_set_of_ne (Ne.symm otherName) setter⟩

end AccessRequest

namespace AccessRun

variable {run : AccessRun}

/-- A request keeps the parameters of all entries in order. -/
theorem ParamsInOrder.perform (inOrder : run.ParamsInOrder)
    (chained : Slots.Chained run.table.slots) (request : AccessRequest)
    : (run.perform request).ParamsInOrder ∧ Slots.Chained (run.perform request).table.slots := by
  unfold AccessRun.perform
  split
  · next changed applied =>
      refine ⟨⟨?_, ?_⟩, AccessRequest.chained_of_apply chained applied⟩
      · intro listed member
        rw [addedParams_snoc]
        rcases AccessRequest.listed_of_apply chained applied member with
          ⟨before, addsNothing⟩ | ⟨noParams, startsAnew⟩ | ⟨entry, before, setter, rfl, _, rfl⟩
        · rw [addsNothing]
          exact inOrder.added listed before
        · rw [startsAnew, noParams]
          rfl
        · rw [setter.names_write, setter.name_write, inOrder.added entry before]
      · intro listed member
        rcases AccessRequest.listed_of_apply chained applied member with
          ⟨before, _⟩ | ⟨noParams, _⟩ | ⟨entry, before, setter, _, met, rfl⟩
        · exact inOrder.distinct listed before
        · rw [noParams]
          exact List.nodup_nil
        · exact Setter.nodup_names_write met (inOrder.distinct entry before)
  · next error fails =>
      rw [AccessRequest.leftBy_of_error fails]
      exact ⟨inOrder, chained⟩

/-- By induction on the requests. -/
theorem ParamsInOrder.performAll (inOrder : run.ParamsInOrder)
    (chained : Slots.Chained run.table.slots) (requests : List AccessRequest)
    : (requests.foldl AccessRun.perform run).ParamsInOrder := by
  induction requests generalizing run with
  | nil => exact inOrder
  | cons request later ih =>
      obtain ⟨inOrder, chained⟩ := inOrder.perform chained request
      exact ih inOrder chained

theorem paramsInOrder_after (hint : Nat) (requests : List AccessRequest)
    : (after hint requests).ParamsInOrder := by
  have start : Slots.Chained (SymbolTable.withCapacity hint).slots :=
    (SymbolTable.wellFormed_withCapacity hint).chained
  have empty : (SymbolTable.withCapacity hint).symbols = [] := Slots.symbols_replicate_empty _
  refine ParamsInOrder.performAll ⟨?_, ?_⟩ start requests
  · intro entry member
    rw [empty] at member
    cases member
  · intro entry member
    rw [empty] at member
    cases member

end AccessRun

/-- In every table, whatever was done to it, typed access fails only as it should and touches only
what it is about. As long as entries are changed by typed access only, their parameters stay in
order.
-/
theorem SymbolTable.typedAccess_after
    : (∀ (hint : Nat) (history : List Operation), ((withCapacity hint).run history).TypedAccess)
      ∧ ∀ (hint : Nat) (requests : List AccessRequest),
          (AccessRun.after hint requests).ParamsInOrder := by
  refine ⟨fun hint history => ?_, AccessRun.paramsInOrder_after⟩
  exact typedAccess_of_chained (chained_run (wellFormed_withCapacity hint).chained history)

end ExprCompiler

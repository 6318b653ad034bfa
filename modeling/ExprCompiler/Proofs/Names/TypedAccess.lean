import ExprCompiler.Names.Access
import ExprCompiler.Proofs.Names.ListedSymbols

/-! Typed access to the entries of a table. What each operation demands of an entry is said once,
and so is what it writes or reads. Main statements: an operation fails exactly if its demands are
not met, and a setter that succeeds changes one field of one entry, which then reads back.
-/

namespace ExprCompiler

/-- What a name is to denote. -/
inductive KindDemand where
  | anything | variable | function

/-- What is to hold of the parameters of a function. -/
inductive ParamDemand where
  | nothing
  | present (name : String)
  | absent (name : String)

/-- What an operation demands of an entry. -/
structure Demand where
  kind : KindDemand := .anything
  param : ParamDemand := .nothing

/-- How an entry that denotes something else is refused. -/
def KindDemand.fault? : KindDemand → Symbol → Option SymbolError
  | .anything, _ => none
  | .variable, entry => if entry.kind = .function then some .itemIsFunction else none
  | .function, entry => if entry.kind = .function then none else some .itemNotFunction

/-- How an entry with other parameters is refused. -/
def ParamDemand.fault? : ParamDemand → Symbol → Option SymbolError
  | .nothing, _ => none
  | .present name, entry =>
      if name ∈ entry.params.map Param.name then none else some .paramNotFound
  | .absent name, entry =>
      if name ∈ entry.params.map Param.name then some .alreadyStored else none

/-- The entry is as demanded. -/
def Demand.Met (demand : Demand) (entry : Symbol) : Prop :=
  demand.kind.fault? entry = none ∧ demand.param.fault? entry = none

/-- The entry of a name is listed in a table. -/
def SymbolTable.HasEntry (table : SymbolTable) (name : String) (entry : Symbol) : Prop :=
  entry ∈ table.symbols ∧ entry.name = name

/-- Why an operation on a name fails: there is no entry, or it denotes something else, or it has
other parameters.
-/
inductive Demand.Refuses (demand : Demand) (table : SymbolTable) (name : String)
    : SymbolError → Prop where
  | noEntry : (∀ entry, ¬table.HasEntry name entry) → demand.Refuses table name .itemNotFound
  | kind {entry : Symbol} {error : SymbolError}
      : table.HasEntry name entry → demand.kind.fault? entry = some error →
        demand.Refuses table name error
  | param {entry : Symbol} {error : SymbolError}
      : table.HasEntry name entry → demand.kind.fault? entry = none →
        demand.param.fault? entry = some error → demand.Refuses table name error

/-- What can be stored in an entry. -/
inductive Setter where
  | kind (kind : SymbolKind)
  | initialized (initialized : Bool)
  | mutable (mutable : Bool)
  | nilable (nilable : Bool)
  | defined (defined : Bool)
  | returnType (kind : SymbolKind) (nilable : Bool)
  | addParam (param : Param)
  | paramKind (param : String) (kind : SymbolKind)
  | paramLabel (param label : String)
  | paramNilable (param : String) (nilable : Bool)

/-- What can be read from an entry. -/
inductive Getter : Type → Type where
  | kind : Getter SymbolKind
  | initialized : Getter Bool
  | mutable : Getter Bool
  | nilable : Getter Bool
  | defined : Getter Bool
  | returnType : Getter (SymbolKind × Bool)
  | param (param : String) : Getter Param
  | paramKind (param : String) : Getter SymbolKind
  | paramLabel (param : String) : Getter String
  | paramNilable (param : String) : Getter Bool

/-- An entry with a change of its first parameter of some name. -/
def Symbol.writeParam (entry : Symbol) (name : String) (change : Param → Param) : Symbol :=
  { entry with params := entry.params.modify (entry.params.findIdx (·.name = name)) change }

namespace Setter

/-- The operation on a table. -/
def apply (table : SymbolTable) (name : String) : Setter → Call SymbolTable
  | .kind value => table.setKind name value
  | .initialized value => table.setInitialized name value
  | .mutable value => table.setMutable name value
  | .nilable value => table.setNilable name value
  | .defined value => table.setDefined name value
  | .returnType value mayBeNil => table.setReturn name value mayBeNil
  | .addParam added => table.addParam name added
  | .paramKind param value => table.setParamKind name param value
  | .paramLabel param value => table.setParamLabel name param value
  | .paramNilable param value => table.setParamNilable name param value

/-- What has to hold of the entry. -/
def demand : Setter → Demand
  | .kind _ | .initialized _ => {}
  | .mutable _ | .nilable _ => { kind := .variable }
  | .defined _ | .returnType _ _ => { kind := .function }
  | .addParam added => { kind := .function, param := .absent added.name }
  | .paramKind param _ | .paramLabel param _ | .paramNilable param _ =>
      { kind := .function, param := .present param }

/-- What becomes of an entry: one field of it, or of one parameter, is another. -/
def write (entry : Symbol) : Setter → Symbol
  | .kind value => { entry with kind := value }
  | .initialized value => { entry with initialized := value }
  | .mutable value => { entry with mutable := value }
  | .nilable value => { entry with nilable := value }
  | .defined value => { entry with defined := value }
  | .returnType value mayBeNil => { entry with returnKind := value, returnNilable := mayBeNil }
  | .addParam added => { entry with params := entry.params ++ [added] }
  | .paramKind name value => entry.writeParam name fun param => { param with kind := value }
  | .paramLabel name value => entry.writeParam name fun param => { param with label := value }
  | .paramNilable name value => entry.writeParam name fun param => { param with nilable := value }

/-- The getter for what was stored gives it back. -/
def ReadsBack (table : SymbolTable) (name : String) : Setter → Prop
  | .kind value => table.getKind name = .ok value
  | .initialized value => table.getInitialized name = .ok value
  | .mutable value => table.getMutable name = .ok value
  | .nilable value => table.getNilable name = .ok value
  | .defined value => table.getDefined name = .ok value
  | .returnType value mayBeNil => table.getReturn name = .ok (value, mayBeNil)
  | .addParam added => table.getParam name added.name = .ok added
  | .paramKind param value => table.getParamKind name param = .ok value
  | .paramLabel param value => table.getParamLabel name param = .ok value
  | .paramNilable param value => table.getParamNilable name param = .ok value

end Setter

namespace Getter

/-- The operation on a table. -/
def ask {Value : Type} (table : SymbolTable) (name : String)
    : Getter Value → Except SymbolError Value
  | .kind => table.getKind name
  | .initialized => table.getInitialized name
  | .mutable => table.getMutable name
  | .nilable => table.getNilable name
  | .defined => table.getDefined name
  | .returnType => table.getReturn name
  | .param sought => table.getParam name sought
  | .paramKind sought => table.getParamKind name sought
  | .paramLabel sought => table.getParamLabel name sought
  | .paramNilable sought => table.getParamNilable name sought

/-- What has to hold of the entry. -/
def demand {Value : Type} : Getter Value → Demand
  | .kind | .initialized => {}
  | .mutable | .nilable => { kind := .variable }
  | .defined | .returnType => { kind := .function }
  | .param sought | .paramKind sought | .paramLabel sought | .paramNilable sought =>
      { kind := .function, param := .present sought }

/-- What an entry holds. -/
def value? {Value : Type} (entry : Symbol) : Getter Value → Option Value
  | .kind => some entry.kind
  | .initialized => some entry.initialized
  | .mutable => some entry.mutable
  | .nilable => some entry.nilable
  | .defined => some entry.defined
  | .returnType => some (entry.returnKind, entry.returnNilable)
  | .param sought => entry.params.find? (·.name = sought)
  | .paramKind sought => (entry.params.find? (·.name = sought)).map Param.kind
  | .paramLabel sought => (entry.params.find? (·.name = sought)).map Param.label
  | .paramNilable sought => (entry.params.find? (·.name = sought)).map Param.nilable

end Getter

-----------------------------------------------------------------------------------------
-- What the operations do to an entry
-----------------------------------------------------------------------------------------

/-- A change of an entry that is as demanded; any other entry is refused and left alone. -/
def Demand.guard (demand : Demand) (change : Symbol → Symbol) (entry : Symbol) : Call Symbol :=
  (demand.kind.fault? entry).elim
    ((demand.param.fault? entry).elim (.done (change entry)) (.fail · entry)) (.fail · entry)

section Guard

variable {demand : Demand} {change : Symbol → Symbol} {entry : Symbol} {error : SymbolError}

theorem Demand.guard_eq_done (passed : (demand.guard change entry).answer = .ok ())
    : demand.Met entry ∧ demand.guard change entry = .done (change entry) := by
  unfold guard Met at *
  cases kind : demand.kind.fault? entry <;> cases param : demand.param.fault? entry <;>
    simp_all [Call.done, Call.fail]

theorem Demand.guard_fails_iff
    : (demand.guard change entry).answer = .error error
      ↔ demand.kind.fault? entry = some error
        ∨ demand.kind.fault? entry = none ∧ demand.param.fault? entry = some error := by
  unfold guard
  cases demand.kind.fault? entry <;> cases demand.param.fault? entry <;>
    simp [Call.done, Call.fail]

theorem Demand.after_guard_of_error (fails : (demand.guard change entry).answer = .error error)
    : (demand.guard change entry).after = entry := by
  unfold guard at *
  cases kind : demand.kind.fault? entry with
  | some fault => rfl
  | none =>
      cases param : demand.param.fault? entry with
      | some fault => rfl
      | none => simp [kind, param, Call.done] at fails

end Guard

namespace SymbolTable

variable {table : SymbolTable} {name : String} {change : Symbol → Call Symbol} {error : SymbolError}

/-- A call fails for a name that is not stored, or in its work on the entry. -/
theorem update_fails_iff
    : (table.update name change).answer = .error error
      ↔ table.find? name = none ∧ error = .itemNotFound
        ∨ ∃ entry, table.find? name = some entry ∧ (change entry).answer = .error error := by
  unfold update find?
  cases Slots.find? table.slots name <;> simp [Call.fail, eq_comm]

/-- A call that succeeds puts what it makes of an entry in the slot where it was. -/
theorem update_eq_done (succeeds : (table.update name change).answer = .ok ())
    : ∃ index entry, Slots.find? table.slots name = some (index, entry)
        ∧ (change entry).answer = .ok ()
        ∧ (table.update name change).after = { table with
            slots := table.slots.setIfInBounds index (.occupied (change entry).after) } := by
  unfold update at *
  cases found : Slots.find? table.slots name with
  | none => simp [found, Call.fail] at succeeds
  | some slot =>
      simp only [found] at succeeds
      exact ⟨slot.1, slot.2, rfl, succeeds, rfl⟩

/-- A call that fails leaves the table as it was if it leaves the entry as it was. -/
theorem after_update_of_error
    (keeps : ∀ entry, (change entry).answer = .error error → (change entry).after = entry)
    (fails : (table.update name change).answer = .error error)
    : (table.update name change).after = table := by
  unfold update at *
  cases found : Slots.find? table.slots name with
  | none => rfl
  | some slot =>
      obtain ⟨index, entry⟩ := slot
      simp only [found] at fails
      have present := (Slots.getElem?_of_findFrom found).1
      have same : table.slots.setIfInBounds index (.occupied entry) = table.slots := by
        apply Array.ext_getElem?
        intro other
        by_cases isIndex : other = index
        · rw [isIndex, present]
          exact Array.getElem?_setIfInBounds_self_of_lt (Array.getElem?_eq_some_iff.mp present).1
        · exact Array.getElem?_setIfInBounds_ne (Ne.symm isIndex)
      simp only [keeps entry fails, same]

end SymbolTable

namespace Symbol

variable {entry : Symbol} {Result : Type}

theorem map_asVariable (read : Symbol → Result) (entry : Symbol)
    : read <$> entry.asVariable
      = (KindDemand.variable.fault? entry).elim (.ok (read entry)) .error := by
  by_cases isFunction : entry.kind = .function <;>
    simp [asVariable, Symbol.isFunction, KindDemand.fault?, isFunction]

theorem unlessFunction_eq (next : Call Symbol) (entry : Symbol)
    : (if entry.isFunction then .fail .itemIsFunction entry else next)
      = (KindDemand.variable.fault? entry).elim next (.fail · entry) := by
  by_cases isFunction : entry.kind = .function <;>
    simp [Symbol.isFunction, KindDemand.fault?, isFunction]

theorem ifFunction_eq (next : Call Symbol) (entry : Symbol)
    : (if entry.isFunction then next else .fail .itemNotFunction entry)
      = (KindDemand.function.fault? entry).elim next (.fail · entry) := by
  by_cases isFunction : entry.kind = .function <;>
    simp [Symbol.isFunction, KindDemand.fault?, isFunction]

theorem asFunction_bind (next : Symbol → Except SymbolError Result) (entry : Symbol)
    : entry.asFunction >>= next
      = (KindDemand.function.fault? entry).elim (next entry) .error := by
  by_cases isFunction : entry.kind = .function <;>
    simp [asFunction, Symbol.isFunction, KindDemand.fault?, isFunction, bind, Except.bind]

theorem fault?_present (name : String) (entry : Symbol)
    : (ParamDemand.present name).fault? entry
      = if (entry.param? name).isSome then none else some .paramNotFound := by
  simp [ParamDemand.fault?, param?]

theorem fault?_absent (name : String) (entry : Symbol)
    : (ParamDemand.absent name).fault? entry
      = if (entry.param? name).isSome then some .alreadyStored else none := by
  simp [ParamDemand.fault?, param?]

theorem getParam_eq (entry : Symbol) (name : String)
    : entry.getParam name = (entry.param? name).elim (.error .paramNotFound) .ok := by
  unfold getParam
  cases entry.param? name <;> rfl

theorem addParam_eq (entry : Symbol) (param : Param)
    : entry.addParam param
      = ((ParamDemand.absent param.name).fault? entry).elim
          (.done { entry with params := entry.params ++ [param] }) (.fail · entry) := by
  rw [fault?_absent, addParam]
  cases entry.param? param.name <;> rfl

/-- The first parameter of a name is at the first index with this name, by induction on the
parameters.
-/
theorem changeFirst_eq_modify (name : String) (change : Param → Param) (params : List Param)
    : changeFirst name change params
      = params.modify (params.findIdx (·.name = name)) change := by
  induction params with
  | nil => rfl
  | cons param rest ih =>
      rw [changeFirst, List.findIdx_cons]
      by_cases isFirst : param.name = name
      · simp [isFirst]
      · simp [isFirst, ih]

theorem modifyParam_eq (entry : Symbol) (name : String) (change : Param → Param)
    : entry.modifyParam name change
      = ((ParamDemand.present name).fault? entry).elim (.done (entry.writeParam name change))
          (.fail · entry) := by
  rw [fault?_present, modifyParam, changeFirst_eq_modify]
  cases entry.param? name <;> rfl

end Symbol

/-- Every setter changes an entry that is as demanded. -/
theorem Setter.apply_eq_update (setter : Setter) (table : SymbolTable) (name : String)
    : setter.apply table name
      = table.update name (setter.demand.guard fun entry => setter.write entry) := by
  cases setter with
  | kind | initialized => rfl
  | mutable | nilable =>
      exact congrArg (table.update name) (funext fun entry => Symbol.unlessFunction_eq _ entry)
  | defined | returnType =>
      exact congrArg (table.update name) (funext fun entry => Symbol.ifFunction_eq _ entry)
  | addParam added =>
      refine congrArg (table.update name) (funext fun entry => ?_)
      rw [Symbol.ifFunction_eq]
      dsimp only
      rw [Symbol.addParam_eq]
      rfl
  | paramKind param | paramLabel param | paramNilable param =>
      refine congrArg (table.update name) (funext fun entry => ?_)
      rw [Symbol.ifFunction_eq]
      dsimp only
      rw [Symbol.modifyParam_eq]
      rfl

namespace SymbolTable

variable {Value : Type} (table : SymbolTable) (name : String)

theorem map_get (read : Symbol → Value)
    : read <$> table.get name = table.get name >>= fun entry => .ok (read entry) := by
  cases table.get name <;> rfl

theorem map_getVariable (read : Symbol → Value)
    : read <$> table.getVariable name
      = table.get name >>= fun entry =>
          (KindDemand.variable.fault? entry).elim (.ok (read entry)) .error := by
  unfold getVariable
  cases table.get name with
  | error error => rfl
  | ok entry => exact entry.map_asVariable read

theorem getFunction_bind (next : Symbol → Except SymbolError Value)
    : table.getFunction name >>= next
      = table.get name >>= fun entry =>
          (KindDemand.function.fault? entry).elim (next entry) .error := by
  unfold getFunction
  cases table.get name with
  | error error => rfl
  | ok entry => exact entry.asFunction_bind next

theorem map_getFunction (read : Symbol → Value)
    : read <$> table.getFunction name
      = table.get name >>= fun entry =>
          (KindDemand.function.fault? entry).elim (.ok (read entry)) .error := by
  rw [← getFunction_bind]
  cases table.getFunction name <;> rfl

theorem getParam_eq (param : String)
    : table.getParam name param
      = table.get name >>= fun entry =>
          (KindDemand.function.fault? entry).elim
            ((entry.param? param).elim (.error .paramNotFound) .ok) .error := by
  rw [getParam, getFunction_bind]
  simp only [Symbol.getParam_eq]

theorem map_getParam (param : String) (read : Param → Value)
    : read <$> table.getParam name param
      = table.get name >>= fun entry =>
          (KindDemand.function.fault? entry).elim
            (((entry.param? param).map read).elim (.error .paramNotFound) .ok) .error := by
  rw [getParam_eq]
  cases table.get name with
  | error error => rfl
  | ok entry =>
      change read <$> Option.elim _ _ _ = Option.elim _ _ _
      cases KindDemand.function.fault? entry <;> cases entry.param? param <;> rfl

end SymbolTable

namespace Getter

variable {Value : Type}

/-- Every getter reads an entry that is as demanded. -/
theorem ask_eq (getter : Getter Value) (table : SymbolTable) (name : String)
    : getter.ask table name
      = table.get name >>= fun entry =>
          (getter.demand.kind.fault? entry).elim
            ((getter.value? entry).elim (.error .paramNotFound) .ok) .error := by
  cases getter with
  | kind | initialized => exact table.map_get name _
  | mutable | nilable => exact table.map_getVariable name _
  | defined | returnType => exact table.map_getFunction name _
  | param sought => exact table.getParam_eq name sought
  | paramKind sought | paramLabel sought | paramNilable sought =>
      exact table.map_getParam name sought _

/-- A getter finds nothing in an entry exactly if it misses the parameter. -/
theorem fault?_param (getter : Getter Value) (entry : Symbol)
    : getter.demand.param.fault? entry
      = if (getter.value? entry).isSome then none else some .paramNotFound := by
  cases getter <;> simp [demand, value?, ParamDemand.fault?]

variable {table : SymbolTable} {name : String} {entry : Symbol}

theorem ask_of_find?_none (getter : Getter Value) (absent : table.find? name = none)
    : getter.ask table name = .error .itemNotFound := by
  rw [ask_eq, SymbolTable.get, absent]
  rfl

theorem ask_of_find?_some (getter : Getter Value) (found : table.find? name = some entry)
    : getter.ask table name
      = (getter.demand.kind.fault? entry).elim
          ((getter.value? entry).elim (.error .paramNotFound) .ok) .error := by
  rw [ask_eq, SymbolTable.get, found]
  rfl

theorem ask_eq_error_iff (getter : Getter Value) {error : SymbolError}
    (found : table.find? name = some entry)
    : getter.ask table name = .error error
      ↔ getter.demand.kind.fault? entry = some error
        ∨ getter.demand.kind.fault? entry = none
          ∧ getter.demand.param.fault? entry = some error := by
  rw [getter.ask_of_find?_some found, getter.fault?_param]
  cases getter.demand.kind.fault? entry <;> cases getter.value? entry <;> simp

theorem ask_eq_ok_iff (getter : Getter Value) {value : Value}
    (found : table.find? name = some entry)
    : getter.ask table name = .ok value
      ↔ getter.demand.Met entry ∧ getter.value? entry = some value := by
  rw [getter.ask_of_find?_some found, Demand.Met, getter.fault?_param]
  cases getter.demand.kind.fault? entry <;> cases getter.value? entry <;> simp

/-- What an entry of the right sort holds is read, as a parameter that it holds is present. -/
theorem ask_eq_ok (getter : Getter Value) {value : Value} (found : table.find? name = some entry)
    (suits : getter.demand.kind.fault? entry = none) (holds : getter.value? entry = some value)
    : getter.ask table name = .ok value :=
  (getter.ask_eq_ok_iff found).mpr ⟨⟨suits, by simp [getter.fault?_param, holds]⟩, holds⟩

end Getter

namespace Symbol

variable {change : Param → Param}

/-- A change that keeps names is seen in the parameter it is about, by induction on the
parameters.
-/
theorem find?_params_writeParam (keepsName : ∀ param, (change param).name = param.name)
    (entry : Symbol) (name : String)
    : (entry.writeParam name change).params.find? (·.name = name)
      = (entry.params.find? (·.name = name)).map change := by
  unfold writeParam
  induction entry.params with
  | nil => rfl
  | cons param rest ih =>
      by_cases isFirst : param.name = name
      · simp [List.findIdx_cons, isFirst, keepsName]
      · simp only [List.findIdx_cons, isFirst, decide_false, cond_false, List.modify_succ_cons,
          List.find?_cons]
        exact ih

theorem names_writeParam (keepsName : ∀ param, (change param).name = param.name) (entry : Symbol)
    (name : String)
    : (entry.writeParam name change).params.map Param.name = entry.params.map Param.name := by
  unfold writeParam
  simp only
  generalize entry.params.findIdx (·.name = name) = index
  induction entry.params generalizing index with
  | nil => simp
  | cons param rest ih =>
      cases index with
      | zero => simp [keepsName]
      | succ index => simp [ih]

end Symbol

-----------------------------------------------------------------------------------------
-- Calls on tables
-----------------------------------------------------------------------------------------

/-- Two tables that differ in one entry. -/
structure SymbolTable.ChangesOnly (table changed : SymbolTable) (before after : Symbol) : Prop where
  slot
    : ∃ index : Nat, table.slots[index]? = some (.occupied before)
        ∧ changed.slots[index]? = some (.occupied after)
        ∧ ∀ other : Nat, other ≠ index → changed.slots[other]? = table.slots[other]?
  capacity : changed.capacity = table.capacity
  count : changed.count = table.count
  tombstones : changed.tombstones = table.tombstones
  found : changed.find? = Function.update table.find? before.name (some after)

/-- Typed access is as it should be: it fails exactly when a demand is not met, and then changes
nothing; a setter changes one field of one entry, and what it stores reads back.
-/
structure SymbolTable.TypedAccess (table : SymbolTable) : Prop where
  set_fails
    : ∀ name (setter : Setter) error,
        (setter.apply table name).answer = .error error ↔ setter.demand.Refuses table name error
  set_atomic
    : ∀ name (setter : Setter) error, (setter.apply table name).answer = .error error →
        (setter.apply table name).after = table
  set_local
    : ∀ name (setter : Setter), (setter.apply table name).answer = .ok () →
        ∃ entry, table.HasEntry name entry
          ∧ table.ChangesOnly (setter.apply table name).after entry (setter.write entry)
  set_readsBack
    : ∀ name (setter : Setter), (setter.apply table name).answer = .ok () →
        setter.ReadsBack (setter.apply table name).after name
  get_fails
    : ∀ {Value : Type} name (getter : Getter Value) error,
        getter.ask table name = .error error ↔ getter.demand.Refuses table name error
  get_answers
    : ∀ {Value : Type} name (getter : Getter Value) value,
        getter.ask table name = .ok value
          ↔ ∃ entry, table.HasEntry name entry ∧ getter.demand.Met entry
            ∧ getter.value? entry = some value

namespace Setter

variable {setter : Setter} {table : SymbolTable} {name : String}

@[simp] theorem name_write (setter : Setter) (entry : Symbol)
    : (setter.write entry).name = entry.name := by
  cases setter <;> rfl

/-- A setter that succeeds puts the changed entry in the slot where it was. -/
theorem after_apply_of_ok (succeeds : (setter.apply table name).answer = .ok ())
    : ∃ index entry, Slots.find? table.slots name = some (index, entry) ∧ setter.demand.Met entry
        ∧ (setter.apply table name).after = { table with
            slots := table.slots.setIfInBounds index (.occupied (setter.write entry)) } := by
  rw [apply_eq_update] at succeeds ⊢
  obtain ⟨index, entry, found, passed, isAfter⟩ := SymbolTable.update_eq_done succeeds
  obtain ⟨met, changed⟩ := Demand.guard_eq_done passed
  refine ⟨index, entry, found, met, isAfter.trans ?_⟩
  rw [changed]
  rfl

/-- A setter that fails refuses the entry and leaves it alone. -/
theorem after_apply_of_error {error : SymbolError}
    (fails : (setter.apply table name).answer = .error error)
    : (setter.apply table name).after = table := by
  rw [apply_eq_update] at fails ⊢
  exact SymbolTable.after_update_of_error (fun _ => Demand.after_guard_of_error) fails

theorem chained_of_apply (chained : Slots.Chained table.slots)
    (succeeds : (setter.apply table name).answer = .ok ())
    : Slots.Chained (setter.apply table name).after.slots := by
  obtain ⟨index, entry, found, _, isAfter⟩ := after_apply_of_ok succeeds
  rw [isAfter]
  exact chained.replace found (setter.name_write entry)

/-- A setter that succeeds changes the entry of its name, and nothing else. -/
theorem changesOnly_of_apply (chained : Slots.Chained table.slots)
    (succeeds : (setter.apply table name).answer = .ok ())
    : ∃ entry, table.HasEntry name entry ∧ setter.demand.Met entry
        ∧ table.ChangesOnly (setter.apply table name).after entry (setter.write entry) := by
  have after := chained_of_apply chained succeeds
  obtain ⟨index, entry, found, met, isAfter⟩ := after_apply_of_ok succeeds
  rw [isAfter] at after ⊢
  obtain ⟨present, sameName⟩ := chained.find?_eq_some_iff.mp found
  have bound := (Array.getElem?_eq_some_iff.mp present).1
  refine ⟨entry, ⟨Slots.mem_symbols_iff.mpr ⟨index, present⟩, sameName⟩, met, ?_⟩
  refine ⟨⟨index, present, ?_, ?_⟩, by simp [SymbolTable.capacity], rfl, rfl, ?_⟩
  · exact Array.getElem?_setIfInBounds_self_of_lt bound
  · intro other different
    exact Array.getElem?_setIfInBounds_ne different.symm
  · funext other
    rw [Function.update_apply, sameName]
    refine chained.lookup_set_of_find? after found ?_ other
    rintro _ ⟨⟩
    exact (setter.name_write entry).trans sameName

/-- A parameter that was there holds what the change stored in it. -/
theorem map_find?_writeParam {entry : Symbol} {param : String} {change : Param → Param}
    {Value : Type} {read : Param → Value} {value : Value}
    (keepsName : ∀ param, (change param).name = param.name)
    (stores : ∀ param, read (change param) = value)
    (present : (ParamDemand.present param).fault? entry = none)
    : ((entry.writeParam param change).params.find? (·.name = param)).map read = some value := by
  rw [Symbol.find?_params_writeParam keepsName]
  rw [Symbol.fault?_present, Symbol.param?] at present
  cases found : entry.params.find? (·.name = param) with
  | none => simp [found] at present
  | some old => simp [stores]

/-- What was stored in an entry that was as demanded reads back. -/
theorem readsBack {entry : Symbol} (met : setter.demand.Met entry)
    (found : table.find? name = some (setter.write entry))
    : setter.ReadsBack table name := by
  cases setter with
  | kind value => exact Getter.ask_eq_ok .kind found rfl rfl
  | initialized value => exact Getter.ask_eq_ok .initialized found rfl rfl
  | mutable value => exact Getter.ask_eq_ok .mutable found met.1 rfl
  | nilable value => exact Getter.ask_eq_ok .nilable found met.1 rfl
  | defined value => exact Getter.ask_eq_ok .defined found met.1 rfl
  | returnType value mayBeNil => exact Getter.ask_eq_ok .returnType found met.1 rfl
  | addParam added =>
      have absent : entry.params.find? (·.name = added.name) = none := by
        have noFault := met.2
        simp only [demand, Symbol.fault?_absent] at noFault
        simpa [Symbol.param?] using noFault
      refine Getter.ask_eq_ok (.param added.name) found met.1 ?_
      simp only [Getter.value?, write, List.find?_append, absent]
      simp
  | paramKind param value =>
      exact Getter.ask_eq_ok (.paramKind param) found met.1
        (map_find?_writeParam (fun _ => rfl) (fun _ => rfl) met.2)
  | paramLabel param value =>
      exact Getter.ask_eq_ok (.paramLabel param) found met.1
        (map_find?_writeParam (fun _ => rfl) (fun _ => rfl) met.2)
  | paramNilable param value =>
      exact Getter.ask_eq_ok (.paramNilable param) found met.1
        (map_find?_writeParam (fun _ => rfl) (fun _ => rfl) met.2)

end Setter

namespace SymbolTable

variable {table : SymbolTable} {name : String}

/-- Refusals, as seen in what a search finds. -/
theorem refuses_iff (chained : Slots.Chained table.slots) {demand : Demand} {error : SymbolError}
    : demand.Refuses table name error
      ↔ table.find? name = none ∧ error = .itemNotFound
        ∨ ∃ entry, table.find? name = some entry
          ∧ (demand.kind.fault? entry = some error
            ∨ demand.kind.fault? entry = none ∧ demand.param.fault? entry = some error) := by
  constructor
  · rintro (noEntry | ⟨hasEntry, fault⟩ | ⟨hasEntry, suits, fault⟩)
    · refine .inl ⟨(find?_eq_none_iff_of_chained chained).mpr ?_, rfl⟩
      intro entry listed sameName
      exact noEntry entry ⟨listed, sameName⟩
    · exact .inr ⟨_, (find?_eq_some_iff_of_chained chained).mpr hasEntry, .inl fault⟩
    · exact .inr ⟨_, (find?_eq_some_iff_of_chained chained).mpr hasEntry, .inr ⟨suits, fault⟩⟩
  · rintro (⟨absent, rfl⟩ | ⟨entry, found, fault | ⟨suits, fault⟩⟩)
    · refine .noEntry ?_
      rintro entry ⟨listed, sameName⟩
      exact (find?_eq_none_iff_of_chained chained).mp absent entry listed sameName
    · exact .kind ((find?_eq_some_iff_of_chained chained).mp found) fault
    · exact .param ((find?_eq_some_iff_of_chained chained).mp found) suits fault

theorem typedAccess_of_chained (chained : Slots.Chained table.slots) : table.TypedAccess where
  set_fails name setter error := by
    rw [Setter.apply_eq_update, update_fails_iff, refuses_iff chained]
    simp only [Demand.guard_fails_iff]
  set_atomic name setter error fails := Setter.after_apply_of_error fails
  set_local name setter succeeds := by
    obtain ⟨entry, hasEntry, _, changes⟩ := Setter.changesOnly_of_apply chained succeeds
    exact ⟨entry, hasEntry, changes⟩
  set_readsBack name setter succeeds := by
    obtain ⟨entry, hasEntry, met, changes⟩ := Setter.changesOnly_of_apply chained succeeds
    refine Setter.readsBack met ?_
    rw [changes.found, hasEntry.2, Function.update_self]
  get_fails name getter error := by
    rw [refuses_iff chained]
    cases found : table.find? name with
    | none => simp [getter.ask_of_find?_none found, eq_comm]
    | some entry => simp [getter.ask_eq_error_iff found]
  get_answers name getter value := by
    simp only [HasEntry, ← find?_eq_some_iff_of_chained chained]
    cases found : table.find? name with
    | none => simp [getter.ask_of_find?_none found]
    | some entry => simp [getter.ask_eq_ok_iff found]

end SymbolTable

end ExprCompiler

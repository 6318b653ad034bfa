import ExprCompiler.Report.Code
import ExprCompiler.Source.Token

/-! Declared names: what each denotes, and what can go wrong when one is used. -/

namespace ExprCompiler

/-- What a name denotes; for a variable, the type of its values. -/
inductive SymbolKind where
  | function | integer | double | string | nil | bool | constant | undefined
deriving DecidableEq, Repr, Inhabited

namespace SymbolKind

/-- Every kind. -/
def all : List SymbolKind :=
  [.function, .integer, .double, .string, .nil, .bool, .constant, .undefined]

/-- The kind of a variable declared with a named type. -/
def ofBaseType : BaseType → SymbolKind
  | .int => .integer
  | .double => .double
  | .string => .string

end SymbolKind

/-- A parameter: its name inside the function, the label callers write, and its type. -/
structure Param where
  name : String
  label : String
  kind : SymbolKind := .undefined
  nilable : Bool := false
deriving DecidableEq, Repr, Inhabited

/-- A declared name. The number `uid` tells it from all other names of a run, also from those
spelled alike.
-/
structure Symbol where
  name : String
  uid : UInt32
  kind : SymbolKind := .undefined
  /-- Declared as a variable rather than a constant. -/
  mutable : Bool := false
  /-- May hold nil. -/
  nilable : Bool := false
  /-- Has a value. -/
  initialized : Bool := false
  /-- The body of the function has been seen. -/
  defined : Bool := false
  params : List Param := []
  returnKind : SymbolKind := .undefined
  returnNilable : Bool := false
deriving DecidableEq, Repr, Inhabited

namespace Symbol

/-- Whether the name denotes a function. -/
def isFunction (symbol : Symbol) : Bool :=
  symbol.kind = .function

/-- The parameter with this name. -/
def param? (symbol : Symbol) (name : String) : Option Param :=
  symbol.params.find? (·.name = name)

end Symbol

/-- Why an operation on declared names fails. -/
inductive SymbolError where
  | itemNotFound
  | alreadyStored
  | itemNotFunction
  | itemIsFunction
  | paramNotFound
  | notInitialized
  | capacityExhausted
deriving DecidableEq, Repr, Inhabited

namespace SymbolError

/-- What the reader is told. -/
def message : SymbolError → String
  | .itemNotFound => "item not found"
  | .alreadyStored => "item already stored"
  | .itemNotFunction => "item is not a function"
  | .itemIsFunction => "item is a function"
  | .paramNotFound => "parameter not found"
  | .notInitialized => "scope stack is empty"
  | .capacityExhausted => "no free slot along the probe sequence"

/-- The error code of the failure. -/
def code : SymbolError → ErrorCode
  | .itemNotFound => .undefinedVariable
  | .alreadyStored => .undefinedFunction
  | .itemNotFunction | .itemIsFunction | .paramNotFound => .semantic
  | .notInitialized | .capacityExhausted => .internal

end SymbolError

/-- A call that may change a state: its answer, and the state that it leaves, also if it fails. -/
structure Call (State : Type) where
  answer : Except SymbolError Unit
  after : State

namespace Call

variable {State : Type}

/-- The call succeeds. -/
def done (after : State) : Call State :=
  { answer := .ok (), after }

/-- The call fails. -/
def fail (error : SymbolError) (after : State) : Call State :=
  { answer := .error error, after }

/-- The state after a call that succeeds. -/
def result (call : Call State) : Except SymbolError State :=
  match call.answer with
  | .ok () => .ok call.after
  | .error error => .error error

instance : Coe (Call State) (Except SymbolError State) where
  coe := result

end Call

end ExprCompiler

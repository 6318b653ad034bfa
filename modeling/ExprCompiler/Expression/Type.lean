import ExprCompiler.Names.Symbol

/-! Types of expressions. -/

namespace ExprCompiler

/-- The type of a value apart from the question whether it may be nil. -/
inductive ValueType where
  | int | double | string | bool
  /-- The type of the literal nil. -/
  | nil
  /-- Not known, after an error or for a name without a value type. -/
  | undefined
deriving DecidableEq, Repr, Inhabited

namespace ValueType

/-- How messages name a type. -/
def text : ValueType → String
  | .int => "Int"
  | .double => "Double"
  | .string => "String"
  | .bool => "Bool"
  | .nil => "nil"
  | .undefined => "<undefined>"

/-- Whether the values are numbers. -/
def isNumeric : ValueType → Bool
  | .int | .double => true
  | _ => false

/-- Whether the values have an order. -/
def isOrdered : ValueType → Bool
  | .int | .double | .string => true
  | _ => false

/-- The type of a variable of some kind. -/
def ofSymbolKind : SymbolKind → ValueType
  | .integer => .int
  | .double => .double
  | .string => .string
  | .bool => .bool
  | .nil => .nil
  | .function | .constant | .undefined => .undefined

end ValueType

/-- The type of an expression. -/
structure ExprType where
  base : ValueType
  nilable : Bool := false
deriving DecidableEq, Repr, Inhabited

namespace ExprType

/-- The type of the literal nil. -/
def nil : ExprType := ⟨.nil, true⟩

/-- No type is known. -/
def undefined : ExprType := ⟨.undefined, false⟩

/-- Whether the value may be nil when the program runs. -/
def mayBeNil (type : ExprType) : Bool :=
  type.nilable || type.base = .nil

/-- Whether the value can only be nil. -/
def isNilLiteral (type : ExprType) : Bool :=
  type.base = .nil

/-- The same type without nil. -/
def unwrapped (type : ExprType) : ExprType :=
  ⟨type.base, false⟩

/-- How messages name a type. -/
def text (type : ExprType) : String :=
  type.base.text ++ (if type.nilable && type.base ≠ .nil then "?" else "")

end ExprType

end ExprCompiler

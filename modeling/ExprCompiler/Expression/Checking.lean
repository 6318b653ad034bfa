import ExprCompiler.Expression.Stack
import ExprCompiler.Names.Scope
import ExprCompiler.Report.Code

/-! Type rules. Each checks one reduction and gives its type and code, or the reason why the
operands do not fit. Numbers mix, the integer becoming a float first; nothing else converts.
-/

namespace ExprCompiler

/-- Why operands do not fit. -/
inductive TypeFault where
  | undefinedVariable (name : String)
  | functionAsValue (name : String)
  | unwrapNil
  | nilOperand (op : Arithmetic) (left right : ExprType)
  | notApplicable (op : Arithmetic) (left right : ExprType)
  | divisionByZero
  | notOptional (left : ExprType)
  | coalesceMismatch (left right : ExprType)
  | notComparable (op : CompareOp) (left right : ExprType)
deriving DecidableEq, Repr, Inhabited

namespace TypeFault

/-- The error code of a fault. -/
def code : TypeFault → ErrorCode
  | .undefinedVariable _ => .undefinedVariable
  | .functionAsValue _ | .divisionByZero => .semantic
  | _ => .incompatibleTypes

/-- What the reader is told. -/
def message : TypeFault → String
  | .undefinedVariable name => "use of undefined or uninitialized variable `" ++ name ++ "`"
  | .functionAsValue name => "function `" ++ name ++ "` used as a value"
  | .unwrapNil => "cannot force-unwrap `nil`"
  | .nilOperand op left right =>
      "operand of `" ++ op.text ++ "` may be nil (" ++ left.text ++ " " ++ op.text ++ " "
        ++ right.text ++ ")"
  | .notApplicable op left right =>
      "cannot apply `" ++ op.text ++ "` to " ++ left.text ++ " and " ++ right.text
  | .divisionByZero => "division by zero"
  | .notOptional left => "left operand of `??` must be optional, found " ++ left.text
  | .coalesceMismatch left right =>
      "operands of `??` have different types (" ++ left.text ++ " and " ++ right.text ++ ")"
  | .notComparable op left right =>
      "cannot compare " ++ left.text ++ " and " ++ right.text ++ " with `" ++ op.text ++ "`"

/-- What stands in for the faulty expression. A division by zero has the type of a quotient;
everything else silences the checks around it.
-/
def fallback : TypeFault → Reduced
  | .divisionByZero => { type := ⟨.double, false⟩ }
  | _ => .placeholder

end TypeFault

/-- A reduction that fits: its operand and the code for it. -/
structure Checked where
  operand : Reduced
  code : List Instruction
deriving DecidableEq, Repr, Inhabited

/-- A result of the given type. -/
def Checked.ofType (type : ExprType) (code : List Instruction) : Checked where
  operand := { type }
  code := code

/-- A name stands for the innermost variable that has a value. -/
def checkName (scopes : ScopeStack) (name : String) : Except TypeFault Checked :=
  match scopes.getInitialized name with
  | .error _ => .error (.undefinedVariable name)
  | .ok (symbol, depth) =>
      if symbol.isFunction then .error (.functionAsValue name)
      else
        .ok
          (.ofType ⟨.ofSymbolKind symbol.kind, symbol.nilable⟩
            [.push (.variable name symbol.uid (depth = 0))])

/-- The value of a literal or a name. -/
def checkPrimary (scopes : ScopeStack) : Primary → Except TypeFault Checked
  | .int value =>
      .ok {
        operand := { type := ⟨.int, false⟩, literalZero := value = 0 }
        code := [.push (.int value)]
      }
  | .double value =>
      .ok {
        operand := { type := ⟨.double, false⟩, literalZero := value.isZero }
        code := [.push (.double value)]
      }
  | .string text => .ok (.ofType ⟨.string, false⟩ [.push (.string text)])
  | .nil => .ok (.ofType .nil [.push .nil])
  | .name name => checkName scopes name

/-- The exclamation mark after an operand takes nil out of its type. -/
def checkNotNil (operand : Reduced) : Except TypeFault Checked :=
  if operand.poisoned then .ok { operand, code := [] }
  else if operand.type.isNilLiteral then .error .unwrapNil
  else .ok (.ofType operand.type.unwrapped [])

/-- The instruction of an arithmetic operation. -/
def Arithmetic.instruction (op : Arithmetic) (onInts : Bool) : Instruction :=
  match op with
  | .add => .arith .add onInts
  | .subtract => .arith .subtract onInts
  | .multiply => .arith .multiply onInts
  | .divide => .arith (if onInts then .divideInts else .divideFloats) onInts

/-- The conversion that two numbers need before an operation on floats. -/
def conversion (left right : ValueType) : List Instruction :=
  match left, right with
  | .int, .int => []
  | _, .int => [.intToFloatTop]
  | .int, _ => [.intToFloatSecond]
  | _, _ => []

/-- Arithmetic needs two numbers, or two strings to join. -/
def checkArithmetic (op : Arithmetic) (left right : Reduced) : Except TypeFault Checked :=
  let leftBase := left.type.base
  let rightBase := right.type.base
  if left.type.mayBeNil || right.type.mayBeNil then
    .error (.nilOperand op left.type right.type)
  else if leftBase = .string ∧ rightBase = .string ∧ op = .add then
    .ok (.ofType ⟨.string, false⟩ [.concat])
  else if !leftBase.isNumeric || !rightBase.isNumeric then
    .error (.notApplicable op left.type right.type)
  else if op = .divide ∧ right.literalZero then .error .divisionByZero
  else
    let onInts : Bool := leftBase = .int ∧ rightBase = .int
    .ok
      (.ofType ⟨if onInts then .int else .double, false⟩
        (conversion leftBase rightBase ++ [op.instruction onInts]))

/-- A nil check needs an optional on the left, and on the right a value for it. -/
def checkCoalesce (left right : ExprType) : Except TypeFault Checked :=
  if !left.mayBeNil then .error (.notOptional left)
  else if !left.isNilLiteral && left.base ≠ right.base then
    .error (.coalesceMismatch left right)
  else .ok (.ofType right [.coalesce])

/-- Whether two values can be told apart: they have one type, or one is nil and the other
may be.
-/
def areEquatable (left right : ExprType) : Bool :=
  left.base = right.base || (left.isNilLiteral && right.mayBeNil)
    || (right.isNilLiteral && left.mayBeNil)

/-- Whether two values can be put in order: they have one ordered type, and neither may be
nil.
-/
def areOrdered (left right : ExprType) : Bool :=
  left.base.isOrdered && left.base = right.base && !left.mayBeNil && !right.mayBeNil

/-- A comparison for equality needs operands that can be told apart, any other one operands
that can be put in order.
-/
def checkCompare (op : CompareOp) (left right : ExprType) : Except TypeFault Checked :=
  let fits :=
    match op with
    | .equal | .notEqual => areEquatable left right
    | .less | .lessEqual | .greater | .greaterEqual => areOrdered left right
  if fits then .ok (.ofType ⟨.bool, false⟩ [.compare op])
  else .error (.notComparable op left right)

/-- A binary operator. After an operand that was wrong nothing is checked. -/
def checkBinary (op : BinaryOperator) (left right : Reduced) : Except TypeFault Checked :=
  if left.poisoned || right.poisoned then .ok { operand := .placeholder, code := [] }
  else
    match op with
    | .arithmetic op => checkArithmetic op left right
    | .coalesce => checkCoalesce left.type right.type
    | .compare op => checkCompare op left.type right.type

end ExprCompiler

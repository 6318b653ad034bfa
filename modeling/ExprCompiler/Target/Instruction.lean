import ExprCompiler.Number.Double

/-! Instructions for a machine with a data stack. An expression becomes a list of them that
leaves its value on top.
-/

namespace ExprCompiler

/-- A value to push: a constant, or a variable known by its name and number. -/
inductive Operand where
  | int (value : Int64)
  | double (value : Double)
  | string (text : String)
  | nil
  | variable (name : String) (uid : UInt32) (global : Bool)
deriving DecidableEq, Repr, Inhabited

/-- Arithmetic on the two values on top. -/
inductive ArithOp where
  | add | subtract | multiply | divideFloats | divideInts
deriving DecidableEq, Repr, Inhabited

/-- The sign of an arithmetic operation. -/
def ArithOp.text : ArithOp → String
  | .add => "+"
  | .subtract => "-"
  | .multiply => "*"
  | .divideFloats | .divideInts => "/"

/-- Comparisons of the two values on top. -/
inductive CompareOp where
  | less | lessEqual | greater | greaterEqual | equal | notEqual
deriving DecidableEq, Repr, Inhabited

/-- The sign of a comparison. -/
def CompareOp.text : CompareOp → String
  | .less => "<"
  | .lessEqual => "<="
  | .greater => ">"
  | .greaterEqual => ">="
  | .equal => "=="
  | .notEqual => "!="

/-- One operation on the data stack. -/
inductive Instruction where
  | push (operand : Operand)
  /-- Replaces two numbers by the result; `onInts` says that both are integers. -/
  | arith (op : ArithOp) (onInts : Bool)
  | compare (op : CompareOp)
  /-- Replaces two strings by one. -/
  | concat
  /-- Turns the integer on top into a float. -/
  | intToFloatTop
  /-- Turns the integer below the top into a float. -/
  | intToFloatSecond
  /-- Drops the value on top, unless the one below is nil, which is dropped then. -/
  | coalesce
deriving DecidableEq, Repr, Inhabited

end ExprCompiler

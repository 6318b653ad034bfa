import ExprCompiler.Target.Assembly
import ExprCompiler.Target.Instruction

/-! Instructions as lines of assembly. Some instructions become several lines, which share
three helper variables; a nil check becomes a branch in a frame of its own, with labels that
are numbered through the program.
-/

namespace ExprCompiler

open Assembly

namespace Assembly

/-- The helper variable for a first argument. -/
def firstParam : Variable := ⟨.globals, "?PARAM_1"⟩

/-- The helper variable for a second argument. -/
def secondParam : Variable := ⟨.globals, "?PARAM_2"⟩

/-- The helper variable for a result. -/
def result : Variable := ⟨.globals, "?RESULT_1"⟩

/-- The left operand of a nil check, in its own frame. -/
def leftOperand : Variable := ⟨.locals, "op_1"⟩

/-- The right operand of a nil check, in its own frame. -/
def rightOperand : Variable := ⟨.locals, "op_2"⟩

/-- The lines before all code: the header and the helper variables. -/
def prolog : List Line :=
  [.header, .defVar firstParam, .defVar secondParam, .defVar result]

end Assembly

/-- A pushed value as an operand. The number of a variable keeps it apart from variables of
the same name.
-/
def Operand.symb : Operand → Symb
  | .int value => .int value
  | .double value => .float value
  | .string text => .string text
  | .nil => .nil
  | .variable name uid global =>
      .variable ⟨if global then .globals else .locals, name ++ "_" ++ Nat.repr uid.toNat⟩

/-- The line of an arithmetic operation. -/
def ArithOp.line : ArithOp → Line
  | .add => .add
  | .subtract => .subtract
  | .multiply => .multiply
  | .divideFloats => .divide
  | .divideInts => .divideInts

/-- The lines of a comparison. The machine has three; the others are their negations. -/
def CompareOp.lines : CompareOp → List Line
  | .less => [.less]
  | .greater => [.greater]
  | .equal => [.equal]
  | .lessEqual => [.greater, .not]
  | .greaterEqual => [.less, .not]
  | .notEqual => [.equal, .not]

/-- The lines of a nil check: the left operand stays unless it is nil. -/
def coalesceLines (branch : UInt32) : List Line :=
  [.createFrame, .pushFrame, .defVar rightOperand, .pop rightOperand, .defVar leftOperand,
    .pop leftOperand, .push .nil, .push (.variable leftOperand)]
  ++ CompareOp.notEqual.lines
  ++ [.push (.bool true), .jumpIfNotEqual (.otherwise branch),
    .push (.variable leftOperand), .jump (.finish branch), .label (.otherwise branch),
    .push (.variable rightOperand), .label (.finish branch), .popFrame]

namespace Instruction

/-- The lines of an instruction; `branch` numbers the labels of a nil check. -/
def lines (branch : UInt32) : Instruction → List Line
  | .push operand => [.push operand.symb]
  | .arith op _ => [op.line]
  | .compare op => op.lines
  | .concat =>
      [.pop secondParam, .pop firstParam, .concat result firstParam secondParam,
        .push (.variable result)]
  | .intToFloatTop => [.intToFloat]
  | .intToFloatSecond => [.pop secondParam, .intToFloat, .push (.variable secondParam)]
  | .coalesce => coalesceLines branch

/-- The branch number after an instruction: a nil check uses one up. -/
def nextBranch (branch : UInt32) : Instruction → UInt32
  | .coalesce => branch + 1
  | _ => branch

/-- The lines of several instructions, with branches numbered from `branch` on. -/
def linesOf : UInt32 → List Instruction → List Line
  | _, [] => []
  | branch, instruction :: rest =>
      instruction.lines branch ++ linesOf (instruction.nextBranch branch) rest

/-- The branch number after several instructions. -/
def branchAfter (branch : UInt32) (code : List Instruction) : UInt32 :=
  code.foldl nextBranch branch

end Instruction

end ExprCompiler

import ExprCompiler.Number.Hexadecimal

/-! Lines of IFJcode23 assembly. A line is an operation and its operands, with one space
before each operand. Constants carry their type in front, and text escapes every character
that could end a word or start a comment.
-/

namespace ExprCompiler.Assembly

/-- Where a variable lives: for the whole program, or in the topmost local frame. -/
inductive Frame where
  | globals | locals
deriving DecidableEq, Repr, Inhabited

/-- The mark of a frame in front of a variable. -/
def Frame.text : Frame → String
  | .globals => "GF"
  | .locals => "LF"

/-- A variable of the machine. -/
structure Variable where
  frame : Frame
  name : String
deriving DecidableEq, Repr, Inhabited

/-- A variable as an operand. -/
def Variable.text (var : Variable) : String :=
  var.frame.text ++ "@" ++ var.name

/-- A place to jump to, in the branch with the given number. -/
inductive Label where
  | otherwise (branch : UInt32)
  | finish (branch : UInt32)
deriving DecidableEq, Repr, Inhabited

/-- A label as an operand. -/
def Label.text : Label → String
  | .otherwise branch => "$$ELSE_" ++ Nat.repr branch.toNat
  | .finish branch => "$$IF_END_" ++ Nat.repr branch.toNat

/-- A value that an operation reads. -/
inductive Symb where
  | int (value : Int64)
  | float (value : Double)
  | string (text : String)
  | bool (value : Bool)
  | nil
  | variable (var : Variable)
deriving DecidableEq, Repr, Inhabited

/-- A character of a text constant. Blanks, control characters, the comment sign and the
backslash are written as three decimal digits after a backslash.
-/
def escapeChar (char : Char) : String :=
  if char.toNat ≤ 32 ∨ char = '#' ∨ char = '\\' then
    let digits := Nat.toDigits 10 char.toNat
    String.ofList ('\\' :: List.replicate (3 - digits.length) '0' ++ digits)
  else char.toString

/-- A text constant without its type. -/
def escapeText (text : String) : String :=
  String.join (text.toList.map escapeChar)

/-- A value as an operand. -/
def Symb.text : Symb → String
  | .int value => "int@" ++ toString value.toInt
  | .float value => "float@" ++ value.hexText
  | .string text => "string@" ++ escapeText text
  | .bool value => "bool@" ++ (if value then "true" else "false")
  | .nil => "nil@nil"
  | .variable var => var.text

/-- One line of assembly. -/
inductive Line where
  | header
  | defVar (var : Variable)
  | clearStack
  | push (symb : Symb)
  | pop (var : Variable)
  | add | subtract | multiply | divide | divideInts
  | less | greater | equal | not
  | intToFloat
  | concat (target left right : Variable)
  | createFrame | pushFrame | popFrame
  | label (place : Label)
  | jump (place : Label)
  | jumpIfNotEqual (place : Label)
deriving DecidableEq, Repr, Inhabited

/-- The words of a line: the operation, then its operands. -/
def Line.words : Line → List String
  | .header => [".IFJcode23"]
  | .defVar var => ["DEFVAR", var.text]
  | .clearStack => ["CLEARS"]
  | .push symb => ["PUSHS", symb.text]
  | .pop var => ["POPS", var.text]
  | .add => ["ADDS"]
  | .subtract => ["SUBS"]
  | .multiply => ["MULS"]
  | .divide => ["DIVS"]
  | .divideInts => ["IDIVS"]
  | .less => ["LTS"]
  | .greater => ["GTS"]
  | .equal => ["EQS"]
  | .not => ["NOTS"]
  | .intToFloat => ["INT2FLOATS"]
  | .concat target left right => ["CONCAT", target.text, left.text, right.text]
  | .createFrame => ["CREATEFRAME"]
  | .pushFrame => ["PUSHFRAME"]
  | .popFrame => ["POPFRAME"]
  | .label place => ["LABEL", place.text]
  | .jump place => ["JUMP", place.text]
  | .jumpIfNotEqual place => ["JUMPIFNEQS", place.text]

/-- A line without its newline. -/
def Line.text (line : Line) : String :=
  String.intercalate " " line.words

/-- The text of a program: every line ends with a newline. -/
def render (lines : List Line) : String :=
  String.join (lines.map fun line => line.text ++ "\n")

end ExprCompiler.Assembly

import ExprCompiler.Expression.Checking
import ExprCompiler.Report.Diagnostic
import ExprCompiler.Source.Listing

/-! Handles and what they reduce to. A handle that has the shape of a production is checked by
its type rule; any other is reported, unless it holds an operand that was reported before.
-/

namespace ExprCompiler

/-- What can be wrong with the form of an expression. -/
inductive ParseFault where
  | missingRightParen
  | unexpectedEnd
  | missingLeftParen
  | missingOperator
  | unexpected (kind : TokenKind)
  | missingOperand
  | missingSecondOperand
  | missingFirstOperand
  | unexpectedTerminal
  | expectedExpression
deriving DecidableEq, Repr, Inhabited

/-- What the reader is told. -/
def ParseFault.message : ParseFault → String
  | .missingRightParen => "missing right parenthesis"
  | .unexpectedEnd => "unexpected end of expression"
  | .missingLeftParen => "missing left parenthesis"
  | .missingOperator => "missing operator"
  | .unexpected kind => "unexpected " ++ kind.description
  | .missingOperand => "missing operand in parentheses"
  | .missingSecondOperand => "missing second operand"
  | .missingFirstOperand => "missing first operand"
  | .unexpectedTerminal => "unexpected terminal"
  | .expectedExpression => "expected expression"

/-- A fault as a problem to report, at a place if one is known. -/
def ParseFault.diagnostic (fault : ParseFault) (location? : Option Location) : Diagnostic where
  code := .syntactic
  message := fault.message
  location? := location?

/-- The shape of a handle. -/
inductive Production where
  | primary (value : Primary) (location : Location)
  | notNil (operand : Reduced) (location : Location)
  | parens (inner : Reduced)
  | binary (op : BinaryOperator) (left right : Reduced) (location : Location)
  | malformed (fault : ParseFault)
deriving DecidableEq, Repr, Inhabited

namespace Production

/-- A token alone is a value. -/
def ofToken (token : Token) : Production :=
  match token.kind.primary? with
  | some value => .primary value token.location
  | none => .malformed .unexpectedTerminal

/-- An operand and a token: the exclamation mark ends it, and an operator lacks its other
side.
-/
def ofPostfix (operand : Reduced) (terminal : Terminal) : Production :=
  if terminal.category = .notNil then .notNil operand terminal.token.location
  else if terminal.category.isOperator then .malformed .missingSecondOperand
  else .malformed .unexpectedTerminal

/-- The binary operator that a token stands for. -/
def binaryOperator? (token : Token) : Option BinaryOperator :=
  match token.kind with
  | .operator sign => sign.binary?
  | _ => none

/-- Two operands and a token between them. -/
def ofInfix (left : Reduced) (token : Token) (right : Reduced) : Production :=
  match binaryOperator? token with
  | some op => .binary op left right token.location
  | none => .malformed .unexpectedTerminal

/-- Whether two tokens are a pair of parentheses. -/
def areParens (left right : Terminal) : Bool :=
  left.category = .openParen && right.category = .closeParen

/-- The shape of a handle, leftmost item first. -/
def ofHandle : List StackItem → Production
  | [.terminal terminal] => ofToken terminal.token
  | [.reduced operand, .terminal terminal] => ofPostfix operand terminal
  | [.terminal left, .reduced inner, .terminal right] =>
      if areParens left right then .parens inner else .malformed .unexpectedTerminal
  | [.reduced left, .terminal terminal, .reduced right] =>
      ofInfix left terminal.token right
  | [.terminal left, .terminal right] =>
      .malformed (if areParens left right then .missingOperand else .unexpectedTerminal)
  | [.terminal terminal, .reduced _] =>
      .malformed
        (if terminal.category.isOperator then .missingFirstOperand else .unexpectedTerminal)
  | _ => .malformed .unexpectedTerminal

end Production

/-- The place of the leftmost token of a handle. -/
def handleLocation? (handle : List StackItem) : Option Location :=
  handle.findSome? fun
    | .terminal terminal => some terminal.token.location
    | .reduced _ => none

/-- Whether a handle holds an operand that was wrong. -/
def isPoisoned (handle : List StackItem) : Bool :=
  handle.any fun
    | .terminal _ => false
    | .reduced operand => operand.poisoned

/-- What a handle reduces to: an operand, with its code or a problem to report. -/
structure Reduction where
  operand : Reduced
  code : List Instruction := []
  problem? : Option Diagnostic := none
deriving DecidableEq, Repr, Inhabited

namespace Reduction

/-- The outcome of a type rule for an expression at `location`. -/
def ofCheck (location : Location) : Except TypeFault Checked → Reduction
  | .ok checked => { operand := checked.operand, code := checked.code }
  | .error fault => {
      operand := fault.fallback
      problem? := some (.errorAt fault.code fault.message location)
    }

/-- Reduces a handle. -/
def ofHandle (scopes : ScopeStack) (handle : List StackItem) : Reduction :=
  match Production.ofHandle handle with
  | .primary value location => ofCheck location (checkPrimary scopes value)
  | .notNil operand location => ofCheck location (checkNotNil operand)
  | .parens inner => { operand := inner }
  | .binary op left right location => ofCheck location (checkBinary op left right)
  | .malformed fault => {
      operand := .placeholder
      problem? :=
        if isPoisoned handle then none
        else some (fault.diagnostic (handleLocation? handle))
    }

end Reduction

end ExprCompiler

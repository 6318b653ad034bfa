import ExprCompiler.Source.Token
import ExprCompiler.Target.Instruction

/-! What tokens are to an expression, and the order in which operators bind. Operators of
higher strength bind first, and only the nil check groups to the right among its equals.
-/

namespace ExprCompiler

/-- A value that stands in an expression by itself. -/
inductive Primary where
  | int (value : Int64)
  | double (value : Double)
  | string (text : String)
  | nil
  | name (name : String)
deriving DecidableEq, Repr, Inhabited

/-- The value that a token stands for. -/
def TokenKind.primary? : TokenKind → Option Primary
  | .int value => some (.int value)
  | .double value => some (.double value)
  | .string text => some (.string text)
  | .keyword .nilWord => some .nil
  | .identifier name => some (.name name)
  | _ => none

/-- The four arithmetic operations of the language. -/
inductive Arithmetic where
  | add | subtract | multiply | divide
deriving DecidableEq, Repr, Inhabited

/-- The sign of an arithmetic operation. -/
def Arithmetic.text : Arithmetic → String
  | .add => "+"
  | .subtract => "-"
  | .multiply => "*"
  | .divide => "/"

/-- The operators between two operands. -/
inductive BinaryOperator where
  | arithmetic (op : Arithmetic)
  | coalesce
  | compare (op : CompareOp)
deriving DecidableEq, Repr, Inhabited

/-- The binary operator that a sign stands for. -/
def Operator.binary? : Operator → Option BinaryOperator
  | .plus => some (.arithmetic .add)
  | .minus => some (.arithmetic .subtract)
  | .star => some (.arithmetic .multiply)
  | .slash => some (.arithmetic .divide)
  | .coalesce => some .coalesce
  | .less => some (.compare .less)
  | .lessEqual => some (.compare .lessEqual)
  | .greater => some (.compare .greater)
  | .greaterEqual => some (.compare .greaterEqual)
  | .equal => some (.compare .equal)
  | .notEqual => some (.compare .notEqual)
  | _ => none

/-- What a token is to an expression. -/
inductive Category where
  | multiplicative
  | additive
  | coalesce
  | operand
  | relational
  | openParen
  | closeParen
  | notNil
  /-- No part of an expression. -/
  | finish
deriving DecidableEq, Repr, Inhabited

namespace Category

/-- Every category. -/
def all : List Category :=
  [.multiplicative, .additive, .coalesce, .operand, .relational, .openParen, .closeParen,
    .notNil, .finish]

/-- The category of a binary operator. -/
def ofBinary : BinaryOperator → Category
  | .arithmetic .multiply | .arithmetic .divide => .multiplicative
  | .arithmetic .add | .arithmetic .subtract => .additive
  | .coalesce => .coalesce
  | .compare _ => .relational

/-- The category of a sign. -/
def ofOperator : Operator → Category
  | .openParen => .openParen
  | .closeParen => .closeParen
  | .bang => .notNil
  | sign => (sign.binary?.map ofBinary).getD .finish

/-- The category of a token. -/
def ofKind : TokenKind → Category
  | .operator sign => ofOperator sign
  | kind => if kind.primary?.isSome then .operand else .finish

/-- How strongly a binary operator binds; other categories are none. -/
def strength? : Category → Option Nat
  | .multiplicative => some 4
  | .additive => some 3
  | .coalesce => some 2
  | .relational => some 1
  | _ => none

/-- Whether a token stands between two operands. -/
def isOperator (category : Category) : Bool :=
  category.strength?.isSome

/-- Whether an operand can end with the token. -/
def endsOperand : Category → Bool
  | .operand | .closeParen | .notNil => true
  | _ => false

/-- Whether an operand can start with the token. -/
def startsOperand : Category → Bool
  | .operand | .openParen => true
  | _ => false

end Category

/-- What to do with a token, given the last token that is not part of an operand yet. -/
inductive Action where
  /-- The token starts a new handle. -/
  | shift
  /-- The token continues the handle. -/
  | equal
  /-- The handle is complete. -/
  | reduce
  /-- The token cannot stand here. -/
  | error
deriving DecidableEq, Repr, Inhabited

/-- Between two operators the left one goes first if it binds more strongly, or as strongly
and groups to the left.
-/
def operatorAction (top incoming : Nat) : Action :=
  if incoming < top then .reduce
  else if top < incoming then .shift
  else if Category.coalesce.strength? = some top then .shift
  else .reduce

/-- The precedence of the topmost open token over the incoming one. -/
def action (top incoming : Category) : Action :=
  match top, incoming with
  | .finish, .closeParen => .error
  | .finish, .finish => .equal
  | .finish, _ => .shift
  | .openParen, .closeParen => .equal
  | .openParen, .finish => .error
  | .openParen, _ => .shift
  | top, incoming =>
      if top.endsOperand then
        if incoming.startsOperand then .error else .reduce
      else
        match top.strength?, incoming.strength? with
        | some top, some incoming => operatorAction top incoming
        | _, _ =>
            if incoming.startsOperand || incoming = .notNil then .shift else .reduce

end ExprCompiler

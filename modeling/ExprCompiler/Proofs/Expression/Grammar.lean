import ExprCompiler.Expression.Parser

/-! The grammar of expressions, one stratum for each strength of binding, and the tokens that a
tree of it is spelled with. Line breaks may stand wherever an operand is expected.
-/

namespace ExprCompiler

/-- Where a token stands, apart from what it is. -/
structure Place where
  afterNewline : Bool := false
  location : Location := .start
deriving DecidableEq, Repr, Inhabited

/-- The token of a kind at a place. -/
def Place.token (place : Place) (kind : TokenKind) : Token where
  kind := kind
  afterNewline := place.afterNewline
  location := place.location

/-- The place of a token. -/
def Token.place (token : Token) : Place :=
  ⟨token.afterNewline, token.location⟩

@[simp] theorem Token.place_token (token : Token) : token.place.token token.kind = token :=
  rfl

@[simp] theorem Place.token_kind (place : Place) (kind : TokenKind)
    : (place.token kind).kind = kind :=
  rfl

/-- A token of a kind is the token of this kind at some place. -/
theorem Token.exists_place {token : Token} {kind : TokenKind} (same : token.kind = kind)
    : ∃ place : Place, token = place.token kind :=
  ⟨token.place, by rw [← same, place_token]⟩

/-- The kind of token that a value is written as. -/
def Primary.kind : Primary → TokenKind
  | .int value => .int value
  | .double value => .double value
  | .string text => .string text
  | .nil => .keyword .nilWord
  | .name text => .identifier text

/-- The sign that a binary operator is written as. -/
def BinaryOperator.sign : BinaryOperator → Operator
  | .arithmetic .add => .plus
  | .arithmetic .subtract => .minus
  | .arithmetic .multiply => .star
  | .arithmetic .divide => .slash
  | .coalesce => .coalesce
  | .compare .less => .less
  | .compare .lessEqual => .lessEqual
  | .compare .greater => .greater
  | .compare .greaterEqual => .greaterEqual
  | .compare .equal => .equal
  | .compare .notEqual => .notEqual

@[simp] theorem Primary.primary?_kind (value : Primary) : value.kind.primary? = some value := by
  cases value <;> rfl

/-- A token that stands for a value is the one the value is written as. -/
theorem TokenKind.eq_kind_of_primary? {kind : TokenKind} {value : Primary}
    (stands : kind.primary? = some value)
    : kind = value.kind := by
  cases kind with
  | int _ | double _ | string _ | identifier _ =>
      cases stands
      rfl
  | keyword word =>
      cases word with
      | nilWord =>
          cases stands
          rfl
      | _ => cases stands
  | _ => cases stands

@[simp] theorem BinaryOperator.binary?_sign (op : BinaryOperator)
    : op.sign.binary? = some op := by
  rcases op with op | _ | op
  · cases op <;> rfl
  · rfl
  · cases op <;> rfl

/-- A sign that stands for a binary operator is the one the operator is written as. -/
theorem Operator.eq_sign_of_binary? {sign : Operator} {op : BinaryOperator}
    (stands : sign.binary? = some op)
    : sign = op.sign := by
  cases sign <;> simp only [Operator.binary?, Option.some.injEq, reduceCtorEq] at stands
  all_goals subst stands; rfl

@[simp] theorem Primary.category_kind (value : Primary)
    : Category.ofKind value.kind = .operand := by
  cases value <;> rfl

@[simp] theorem BinaryOperator.category_sign (op : BinaryOperator)
    : Category.ofKind (.operator op.sign) = .ofBinary op := by
  rcases op with op | _ | op
  · cases op <;> rfl
  · rfl
  · cases op <;> rfl

namespace Category

@[simp] theorem ofKind_bang : ofKind (.operator .bang) = .notNil :=
  rfl

@[simp] theorem ofKind_openParen : ofKind (.operator .openParen) = .openParen :=
  rfl

@[simp] theorem ofKind_closeParen : ofKind (.operator .closeParen) = .closeParen :=
  rfl

/-- The only sign of a category, if it has just one. -/
def sign? : Category → Option Operator
  | .notNil => some .bang
  | .openParen => some .openParen
  | .closeParen => some .closeParen
  | _ => none

/-- A token of a category with one sign is this sign. -/
theorem eq_operator_of_sign? {kind : TokenKind} {sign : Operator}
    (only : (ofKind kind).sign? = some sign)
    : kind = .operator sign := by
  unfold ofKind at only
  split at only
  · next written => cases written <;> simp_all [ofOperator, Operator.binary?, ofBinary, sign?]
  · split at only <;> simp [sign?] at only

@[simp] theorem isOperator_ofBinary (op : BinaryOperator) : (ofBinary op).isOperator = true := by
  rcases op with op | _ | op
  · cases op <;> rfl
  · rfl
  · rfl

theorem ne_finish_of_isOperator {category : Category} (operator : category.isOperator = true)
    : category ≠ .finish := by
  rintro rfl
  cases operator

theorem ne_openParen_of_isOperator {category : Category}
    (operator : category.isOperator = true)
    : category ≠ .openParen := by
  rintro rfl
  cases operator

theorem ne_closeParen_of_isOperator {category : Category}
    (operator : category.isOperator = true)
    : category ≠ .closeParen := by
  rintro rfl
  cases operator

theorem not_startsOperand_of_isOperator {category : Category}
    (operator : category.isOperator = true)
    : category.startsOperand = false := by
  revert operator
  cases category <;> decide

end Category

-----------------------------------------------------------------------------------------
-- Trees and the strata that derive them
-----------------------------------------------------------------------------------------

/-- An expression as a tree. Every token of its text has its place in the tree. -/
inductive ExprTree where
  | primary (value : Primary) (place : Place)
  | notNil (operand : ExprTree) (place : Place)
  | parens (opening : Place) (inner : ExprTree) (closing : Place)
  | binary (op : BinaryOperator) (left : ExprTree) (place : Place) (right : ExprTree)
deriving DecidableEq, Repr, Inhabited

/-- The tokens of a tree from left to right. -/
def ExprTree.tokens : ExprTree → List Token
  | .primary value place => [place.token value.kind]
  | .notNil operand place => operand.tokens ++ [place.token (.operator .bang)]
  | .parens opening inner closing =>
      opening.token (.operator .openParen) :: inner.tokens
        ++ [closing.token (.operator .closeParen)]
  | .binary op left place right =>
      left.tokens ++ place.token (.operator op.sign) :: right.tokens

/-- The nonterminals of the grammar, from the one that binds least to the one that binds
most.
-/
inductive Stratum where
  | relational | coalescing | additive | multiplicative | suffixed
deriving DecidableEq, Repr, Inhabited

/-- The productions of the grammar. Comparisons, sums and products group to the left, the nil
check groups to the right, and each stratum holds all that binds more strongly.
-/
inductive Stratum.Derives : Stratum → ExprTree → Prop
  | comparison {op : CompareOp} {left right : ExprTree} {place : Place}
    (leftDerived : Derives .relational left) (rightDerived : Derives .coalescing right)
    : Derives .relational (.binary (.compare op) left place right)
  | ofCoalescing {tree : ExprTree} (derived : Derives .coalescing tree)
    : Derives .relational tree
  | nilCheck {left right : ExprTree} {place : Place}
    (leftDerived : Derives .additive left) (rightDerived : Derives .coalescing right)
    : Derives .coalescing (.binary .coalesce left place right)
  | ofAdditive {tree : ExprTree} (derived : Derives .additive tree)
    : Derives .coalescing tree
  | sum {op : Arithmetic} {left right : ExprTree} {place : Place}
    (isSum : op = .add ∨ op = .subtract)
    (leftDerived : Derives .additive left) (rightDerived : Derives .multiplicative right)
    : Derives .additive (.binary (.arithmetic op) left place right)
  | ofMultiplicative {tree : ExprTree} (derived : Derives .multiplicative tree)
    : Derives .additive tree
  | product {op : Arithmetic} {left right : ExprTree} {place : Place}
    (isProduct : op = .multiply ∨ op = .divide)
    (leftDerived : Derives .multiplicative left) (rightDerived : Derives .suffixed right)
    : Derives .multiplicative (.binary (.arithmetic op) left place right)
  | ofSuffixed {tree : ExprTree} (derived : Derives .suffixed tree)
    : Derives .multiplicative tree
  | notNil {operand : ExprTree} {place : Place} (derived : Derives .suffixed operand)
    : Derives .suffixed (.notNil operand place)
  | parens {opening closing : Place} {inner : ExprTree} (derived : Derives .relational inner)
    : Derives .suffixed (.parens opening inner closing)
  | primary {value : Primary} {place : Place}
    : Derives .suffixed (.primary value place)

namespace Stratum

/-- How strongly the operators of a stratum bind; the scale is that of
`Category.strength?`, with suffixes above all binary operators.
-/
def rank : Stratum → Nat
  | .relational => 1
  | .coalescing => 2
  | .additive => 3
  | .multiplicative => 4
  | .suffixed => 5

/-- A tree of some stratum is one of every stratum that binds less, by unit productions. -/
theorem Derives.weaken {strong weak : Stratum} {tree : ExprTree}
    (derived : strong.Derives tree) (le : weak.rank ≤ strong.rank)
    : weak.Derives tree := by
  have toMultiplicative (h : Stratum.suffixed.Derives tree) := h.ofSuffixed
  have toAdditive (h : Stratum.multiplicative.Derives tree) := h.ofMultiplicative
  have toCoalescing (h : Stratum.additive.Derives tree) := h.ofAdditive
  have toRelational (h : Stratum.coalescing.Derives tree) := h.ofCoalescing
  cases strong <;> cases weak <;> grind [rank]

end Stratum

namespace BinaryOperator

/-- The stratum of the operations of an operator. -/
def stratum : BinaryOperator → Stratum
  | .arithmetic .multiply | .arithmetic .divide => .multiplicative
  | .arithmetic .add | .arithmetic .subtract => .additive
  | .coalesce => .coalescing
  | .compare _ => .relational

/-- The stratum of what stands on the left of an operator. -/
def leftStratum : BinaryOperator → Stratum
  | .coalesce => .additive
  | op => op.stratum

/-- The stratum of what stands on the right of an operator. -/
def rightStratum : BinaryOperator → Stratum
  | .arithmetic .multiply | .arithmetic .divide => .suffixed
  | .arithmetic .add | .arithmetic .subtract => .multiplicative
  | .coalesce | .compare _ => .coalescing

theorem stratum_le_leftStratum (op : BinaryOperator)
    : op.stratum.rank ≤ op.leftStratum.rank := by
  rcases op with op | _ | op
  · cases op <;> decide
  · decide
  · exact Nat.le_refl _

theorem stratum_le_rightStratum (op : BinaryOperator)
    : op.stratum.rank ≤ op.rightStratum.rank := by
  rcases op with op | _ | op
  · cases op <;> decide
  · decide
  · exact Nat.le_succ _

/-- The production of any binary operator. -/
theorem derives {op : BinaryOperator} {left right : ExprTree} {place : Place}
    (leftDerived : op.leftStratum.Derives left) (rightDerived : op.rightStratum.Derives right)
    : op.stratum.Derives (.binary op left place right) := by
  rcases op with op | _ | op
  · cases op with
    | add => exact .sum (.inl rfl) leftDerived rightDerived
    | subtract => exact .sum (.inr rfl) leftDerived rightDerived
    | multiply => exact .product (.inl rfl) leftDerived rightDerived
    | divide => exact .product (.inr rfl) leftDerived rightDerived
  · exact .nilCheck leftDerived rightDerived
  · exact .comparison leftDerived rightDerived

end BinaryOperator

-----------------------------------------------------------------------------------------
-- Line breaks
-----------------------------------------------------------------------------------------

/-- Whether an operand has to follow a token: a binary operator or an opening parenthesis. -/
def Token.expectsOperand (token : Token) : Bool :=
  (Category.ofKind token.kind).isOperator || Category.ofKind token.kind = .openParen

/-- The second list is the first one with line breaks added where an operand is expected:
after a token that has to be followed by one, and at the start if `expecting`.
-/
inductive LaidOut : Bool → List Token → List Token → Prop
  | nil {expecting : Bool}
    : LaidOut expecting [] []
  | lineBreak {lineBreak : Token} {tokens laid : List Token}
    (isBreak : lineBreak.kind = .endOfLine) (rest : LaidOut true tokens laid)
    : LaidOut true tokens (lineBreak :: laid)
  | token {expecting : Bool} {token : Token} {tokens laid : List Token}
    (rest : LaidOut token.expectsOperand tokens laid)
    : LaidOut expecting (token :: tokens) (token :: laid)

/-- Whether an operand is expected after some tokens. -/
def expectsAfter (expecting : Bool) (tokens : List Token) : Bool :=
  (tokens.getLast?.map Token.expectsOperand).getD expecting

namespace LaidOut

/-- The layout of two lists one after the other splits between them; line breaks in between
count to the second one. By induction on the layout.
-/
theorem split {expecting : Bool} {front back laid : List Token}
    (layout : LaidOut expecting (front ++ back) laid)
    : ∃ laidFront laidBack,
        laid = laidFront ++ laidBack
        ∧ LaidOut expecting front laidFront
        ∧ LaidOut (expectsAfter expecting front) back laidBack := by
  generalize whole : front ++ back = tokens at layout
  induction layout generalizing front with
  | nil =>
      obtain ⟨rfl, rfl⟩ := List.append_eq_nil_iff.mp whole
      exact ⟨[], [], rfl, .nil, .nil⟩
  | @lineBreak lineBreak tokens laid isBreak rest ih =>
      cases front with
      | nil =>
          subst whole
          exact ⟨[], lineBreak :: laid, rfl, .nil, .lineBreak isBreak rest⟩
      | cons first front =>
          obtain ⟨laidFront, laidBack, rfl, frontLaid, backLaid⟩ := ih whole
          refine ⟨lineBreak :: laidFront, laidBack, rfl, .lineBreak isBreak frontLaid, ?_⟩
          simpa [expectsAfter] using backLaid
  | @token expecting token tokens laid rest ih =>
      cases front with
      | nil =>
          simp only [List.nil_append] at whole
          subst whole
          exact ⟨[], token :: laid, rfl, .nil, .token rest⟩
      | cons first front =>
          obtain ⟨rfl, tail⟩ := List.cons.inj whole
          obtain ⟨laidFront, laidBack, rfl, frontLaid, backLaid⟩ := ih tail
          refine ⟨first :: laidFront, laidBack, rfl, .token frontLaid, ?_⟩
          cases front <;> simpa [expectsAfter, List.getLast?_cons] using backLaid

/-- Where no operand is expected, a token stands right at the start. -/
theorem cons_of_not_expecting {token : Token} {tokens laid : List Token}
    (layout : LaidOut false (token :: tokens) laid)
    : ∃ rest, laid = token :: rest ∧ LaidOut token.expectsOperand tokens rest := by
  cases layout with
  | token rest => exact ⟨_, rfl, rest⟩

theorem eq_nil_of_not_expecting {laid : List Token} (layout : LaidOut false [] laid)
    : laid = [] := by
  cases layout
  rfl

/-- Where an operand is expected, only line breaks stand before a token. By induction on the
layout.
-/
theorem cons_of_expecting {token : Token} {tokens laid : List Token}
    (layout : LaidOut true (token :: tokens) laid)
    : ∃ breaks rest,
        laid = breaks ++ token :: rest
        ∧ (∀ lineBreak ∈ breaks, lineBreak.kind = .endOfLine)
        ∧ LaidOut token.expectsOperand tokens rest := by
  generalize expected : token :: tokens = whole at layout
  generalize start : true = expecting at layout
  induction layout with
  | nil => cases expected
  | @lineBreak lineBreak _ _ isBreak _ ih =>
      obtain ⟨breaks, rest, rfl, allBreaks, restLaid⟩ := ih expected rfl
      exact ⟨lineBreak :: breaks, rest, rfl, by simpa [isBreak] using allBreaks, restLaid⟩
  | token rest =>
      obtain ⟨rfl, rfl⟩ := List.cons.inj expected
      exact ⟨[], _, rfl, by simp, rest⟩

end LaidOut

namespace ExprTree

/-- A tree ends with a value, an exclamation mark or a closing parenthesis, so nothing is
expected after it. By induction on the tree.
-/
theorem not_expectsAfter_tokens (tree : ExprTree) (expecting : Bool)
    : expectsAfter expecting tree.tokens = false := by
  induction tree with
  | primary value place => simp [tokens, expectsAfter, Token.expectsOperand, Category.isOperator,
      Category.strength?]
  | notNil operand place _ =>
      simp [tokens, expectsAfter]
      rfl
  | parens opening inner closing _ =>
      simp [tokens, expectsAfter, List.getLast?_cons]
      rfl
  | binary op left place right _ rightIH =>
      have notEmpty : right.tokens ≠ [] := by cases right <;> simp [tokens]
      rw [expectsAfter, List.getLast?_eq_some_getLast notEmpty] at rightIH
      rw [tokens, expectsAfter, List.getLast?_append, List.getLast?_cons,
        List.getLast?_eq_some_getLast notEmpty]
      exact rightIH

end ExprTree

end ExprCompiler

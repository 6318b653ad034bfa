import ExprCompiler.Proofs.Expression.Grammar

/-! The precedences and the strata of the grammar. A token that is shifted starts something that
may stand above the token below it, and a handle is reduced only to something that may stand on
the left of the next token. Conversely, these are the only conditions.
-/

namespace ExprCompiler

namespace Category

/-- The stratum of what stands right above a token. -/
def above : Category → Stratum
  | .multiplicative => .suffixed
  | .additive => .multiplicative
  | .coalesce | .relational => .coalescing
  | _ => .relational

/-- The stratum of what stands on the left of a token. -/
def before : Category → Stratum
  | .multiplicative => .multiplicative
  | .additive | .coalesce => .additive
  | .notNil => .suffixed
  | _ => .relational

/-- The stratum of what a handle with this token reduces to. -/
def built : Category → Stratum
  | .multiplicative => .multiplicative
  | .additive => .additive
  | .coalesce => .coalescing
  | .relational => .relational
  | _ => .suffixed

/-- Whether an operand has to follow a token. -/
def opensOperand (category : Category) : Bool :=
  category.isOperator || category = .openParen || category = .finish

/-- What a shifted token starts fits above the token below it, by the table. -/
theorem above_le_built_of_shift {below top : Category} (shifts : action below top = .shift)
    : below.above.rank ≤ top.built.rank := by
  revert shifts
  cases below <;> cases top <;> decide

/-- What a handle reduces to fits on the left of the next token, by the table. -/
theorem before_le_built_of_reduce {top incoming : Category}
    (reduces : action top incoming = .reduce)
    : incoming.before.rank ≤ top.built.rank := by
  revert reduces
  cases top <;> cases incoming <;> decide

theorem ne_closeParen_of_shift {below incoming : Category}
    (shifts : action below incoming = .shift)
    : incoming ≠ .closeParen := by
  rintro rfl
  revert shifts
  cases below <;> decide

theorem ne_finish_of_shift {below incoming : Category} (shifts : action below incoming = .shift)
    : incoming ≠ .finish := by
  rintro rfl
  revert shifts
  cases below <;> decide

/-- Only a closing parenthesis continues a handle, and only above an opening one. -/
theorem eq_parens_of_equal {top incoming : Category} (continues : action top incoming = .equal)
    (notEnd : ¬(top = .finish ∧ incoming = .finish))
    : top = .openParen ∧ incoming = .closeParen := by
  revert continues notEnd
  cases top <;> cases incoming <;> decide

/-- A token is shifted where an operand is expected, or after one, if what it starts fits above
the token below, by the table.
-/
theorem action_eq_shift {below incoming : Category} (opens : below.opensOperand = true)
    (notClose : incoming ≠ .closeParen) (notEnd : incoming ≠ .finish)
    (fits : below.above.rank ≤ incoming.built.rank)
    : action below incoming = .shift := by
  revert opens notClose notEnd fits
  cases below <;> cases incoming <;> decide

/-- What starts an operand is shifted where one is expected. -/
theorem action_eq_shift_of_startsOperand {below incoming : Category}
    (opens : below.opensOperand = true) (starts : incoming.startsOperand = true)
    : action below incoming = .shift := by
  revert opens starts
  cases below <;> cases incoming <;> decide

/-- An operand is still to come after a token that opens one. -/
theorem not_endsOperand_of_opensOperand {category : Category}
    (opens : category.opensOperand = true)
    : category.endsOperand = false := by
  revert opens
  cases category <;> decide

end Category

/-- Every handle that builds this stratum or a stronger one is reduced before such a token. -/
def Stratum.EndsBefore (stratum : Stratum) (incoming : Category) : Prop :=
  ∀ top : Category, top ≠ .openParen → top ≠ .finish → stratum.rank ≤ top.built.rank →
    action top incoming = .reduce

/-- What ends a stratum also ends the stronger ones. -/
theorem Stratum.EndsBefore.strengthen {weak strong : Stratum} {incoming : Category}
    (ends : weak.EndsBefore incoming) (le : weak.rank ≤ strong.rank)
    : strong.EndsBefore incoming := by
  intro top notOpen notEnd built
  exact ends top notOpen notEnd (Nat.le_trans le built)

/-- A token that starts no operand ends what may stand on its left, by the table. -/
theorem Category.before_endsBefore (incoming : Category)
    (notStart : incoming.startsOperand = false)
    : incoming.before.EndsBefore incoming := by
  intro top
  revert notStart
  cases top <;> cases incoming <;> decide

namespace BinaryOperator

@[simp] theorem above_category (op : BinaryOperator)
    : (Category.ofBinary op).above = op.rightStratum := by
  rcases op with op | _ | op
  · cases op <;> rfl
  · rfl
  · rfl

@[simp] theorem before_category (op : BinaryOperator)
    : (Category.ofBinary op).before = op.leftStratum := by
  rcases op with op | _ | op
  · cases op <;> rfl
  · rfl
  · rfl

@[simp] theorem built_category (op : BinaryOperator)
    : (Category.ofBinary op).built = op.stratum := by
  rcases op with op | _ | op
  · cases op <;> rfl
  · rfl
  · rfl

end BinaryOperator

end ExprCompiler

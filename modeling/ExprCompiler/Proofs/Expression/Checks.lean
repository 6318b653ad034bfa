import ExprCompiler.Expression.Reduction
import ExprCompiler.Proofs.Expression.Typing

/-! The checks of the parser are those of the typing rules. Each reduction adds to the verdicts on
its operands what the check of its own node says.
-/

namespace ExprCompiler

/-- The outcome of the check of a node, as the parser keeps it. -/
def Ruling.checked (ruling : Ruling) : Except TypeFault Checked :=
  ruling.map fun rule => Checked.ofType rule.1 rule.2

theorem Symbol.ofSymbolKind_eq_exprType (symbol : Symbol)
    : ⟨.ofSymbolKind symbol.kind, symbol.nilable⟩ = symbol.exprType := by
  rw [exprType]
  cases symbol.kind <;> rfl

theorem TypeFault.errorAt_eq_report (fault : TypeFault) (location : Location)
    : .errorAt fault.code fault.message location = fault.report location := by
  cases fault <;> rfl

theorem checkPrimary_eq (scopes : ScopeStack) (value : Primary)
    : checkPrimary scopes value
      = (value.ruling scopes).map
          (fun rule => ⟨{ type := rule.1, literalZero := value.isZero }, rule.2⟩) := by
  cases value with
  | int | double | string | nil => rfl
  | name text =>
      rw [checkPrimary, checkName, Primary.ruling]
      cases scopes.getInitialized text with
      | error error => rfl
      | ok found =>
          by_cases isFunction : found.1.kind = .function <;>
            simp [Symbol.isFunction, isFunction, Except.map, Checked.ofType, Primary.isZero,
              Symbol.ofSymbolKind_eq_exprType]

theorem checkNotNil_eq {operand : Reduced} (sound : operand.poisoned = false)
    : checkNotNil operand = Ruling.checked (unwrapRuling operand.type) := by
  by_cases isNil : operand.type.base = .nil <;>
    simp [checkNotNil, sound, unwrapRuling, ExprType.isNilLiteral, isNil, Ruling.checked,
      Except.map, ExprType.unwrapped]

/-- No arithmetic rule applies to what may be nil. -/
theorem Arithmetic.rule?_eq_none_of_mayBeNil (op : Arithmetic) (overZero : Bool)
    {left right : ExprType} (mayBeNil : (left.mayBeNil || right.mayBeNil) = true)
    : op.rule? overZero left right = none := by
  unfold Arithmetic.rule?
  split
  · rfl
  · split <;> simp [ExprType.mayBeNil] at mayBeNil ⊢

/-- Arithmetic is checked by its ruling. If no operand may be nil, this is a comparison of two
tables with one entry for each pair of types.
-/
theorem checkArithmetic_eq (op : Arithmetic) (left right : Reduced)
    : checkArithmetic op left right
      = Ruling.checked
          ((BinaryOperator.arithmetic op).ruling left.type right.type right.literalZero) := by
  by_cases mayBeNil : left.type.mayBeNil || right.type.mayBeNil
  · have noRule := op.rule?_eq_none_of_mayBeNil right.literalZero mayBeNil
    have nilOperand
        : left.type.nilable ∨ left.type.base = .nil ∨ right.type.nilable
          ∨ right.type.base = .nil := by
      simpa [ExprType.mayBeNil, or_assoc] using mayBeNil
    simp only [checkArithmetic, mayBeNil, if_true, BinaryOperator.ruling, BinaryOperator.rule?,
      noRule, BinaryOperator.fault, if_pos nilOperand, Ruling.checked, Except.map]
  · obtain ⟨⟨leftBase, leftNilable⟩, leftZero, leftPoisoned⟩ := left
    obtain ⟨⟨rightBase, rightNilable⟩, rightZero, rightPoisoned⟩ := right
    obtain ⟨⟨rfl, _⟩, rfl, _⟩
      : (leftNilable = false ∧ leftBase ≠ .nil) ∧ rightNilable = false ∧ rightBase ≠ .nil := by
      simpa [ExprType.mayBeNil] using mayBeNil
    cases leftBase <;> cases rightBase <;> cases op <;> cases rightZero <;> rfl

theorem checkCoalesce_eq (left right : ExprType) (overZero : Bool)
    : checkCoalesce left right
      = Ruling.checked (BinaryOperator.coalesce.ruling left right overZero) := by
  obtain ⟨leftBase, leftNilable⟩ := left
  obtain ⟨rightBase, rightNilable⟩ := right
  cases leftNilable <;> cases leftBase <;> cases rightBase <;> rfl

/-- A comparison fits its operands exactly if they are comparable. -/
theorem comparable_eq (op : CompareOp) (left right : ExprType)
    : op.comparable left right
      = match op with
        | .equal | .notEqual => areEquatable left right
        | _ => areOrdered left right := by
  obtain ⟨leftBase, leftNilable⟩ := left
  obtain ⟨rightBase, rightNilable⟩ := right
  cases op <;> cases leftBase <;> cases rightBase <;> cases leftNilable <;>
    cases rightNilable <;> rfl

theorem checkCompare_eq (op : CompareOp) (left right : ExprType) (overZero : Bool)
    : checkCompare op left right
      = Ruling.checked ((BinaryOperator.compare op).ruling left right overZero) := by
  have fits := comparable_eq op left right
  cases fitting : op.comparable left right <;> cases op <;>
    simp_all [checkCompare, BinaryOperator.ruling, BinaryOperator.rule?, BinaryOperator.fault,
      Ruling.checked, Except.map]

/-- A binary operation on sound operands is checked by its ruling. -/
theorem checkBinary_eq {op : BinaryOperator} {left right : Reduced}
    (leftSound : left.poisoned = false) (rightSound : right.poisoned = false)
    : checkBinary op left right
      = Ruling.checked (op.ruling left.type right.type right.literalZero) := by
  unfold checkBinary
  rw [leftSound, rightSound]
  cases op with
  | arithmetic op => exact checkArithmetic_eq op left right
  | coalesce => exact checkCoalesce_eq left.type right.type right.literalZero
  | compare op => exact checkCompare_eq op left.type right.type right.literalZero

/-- The operand that stands for an expression with this verdict. -/
def Verdict.operand (verdict : Verdict) (isZero : Bool) : Reduced where
  type := verdict.type?.getD .undefined
  literalZero := isZero
  poisoned := verdict.type?.isNone

/-- The operand that stands for a tree. -/
def ExprTree.reduced (scopes : ScopeStack) (tree : ExprTree) : Reduced :=
  (tree.verdict scopes).operand tree.isZero

theorem ExprTree.poisoned_reduced (scopes : ScopeStack) (tree : ExprTree)
    : (tree.reduced scopes).poisoned = (tree.verdict scopes).type?.isNone :=
  rfl

theorem ExprTree.type_reduced {scopes : ScopeStack} {tree : ExprTree} {type : ExprType}
    (seen : (tree.verdict scopes).type? = some type)
    : (tree.reduced scopes).type = type := by
  simp [reduced, Verdict.operand, seen]

/-- A literal zero can be seen by the checks around it, by induction on the tree. -/
theorem ExprTree.isZero_eq_false_of_type?_eq_none {scopes : ScopeStack} {tree : ExprTree}
    (silent : (tree.verdict scopes).type? = none)
    : tree.isZero = false := by
  induction tree with
  | primary value place =>
      cases value with
      | int | double => simp [verdict, Primary.ruling, Verdict.settle] at silent
      | string | nil | name => rfl
  | parens opening inner closing ih => exact ih silent
  | notNil | binary => rfl

/-- A reduction adds the check of one node to the verdict on its operands. -/
structure Reduction.Settles (reduction : Reduction) (operands whole : Verdict)
    (isZero : Bool)
    : Prop where
  operand : reduction.operand = whole.operand isZero
  code : whole.code = operands.code ++ reduction.code
  failures : whole.failures = operands.failures ++ reduction.problem?.toList

namespace Reduction

/-- The outcome of a check settles the node by its ruling. -/
theorem ofCheck_settles (operands : Verdict) (location : Location) (ruling : Ruling)
    : (ofCheck location ruling.checked).Settles operands (operands.settle location ruling)
        false := by
  cases ruling with
  | ok rule => exact ⟨rfl, rfl, by simp [Verdict.settle, Ruling.checked, Except.map, ofCheck]⟩
  | error fault =>
      refine ⟨?_, by simp [Verdict.settle, Ruling.checked, Except.map, ofCheck], ?_⟩
      · cases fault <;> rfl
      · simp [Verdict.settle, Ruling.checked, Except.map, ofCheck, fault.errorAt_eq_report]

/-- The check of a value settles its leaf. -/
theorem primary_settles (scopes : ScopeStack) (value : Primary) (place : Place)
    : (ofCheck place.location (checkPrimary scopes value)).Settles {}
        ((ExprTree.primary value place).verdict scopes) value.isZero := by
  rw [checkPrimary_eq]
  cases value with
  | int | double | string | nil => exact ⟨rfl, rfl, rfl⟩
  | name text => exact ofCheck_settles {} place.location ((Primary.name text).ruling scopes)

/-- The check of an exclamation mark settles its node. -/
theorem notNil_settles (scopes : ScopeStack) (operand : ExprTree) (place : Place)
    : (ofCheck place.location (checkNotNil (operand.reduced scopes))).Settles
        (operand.verdict scopes) ((operand.notNil place).verdict scopes) false := by
  cases seen : (operand.verdict scopes).type? with
  | none =>
      have notZero := ExprTree.isZero_eq_false_of_type?_eq_none seen
      have unchecked
          : checkNotNil (operand.reduced scopes) = .ok ⟨operand.reduced scopes, []⟩ := by
        simp [checkNotNil, ExprTree.poisoned_reduced, seen]
      have same : (operand.notNil place).verdict scopes = operand.verdict scopes := by
        simp [ExprTree.verdict, seen]
      rw [unchecked, same]
      exact ⟨by simp [ofCheck, ExprTree.reduced, notZero], by simp [ofCheck], by simp [ofCheck]⟩
  | some type =>
      have sound : (operand.reduced scopes).poisoned = false := by
        simp [ExprTree.poisoned_reduced, seen]
      have whole
          : (operand.notNil place).verdict scopes
            = (operand.verdict scopes).settle place.location (unwrapRuling type) := by
        simp [ExprTree.verdict, seen]
      rw [checkNotNil_eq sound, ExprTree.type_reduced seen, whole]
      exact ofCheck_settles (operand.verdict scopes) place.location (unwrapRuling type)

/-- The check of a binary operation settles its node. -/
theorem binary_settles (scopes : ScopeStack) (op : BinaryOperator) (left right : ExprTree)
    (place : Place)
    : (ofCheck place.location
          (checkBinary op (left.reduced scopes) (right.reduced scopes))).Settles
        ((left.verdict scopes).join (right.verdict scopes))
        ((ExprTree.binary op left place right).verdict scopes) false := by
  have poisoned := ExprTree.poisoned_reduced scopes
  -- An operand that cannot be seen silences the check, so nothing is added to the verdicts.
  cases leftSeen : (left.verdict scopes).type? with
  | none =>
      refine ⟨?_, ?_, ?_⟩ <;>
        simp [checkBinary, poisoned, leftSeen, ofCheck, ExprTree.verdict, Verdict.operand,
          Verdict.join, Reduced.placeholder]
  | some leftType =>
      cases rightSeen : (right.verdict scopes).type? with
      | none =>
          refine ⟨?_, ?_, ?_⟩ <;>
            simp [checkBinary, poisoned, leftSeen, rightSeen, ofCheck, ExprTree.verdict,
              Verdict.operand, Verdict.join, Reduced.placeholder]
      | some rightType =>
          have whole
              : (ExprTree.binary op left place right).verdict scopes
                = ((left.verdict scopes).join (right.verdict scopes)).settle place.location
                    (op.ruling leftType rightType right.isZero) := by
            simp [ExprTree.verdict, leftSeen, rightSeen]
          rw [checkBinary_eq (by simp [poisoned, leftSeen]) (by simp [poisoned, rightSeen]),
            ExprTree.type_reduced leftSeen, ExprTree.type_reduced rightSeen, whole]
          exact ofCheck_settles _ place.location (op.ruling leftType rightType right.isZero)

end Reduction

end ExprCompiler

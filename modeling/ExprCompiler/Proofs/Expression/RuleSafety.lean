import ExprCompiler.Proofs.Expression.Typing
import ExprCompiler.Proofs.Target.Machine

/-! The typing rules and the machine. The code of each rule, run on operands that fit the types
it asks for, leaves a value that fits the type it gives.
-/

namespace ExprCompiler

/-- A value fits a type: it is of the base type, or it is nil where the type allows for it. If
nil never stands for a value, `nilOccurs` is false.
-/
def Value.Fits (nilOccurs : Prop) (value : Value) (type : ExprType) : Prop :=
  value.type = type.base ∨ (value = .nil ∧ type.nilable = true ∧ nilOccurs)

namespace Value.Fits

variable {nilOccurs : Prop} {value : Value} {type : ExprType}

/-- A value that fits a type without nil is of its base type. -/
theorem type_eq (fits : value.Fits nilOccurs type) (noNil : type.nilable = false)
    : value.type = type.base := by
  rcases fits with same | ⟨_, nilable, _⟩
  · exact same
  · simp [noNil] at nilable

theorem type_eq_or (fits : value.Fits nilOccurs type)
    : value.type = type.base ∨ value = .nil := by
  rcases fits with same | ⟨isNil, _, _⟩
  · exact .inl same
  · exact .inr isNil

theorem eq_nil (fits : value.Fits nilOccurs type) (isNil : type.base = .nil)
    : value = .nil := by
  rcases fits.type_eq_or with same | nilValue
  · exact Value.type_eq_nil_iff.mp (same.trans isNil)
  · exact nilValue

/-- Taking nil out of a type changes nothing where it never stands for a value. -/
theorem unwrap (fits : value.Fits nilOccurs type) (never : ¬nilOccurs)
    : value.Fits nilOccurs ⟨type.base, false⟩ := by
  rcases fits with same | ⟨_, _, occurs⟩
  · exact .inl same
  · exact absurd occurs never

end Value.Fits

theorem Arithmetic.exists_onInts_eq (op : Arithmetic) : ∃ arith, op.onInts = .arith arith true := by
  cases op <;> exact ⟨_, rfl⟩

theorem Arithmetic.exists_onFloats_eq (op : Arithmetic)
    : ∃ arith, op.onFloats = .arith arith false := by
  cases op <;> exact ⟨_, rfl⟩

section Rules

variable {machine : Machine} {floor : Nat} {nilOccurs : Prop} {left right : Value}
  {leftType rightType type : ExprType} {own : List Instruction} {rest : List Value}

/-- The code of an arithmetic rule leaves a value of its type, by the lines of its table. -/
theorem Arithmetic.reaches_of_rule {op : Arithmetic} {overZero : Bool}
    (rule : op.rule? overZero leftType rightType = some (type, own))
    (leftFits : left.Fits nilOccurs leftType) (rightFits : right.Fits nilOccurs rightType)
    (above : floor ≤ rest.length)
    : machine.Reaches floor own (right :: left :: rest)
        fun final => ∃ value, final = value :: rest ∧ value.Fits nilOccurs type := by
  obtain ⟨ints, onInts⟩ := op.exists_onInts_eq
  obtain ⟨floats, onFloats⟩ := op.exists_onFloats_eq
  have typed {base : ValueType} (final : List Value)
      : (∃ value, final = value :: rest ∧ value.type = base) →
        ∃ value, final = value :: rest ∧ value.Fits nilOccurs ⟨base, false⟩ := by
    rintro ⟨value, isFinal, same⟩
    exact ⟨value, isFinal, .inl same⟩
  unfold rule? at rule
  split at rule
  · cases rule
  · split at rule
    · -- Two strings.
      split at rule
      · cases rule
        exact (Machine.reaches_concat above (leftFits.type_eq rfl) (rightFits.type_eq rfl)).weaken
          typed
      · cases rule
    · -- Two integers.
      cases rule
      rw [onInts]
      exact (Machine.reaches_arith ints above (leftFits.type_eq rfl) (rightFits.type_eq rfl)).weaken
        typed
    · -- An integer on the left of a float.
      cases rule
      rw [onFloats]
      refine (Machine.reaches_intToFloatSecond above (leftFits.type_eq rfl)).append ?_
      rintro _ ⟨converted, rfl, isFloat⟩
      exact (Machine.reaches_arith floats above isFloat (rightFits.type_eq rfl)).weaken typed
    · -- An integer on the right of a float.
      cases rule
      rw [onFloats]
      refine (Machine.reaches_intToFloatTop (Nat.le_succ_of_le above)
        (rightFits.type_eq rfl)).append ?_
      rintro _ ⟨converted, rfl, isFloat⟩
      exact (Machine.reaches_arith floats above (leftFits.type_eq rfl) isFloat).weaken typed
    · -- Two floats.
      cases rule
      rw [onFloats]
      exact (Machine.reaches_arith floats above (leftFits.type_eq rfl)
        (rightFits.type_eq rfl)).weaken typed
    · cases rule

/-- The code of a nil check leaves a value that fits the type of its right side. -/
theorem reaches_of_coalesceRule (rule : coalesceRule? leftType rightType = some (type, own))
    (leftFits : left.Fits nilOccurs leftType) (rightFits : right.Fits nilOccurs rightType)
    (above : floor ≤ rest.length)
    : machine.Reaches floor own (right :: left :: rest)
        fun final => ∃ value, final = value :: rest ∧ value.Fits nilOccurs type := by
  have kept (base : left = .nil ∨ left.type = rightType.base)
      : (if left = .nil then right else left).Fits nilOccurs rightType := by
    split
    · exact rightFits
    · next notNil => exact .inl (base.resolve_left notNil)
  unfold coalesceRule? at rule
  split at rule
  · cases rule
    refine (Machine.reaches_coalesce above).weaken ?_
    rintro _ rfl
    exact ⟨_, rfl, kept (.inl (leftFits.eq_nil rfl))⟩
  · split at rule
    · next sameBase =>
        cases rule
        refine (Machine.reaches_coalesce above).weaken ?_
        rintro _ rfl
        exact ⟨_, rfl, kept (sameBase ▸ leftFits.type_eq_or.symm)⟩
    · cases rule
  · cases rule

/-- Values of types that may be told apart are of one type, or one of them is nil. -/
theorem type_eq_or_nil_of_comparable (comparable : CompareOp.equal.comparable leftType rightType)
    (leftFits : left.Fits nilOccurs leftType) (rightFits : right.Fits nilOccurs rightType)
    : left.type = right.type ∨ left = .nil ∨ right = .nil := by
  have bases
      : leftType.base = rightType.base ∨ (leftType.base = .nil ∧ rightType.nilable)
        ∨ (rightType.base = .nil ∧ leftType.nilable) := by
    simpa [CompareOp.comparable] using comparable
  rcases bases with same | ⟨leftNil, _⟩ | ⟨rightNil, _⟩
  · rcases leftFits.type_eq_or with leftSame | isNil
    · rcases rightFits.type_eq_or with rightSame | isNil
      · exact .inl (by rw [leftSame, rightSame, same])
      · exact .inr (.inr isNil)
    · exact .inr (.inl isNil)
  · exact .inr (.inl (leftFits.eq_nil leftNil))
  · exact .inr (.inr (rightFits.eq_nil rightNil))

/-- Values of types that may be put in order are of one type and not nil. -/
theorem type_eq_of_comparable (comparable : CompareOp.less.comparable leftType rightType)
    (leftFits : left.Fits nilOccurs leftType) (rightFits : right.Fits nilOccurs rightType)
    : left.type = right.type ∧ left ≠ .nil ∧ right ≠ .nil := by
  obtain ⟨rfl, ordered⟩ : leftType = rightType ∧
      leftType ∈ [⟨.int, false⟩, ⟨.double, false⟩, ⟨.string, false⟩] := by
    simpa [CompareOp.comparable] using comparable
  have noNil : leftType.nilable = false ∧ leftType.base ≠ .nil := by
    simp only [List.mem_cons, List.not_mem_nil, or_false] at ordered
    rcases ordered with rfl | rfl | rfl <;> decide
  have leftSame := leftFits.type_eq noNil.1
  have rightSame := rightFits.type_eq noNil.1
  refine ⟨leftSame.trans rightSame.symm, ?_, ?_⟩
  · rintro rfl
    exact noNil.2 leftSame.symm
  · rintro rfl
    exact noNil.2 rightSame.symm

/-- Values of types that may be compared are accepted by the comparison. -/
theorem CompareOp.accepts_of_comparable {op : CompareOp}
    (comparable : op.comparable leftType rightType = true)
    (leftFits : left.Fits nilOccurs leftType) (rightFits : right.Fits nilOccurs rightType)
    : op.accepts left right = true := by
  cases op with
  | equal | notEqual =>
      simpa [accepts, or_assoc] using type_eq_or_nil_of_comparable comparable leftFits rightFits
  | less | lessEqual | greater | greaterEqual =>
      simpa [accepts, and_assoc] using type_eq_of_comparable comparable leftFits rightFits

/-- The code of a rule for a binary operation leaves a value of its type. -/
theorem BinaryOperator.reaches_of_rule {op : BinaryOperator} {overZero : Bool}
    (rule : op.rule? leftType rightType overZero = some (type, own))
    (leftFits : left.Fits nilOccurs leftType) (rightFits : right.Fits nilOccurs rightType)
    (above : floor ≤ rest.length)
    : machine.Reaches floor own (right :: left :: rest)
        fun final => ∃ value, final = value :: rest ∧ value.Fits nilOccurs type := by
  cases op with
  | arithmetic op => exact Arithmetic.reaches_of_rule rule leftFits rightFits above
  | coalesce => exact reaches_of_coalesceRule rule leftFits rightFits above
  | compare op =>
      simp only [rule?] at rule
      split at rule
      · next comparable =>
          cases rule
          have accepted := op.accepts_of_comparable comparable leftFits rightFits
          refine (Machine.reaches_compare above accepted).weaken ?_
          rintro _ ⟨value, rfl, isBool⟩
          exact ⟨value, rfl, .inl isBool⟩
      · cases rule

end Rules

end ExprCompiler

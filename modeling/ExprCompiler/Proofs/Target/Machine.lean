import ExprCompiler.Expression.Type
import ExprCompiler.Target.Instruction

/-! The machine that instructions are for. It has a stack of values and stops at an instruction
that reaches below a given floor, at operands of the wrong type and at a division by zero. What
it computes otherwise is left open.
-/

namespace ExprCompiler

/-- A value at run time. -/
inductive Value where
  | int (value : Int64)
  | float (value : Double)
  | string (text : String)
  | bool (holds : Bool)
  | nil
deriving DecidableEq, Repr, Inhabited

/-- The type of a value. -/
def Value.type : Value → ValueType
  | .int _ => .int
  | .float _ => .double
  | .string _ => .string
  | .bool _ => .bool
  | .nil => .nil

/-- Only nil has the type of nil. -/
theorem Value.type_eq_nil_iff {value : Value} : value.type = .nil ↔ value = .nil := by
  cases value <;> simp [type]

/-- Why the machine stops. -/
inductive Trap where
  | divisionByZero
  /-- An instruction reached a value that is not the code's own, or no value at all. -/
  | underflow
  | wrongType
deriving DecidableEq, Repr, Inhabited

/-- Whether an operation cannot have a zero on the right. -/
def ArithOp.divides : ArithOp → Bool
  | .divideFloats | .divideInts => true
  | .add | .subtract | .multiply => false

/-- Whether two values may be compared: for equality they have one type or one of them is nil,
and for an order they have one type that is not nil.
-/
def CompareOp.accepts (op : CompareOp) (left right : Value) : Bool :=
  match op with
  | .equal | .notEqual => left.type = right.type || left = .nil || right = .nil
  | .less | .lessEqual | .greater | .greaterEqual =>
      left.type = right.type && left ≠ .nil && right ≠ .nil

/-- The number of values on top of the stack that an instruction touches. -/
def Instruction.arity : Instruction → Nat
  | .push _ => 0
  | .intToFloatTop => 1
  | .arith _ _ | .compare _ | .concat | .intToFloatSecond | .coalesce => 2

/-- The values of the variables, and the results of the operations on operands that fit. -/
structure Machine where
  valueOf : String → UInt32 → Bool → Value
  ints : ArithOp → Int64 → Int64 → Int64
  floats : ArithOp → Double → Double → Double
  toFloat : Int64 → Double
  compare : CompareOp → Value → Value → Bool

namespace Machine

variable (machine : Machine)

/-- The value of an operand. -/
def load : Operand → Value
  | .int value => .int value
  | .double value => .float value
  | .string text => .string text
  | .nil => .nil
  | .variable name uid global => machine.valueOf name uid global

/-- Arithmetic on two integers or on two floats. -/
def calculate (op : ArithOp) (onInts : Bool) (left right : Value) : Except Trap Value :=
  match onInts, left, right with
  | true, .int left, .int right =>
      if op.divides && right = 0 then .error .divisionByZero
      else .ok (.int (machine.ints op left right))
  | false, .float left, .float right =>
      if op.divides && right.isZero then .error .divisionByZero
      else .ok (.float (machine.floats op left right))
  | _, _, _ => .error .wrongType

/-- Turns an integer into a float. -/
def convert : Value → Except Trap Value
  | .int value => .ok (.float (machine.toFloat value))
  | _ => .error .wrongType

/-- Joins two strings. -/
def join : Value → Value → Except Trap Value
  | .string left, .string right => .ok (.string (left ++ right))
  | _, _ => .error .wrongType

/-- Compares two values. -/
def relate (op : CompareOp) (left right : Value) : Except Trap Value :=
  if op.accepts left right then .ok (.bool (machine.compare op left right))
  else .error .wrongType

/-- What an instruction makes of a stack, topmost value first. -/
def execute (instruction : Instruction) (stack : List Value) : Except Trap (List Value) :=
  match instruction, stack with
  | .push operand, stack => .ok (machine.load operand :: stack)
  | .arith op onInts, right :: left :: rest =>
      (machine.calculate op onInts left right).map (· :: rest)
  | .compare op, right :: left :: rest => (machine.relate op left right).map (· :: rest)
  | .concat, right :: left :: rest => (join left right).map (· :: rest)
  | .intToFloatTop, top :: rest => (machine.convert top).map (· :: rest)
  | .intToFloatSecond, top :: second :: rest =>
      (machine.convert second).map (top :: · :: rest)
  | .coalesce, right :: left :: rest => .ok ((if left = .nil then right else left) :: rest)
  | _, _ => .error .underflow

/-- Executes an instruction on a stack of which the lowest `floor` values are not to be
touched.
-/
def step (floor : Nat) (instruction : Instruction) (stack : List Value) :
    Except Trap (List Value) :=
  if stack.length < floor + instruction.arity then .error .underflow
  else machine.execute instruction stack

/-- Executes instructions one after the other. -/
def run (floor : Nat) : List Instruction → List Value → Except Trap (List Value)
  | [], stack => .ok stack
  | instruction :: code, stack =>
      match machine.step floor instruction stack with
      | .ok next => run floor code next
      | .error trap => .error trap

/-- Running one piece of code after another, by induction on the first. -/
theorem run_append (floor : Nat) (first second : List Instruction) (stack : List Value)
    : machine.run floor (first ++ second) stack
      = match machine.run floor first stack with
        | .ok middle => machine.run floor second middle
        | .error trap => .error trap := by
  induction first generalizing stack with
  | nil => rfl
  | cons instruction code ih =>
      simp only [List.cons_append, run]
      cases machine.step floor instruction stack with
      | ok next => exact ih next
      | error trap => rfl

/-- Running the code ends with a stack that is wanted, unless it divides by zero. -/
def Reaches (floor : Nat) (code : List Instruction) (stack : List Value)
    (wanted : List Value → Prop)
    : Prop :=
  match machine.run floor code stack with
  | .ok final => wanted final
  | .error trap => trap = .divisionByZero

variable {machine} {floor : Nat} {stack rest : List Value} {wanted : List Value → Prop}

/-- A weaker wish is reached as well. -/
theorem Reaches.weaken {code : List Instruction} {weaker : List Value → Prop}
    (reaches : machine.Reaches floor code stack wanted)
    (implies : ∀ final, wanted final → weaker final)
    : machine.Reaches floor code stack weaker := by
  unfold Reaches at reaches ⊢
  cases ran : machine.run floor code stack with
  | ok final =>
      rw [ran] at reaches
      exact implies final reaches
  | error trap =>
      rw [ran] at reaches
      exact reaches

/-- Code that starts where other code ends. -/
theorem Reaches.append {first second : List Instruction} {middle : List Value → Prop}
    (reaches : machine.Reaches floor first stack middle)
    (continues : ∀ between, middle between → machine.Reaches floor second between wanted)
    : machine.Reaches floor (first ++ second) stack wanted := by
  unfold Reaches at reaches ⊢
  rw [run_append]
  cases ran : machine.run floor first stack with
  | ok between =>
      rw [ran] at reaches
      exact continues between reaches
  | error trap =>
      rw [ran] at reaches
      exact reaches

/-- One instruction reaches what it makes of the stack, if that holds enough values. -/
theorem reaches_single {instruction : Instruction}
    (enough : floor + instruction.arity ≤ stack.length)
    (executes
      : match machine.execute instruction stack with
        | .ok next => wanted next
        | .error trap => trap = .divisionByZero)
    : machine.Reaches floor [instruction] stack wanted := by
  have stepped : machine.step floor instruction stack = machine.execute instruction stack :=
    if_neg (Nat.not_lt.mpr enough)
  unfold Reaches
  simp only [run, stepped]
  cases executed : machine.execute instruction stack with
  | ok next =>
      rw [executed] at executes
      exact executes
  | error trap =>
      rw [executed] at executes
      exact executes

theorem reaches_push (operand : Operand) (own : floor ≤ rest.length)
    : machine.Reaches floor [.push operand] rest (· = machine.load operand :: rest) :=
  reaches_single (by simpa [Instruction.arity] using own) rfl

section Binary

variable {left right : Value}

/-- Two integers or two floats give a number of their type, unless the right one is a zero that
is divided by.
-/
theorem calculate_cases (op : ArithOp) {onInts : Bool}
    (leftType : left.type = if onInts then .int else .double)
    (rightType : right.type = if onInts then .int else .double)
    : machine.calculate op onInts left right = .error .divisionByZero
      ∨ ∃ value, machine.calculate op onInts left right = .ok value
          ∧ value.type = if onInts then .int else .double := by
  cases onInts with
  | true =>
      cases left <;> simp [Value.type] at leftType
      cases right <;> simp [Value.type] at rightType
      next left right =>
        by_cases zero : op.divides && right = 0 <;> simp [calculate, zero, Value.type]
  | false =>
      cases left <;> simp [Value.type] at leftType
      cases right <;> simp [Value.type] at rightType
      next left right =>
        by_cases zero : op.divides && right.isZero <;> simp [calculate, zero, Value.type]

/-- Arithmetic leaves a number of the type of its operands. -/
theorem reaches_arith (op : ArithOp) {onInts : Bool} (own : floor ≤ rest.length)
    (leftType : left.type = if onInts then .int else .double)
    (rightType : right.type = if onInts then .int else .double)
    : machine.Reaches floor [.arith op onInts] (right :: left :: rest)
        fun final => ∃ value, final = value :: rest
          ∧ value.type = if onInts then .int else .double := by
  apply reaches_single (by simpa [Instruction.arity] using own)
  rcases machine.calculate_cases op leftType rightType with traps | ⟨value, result, typed⟩
  · simp only [execute, traps]
    rfl
  · simp only [execute, result]
    exact ⟨value, rfl, typed⟩

theorem reaches_concat (own : floor ≤ rest.length) (leftType : left.type = .string)
    (rightType : right.type = .string)
    : machine.Reaches floor [.concat] (right :: left :: rest)
        fun final => ∃ value, final = value :: rest ∧ value.type = .string := by
  cases left <;> simp [Value.type] at leftType
  cases right <;> simp [Value.type] at rightType
  exact reaches_single (by simpa [Instruction.arity] using own) ⟨_, rfl, rfl⟩

theorem reaches_compare {op : CompareOp} (own : floor ≤ rest.length)
    (accepted : op.accepts left right = true)
    : machine.Reaches floor [.compare op] (right :: left :: rest)
        fun final => ∃ value, final = value :: rest ∧ value.type = .bool := by
  apply reaches_single (by simpa [Instruction.arity] using own)
  simp only [execute, relate, accepted]
  exact ⟨_, rfl, rfl⟩

/-- A nil check leaves the left value, or the right one if the left one is nil. -/
theorem reaches_coalesce (own : floor ≤ rest.length)
    : machine.Reaches floor [.coalesce] (right :: left :: rest)
        (· = (if left = .nil then right else left) :: rest) :=
  reaches_single (by simpa [Instruction.arity] using own) rfl

theorem reaches_intToFloatTop (own : floor ≤ rest.length) (isInt : right.type = .int)
    : machine.Reaches floor [.intToFloatTop] (right :: rest)
        fun final => ∃ value, final = value :: rest ∧ value.type = .double := by
  cases right <;> simp [Value.type] at isInt
  exact reaches_single (by simpa [Instruction.arity] using own) ⟨_, rfl, rfl⟩

theorem reaches_intToFloatSecond (own : floor ≤ rest.length) (isInt : left.type = .int)
    : machine.Reaches floor [.intToFloatSecond] (right :: left :: rest)
        fun final => ∃ value, final = right :: value :: rest ∧ value.type = .double := by
  cases left <;> simp [Value.type] at isInt
  exact reaches_single (by simpa [Instruction.arity] using own) ⟨_, rfl, rfl⟩

end Binary

end Machine

end ExprCompiler

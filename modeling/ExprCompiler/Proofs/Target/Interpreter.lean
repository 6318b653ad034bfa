import ExprCompiler.Proofs.Target.AssemblyReader
import ExprCompiler.Proofs.Target.Machine
import Mathlib.Logic.Function.Basic
import Mathlib.Logic.Relation

/-! The machine that runs the text of a program. It has a data stack, a global frame, a stack of
local frames and a temporary one, and it runs on from line to line unless it jumps to a label.
What it computes with numbers, and how it orders values, is left open.
-/

namespace ExprCompiler.Assembly

/-- The labels of some operations. -/
def labelsOf (operations : List Operation) : List String :=
  operations.filterMap fun
    | .label name => some name
    | _ => none

/-- A program, in which no label stands twice. -/
structure Program where
  operations : List Operation
  distinct : (labelsOf operations).Nodup

/-- Reads a program. -/
def Program.ofText? (text : String) : Option Program := do
  let operations ← read? text
  if distinct : (labelsOf operations).Nodup then some ⟨operations, distinct⟩ else none

/-- The operations after a label. -/
def afterLabel? (name : String) : List Operation → Option (List Operation)
  | [] => none
  | .label other :: rest => if other = name then some rest else afterLabel? name rest
  | _ :: rest => afterLabel? name rest

/-- The variables of a frame: those that are declared, with their values once they have one. -/
abbrev Bindings := String → Option (Option Value)

namespace Bindings

/-- A frame without variables. -/
def empty : Bindings := fun _ => none

/-- Declares a variable that is not declared yet. -/
def declare? (bindings : Bindings) (name : String) : Option Bindings :=
  if (bindings name).isSome then none else some (Function.update bindings name (some none))

/-- Gives a declared variable a value. -/
def assign? (bindings : Bindings) (name : String) (value : Value) : Option Bindings :=
  if (bindings name).isSome then some (Function.update bindings name (some (some value))) else none

end Bindings

/-- The operations still to run, the data stack with its topmost value first, and the frames. -/
structure State where
  remaining : List Operation
  stack : List Value
  globals : Bindings
  locals : List Bindings
  temporary : Option Bindings

namespace State

/-- Changes a frame. There may be no local one. -/
def change? (state : State) (frame : Frame) (change : Bindings → Option Bindings) : Option State :=
  match frame, state.locals with
  | .globals, _ => (change state.globals).map fun globals => { state with globals }
  | .locals, top :: others =>
      (change top).map fun changed => { state with locals := changed :: others }
  | .locals, [] => none

/-- The value of a variable that has one. -/
def valueOf? (state : State) (var : Variable) : Option Value :=
  match var.frame, state.locals with
  | .globals, _ => (state.globals var.name).join
  | .locals, top :: _ => (top var.name).join
  | .locals, [] => none

/-- The value of an operand. -/
def evaluate? (state : State) : Symb → Option Value
  | .int value => some (.int value)
  | .float value => some (.float value)
  | .string text => some (.string text)
  | .bool value => some (.bool value)
  | .nil => some .nil
  | .variable var => state.valueOf? var

/-- Goes on after a label of the program. -/
def jumpTo? (state : State) (program : Program) (name : String) : Option State :=
  (afterLabel? name program.operations).map fun remaining => { state with remaining }

end State

/-- What the machine makes of numbers, and how it orders values. -/
structure Processor where
  ints : ArithOp → Int64 → Int64 → Int64
  floats : ArithOp → Double → Double → Double
  toFloat : Int64 → Double
  less : Value → Value → Bool
  greater : Value → Value → Bool
  floatsEqual : Double → Double → Bool

namespace Processor

variable (processor : Processor)

/-- Whether two values are equal; for floats that is not a matter of their patterns. -/
def equals : Value → Value → Bool
  | .float left, .float right => processor.floatsEqual left right
  | left, right => left = right

/-- Arithmetic on two integers or two floats. Each division takes one of the two only, and
refuses a zero on the right.
-/
def arith? (op : ArithOp) : Value → Value → Option Value
  | .int left, .int right =>
      if op = .divideFloats ∨ op = .divideInts ∧ right = 0 then none
      else some (.int (processor.ints op left right))
  | .float left, .float right =>
      if op = .divideInts ∨ op = .divideFloats ∧ right.isZero then none
      else some (.float (processor.floats op left right))
  | _, _ => none

/-- Compares two values of one type other than nil. -/
def order? (holds : Value → Value → Bool) (left right : Value) : Option Value :=
  if left.type = right.type ∧ left ≠ .nil then some (.bool (holds left right)) else none

/-- Whether two values of one type are equal, or two of which one is nil. -/
def equal? (left right : Value) : Option Bool :=
  if left.type = right.type ∨ left = .nil ∨ right = .nil then some (processor.equals left right)
  else none

/-- The effect of an operation; `state` goes on after it. The machine stops with an error at what
is missing or has the wrong type.
-/
def execute (program : Program) (operation : Operation) (state : State) : Option State :=
  match operation, state.stack with
  | .header, _ | .label _, _ => some state
  | .defVar var, _ => state.change? var.frame (·.declare? var.name)
  | .clearStack, _ => some { state with stack := [] }
  | .push symb, stack =>
      (state.evaluate? symb).map fun value => { state with stack := value :: stack }
  | .pop var, value :: stack =>
      { state with stack }.change? var.frame (·.assign? var.name value)
  | .arith op, right :: left :: stack =>
      (processor.arith? op left right).map fun value => { state with stack := value :: stack }
  | .less, right :: left :: stack =>
      (order? processor.less left right).map fun value => { state with stack := value :: stack }
  | .greater, right :: left :: stack =>
      (order? processor.greater left right).map fun value => { state with stack := value :: stack }
  | .equal, right :: left :: stack =>
      (processor.equal? left right).map fun holds => { state with stack := .bool holds :: stack }
  | .not, .bool holds :: stack => some { state with stack := .bool (!holds) :: stack }
  | .intToFloat, .int value :: stack =>
      some { state with stack := .float (processor.toFloat value) :: stack }
  | .concat target left right, _ =>
      match state.evaluate? left, state.evaluate? right with
      | some (.string left), some (.string right) =>
          state.change? target.frame (·.assign? target.name (.string (left ++ right)))
      | _, _ => none
  | .createFrame, _ => some { state with temporary := some .empty }
  | .pushFrame, _ =>
      state.temporary.map fun frame =>
        { state with locals := frame :: state.locals, temporary := none }
  | .popFrame, _ =>
      match state.locals with
      | frame :: others => some { state with locals := others, temporary := some frame }
      | [] => none
  | .jump name, _ => state.jumpTo? program name
  | .jumpIfNotEqual name, right :: left :: stack =>
      match processor.equal? left right with
      | some true => some { state with stack }
      | some false => { state with stack }.jumpTo? program name
      | none => none
  | _, _ => none

/-- One step. There is none after the last operation, and none at an error. -/
def step (program : Program) (state : State) : Option State :=
  match state.remaining with
  | [] => none
  | operation :: remaining => processor.execute program operation { state with remaining }

/-- Some number of steps leads from one state to another. -/
def Reaches (program : Program) : State → State → Prop :=
  Relation.ReflTransGen fun state next => processor.step program state = some next

end Processor

@[simp] theorem labelsOf_append (first second : List Operation)
    : labelsOf (first ++ second) = labelsOf first ++ labelsOf second :=
  List.filterMap_append

/-- A label is found behind operations without it, by induction on these. -/
theorem afterLabel?_append {name : String} {before : List Operation}
    (absent : name ∉ labelsOf before) (after : List Operation)
    : afterLabel? name (before ++ .label name :: after) = some after := by
  induction before with
  | nil => simp [afterLabel?]
  | cons operation others ih =>
      have absentLater : name ∉ labelsOf others := by
        intro member
        exact absent (by
          rw [← List.singleton_append, labelsOf_append]
          exact List.mem_append_right _ member)
      have later := ih absentLater
      cases operation with
      | label other =>
          have differs : other ≠ name := by
            rintro rfl
            exact absent List.mem_cons_self
          rw [List.cons_append, afterLabel?, if_neg differs, later]
      | _ => exact later

/-- In a program a label is found where it stands. -/
theorem Program.afterLabel?_eq (program : Program) {name : String} (before : List Operation)
    {after : List Operation} (split : program.operations = before ++ .label name :: after)
    : afterLabel? name program.operations = some after := by
  have distinct := program.distinct
  rw [split, labelsOf_append] at distinct
  rw [split]
  refine afterLabel?_append (fun member => ?_) after
  exact (List.nodup_append.mp distinct).2.2 name member name List.mem_cons_self rfl

-----------------------------------------------------------------------------------------
-- What a step does
-----------------------------------------------------------------------------------------

namespace Processor

variable {processor : Processor} {program : Program} {rest : List Operation} {stack : List Value}
  {globals : Bindings} {locals : List Bindings} {temporary : Option Bindings}

/-- A step before others. -/
theorem Reaches.head {first second last : State}
    (stepped : processor.step program first = some second)
    (others : processor.Reaches program second last)
    : processor.Reaches program first last :=
  Relation.ReflTransGen.head stepped others

theorem evaluate?_global {name : String} {value : Value}
    (isValue : globals name = some (some value))
    : State.evaluate? ⟨rest, stack, globals, locals, temporary⟩ (.variable ⟨.globals, name⟩)
      = some value :=
  congrArg Option.join isValue

theorem evaluate?_local {top : Bindings} {name : String} {value : Value}
    (isValue : top name = some (some value))
    : State.evaluate? ⟨rest, stack, globals, top :: locals, temporary⟩ (.variable ⟨.locals, name⟩)
      = some value :=
  congrArg Option.join isValue

theorem step_push {symb : Symb} {value : Value}
    (evaluated : State.evaluate? ⟨rest, stack, globals, locals, temporary⟩ symb = some value)
    : processor.step program ⟨.push symb :: rest, stack, globals, locals, temporary⟩
      = some ⟨rest, value :: stack, globals, locals, temporary⟩ := by
  change (State.evaluate? ⟨rest, stack, globals, locals, temporary⟩ symb).map _ = _
  rw [evaluated]
  rfl

theorem step_pop_global {name : String} (declared : (globals name).isSome = true) (value : Value)
    : processor.step program
        ⟨.pop ⟨.globals, name⟩ :: rest, value :: stack, globals, locals, temporary⟩
      = some
          ⟨rest, stack, Function.update globals name (some (some value)), locals, temporary⟩ := by
  change (Bindings.assign? globals name value).map _ = _
  rw [Bindings.assign?, if_pos declared]
  rfl

theorem step_defVar_local {name : String} {top : Bindings} (undeclared : top name = none)
    : processor.step program
        ⟨.defVar ⟨.locals, name⟩ :: rest, stack, globals, top :: locals, temporary⟩
      = some ⟨rest, stack, globals, Function.update top name (some none) :: locals, temporary⟩ := by
  change (Bindings.declare? top name).map _ = _
  rw [Bindings.declare?, undeclared]
  rfl

theorem step_pop_local {name : String} {top : Bindings} (declared : (top name).isSome = true)
    (value : Value)
    : processor.step program
        ⟨.pop ⟨.locals, name⟩ :: rest, value :: stack, globals, top :: locals, temporary⟩
      = some ⟨rest, stack, globals, Function.update top name (some (some value)) :: locals,
          temporary⟩ := by
  change (Bindings.assign? top name value).map _ = _
  rw [Bindings.assign?, if_pos declared]
  rfl

theorem step_concat {target first second : String} {left right : String}
    (declared : (globals target).isSome = true)
    (isFirst : globals first = some (some (.string left)))
    (isSecond : globals second = some (some (.string right)))
    : processor.step program
        ⟨.concat ⟨.globals, target⟩ (.variable ⟨.globals, first⟩) (.variable ⟨.globals, second⟩)
          :: rest, stack, globals, locals, temporary⟩
      = some ⟨rest, stack, Function.update globals target (some (some (.string (left ++ right)))),
          locals, temporary⟩ := by
  unfold step execute
  dsimp only
  rw [evaluate?_global isFirst, evaluate?_global isSecond]
  change (Bindings.assign? globals target _).map _ = _
  rw [Bindings.assign?, if_pos declared]
  rfl

theorem step_less {left right : Value} (sameType : left.type = right.type) (notNil : left ≠ .nil)
    : processor.step program
        ⟨.less :: rest, right :: left :: stack, globals, locals, temporary⟩
      = some ⟨rest, .bool (processor.less left right) :: stack, globals, locals, temporary⟩ := by
  change (order? processor.less left right).map _ = _
  rw [order?, if_pos ⟨sameType, notNil⟩]
  rfl

theorem step_greater {left right : Value} (sameType : left.type = right.type)
    (notNil : left ≠ .nil)
    : processor.step program
        ⟨.greater :: rest, right :: left :: stack, globals, locals, temporary⟩
      = some ⟨rest, .bool (processor.greater left right) :: stack, globals, locals, temporary⟩ := by
  change (order? processor.greater left right).map _ = _
  rw [order?, if_pos ⟨sameType, notNil⟩]
  rfl

theorem step_equal {left right : Value} {holds : Bool}
    (compared : processor.equal? left right = some holds)
    : processor.step program
        ⟨.equal :: rest, right :: left :: stack, globals, locals, temporary⟩
      = some ⟨rest, .bool holds :: stack, globals, locals, temporary⟩ := by
  change (processor.equal? left right).map _ = _
  rw [compared]
  rfl

theorem step_not (holds : Bool)
    : processor.step program ⟨.not :: rest, .bool holds :: stack, globals, locals, temporary⟩
      = some ⟨rest, .bool (!holds) :: stack, globals, locals, temporary⟩ :=
  rfl

theorem equal?_nil (value : Value)
    : processor.equal? .nil value = some (decide (value = .nil)) := by
  rw [equal?, if_pos (.inr (.inl rfl)), equals]
  · simp [eq_comm]
  · simp

theorem equal?_bool (left right : Bool)
    : processor.equal? (.bool left) (.bool right) = some (decide (left = right)) := by
  rw [equal?, if_pos (.inl rfl), equals]
  · simp
  · simp

theorem step_jumpIfNotEqual_true {name : String}
    : processor.step program
        ⟨.jumpIfNotEqual name :: rest, .bool true :: .bool true :: stack, globals, locals,
          temporary⟩
      = some ⟨rest, stack, globals, locals, temporary⟩ := by
  unfold step execute
  dsimp only
  rw [equal?_bool]
  rfl

theorem step_jumpIfNotEqual_false {name : String} {after : List Operation}
    (found : afterLabel? name program.operations = some after)
    : processor.step program
        ⟨.jumpIfNotEqual name :: rest, .bool true :: .bool false :: stack, globals, locals,
          temporary⟩
      = some ⟨after, stack, globals, locals, temporary⟩ := by
  unfold step execute
  dsimp only
  rw [equal?_bool]
  change (afterLabel? name program.operations).map _ = _
  rw [found]
  rfl

theorem step_jump {name : String} {after : List Operation}
    (found : afterLabel? name program.operations = some after)
    : processor.step program ⟨.jump name :: rest, stack, globals, locals, temporary⟩
      = some ⟨after, stack, globals, locals, temporary⟩ := by
  change (afterLabel? name program.operations).map _ = _
  rw [found]
  rfl

end Processor

end ExprCompiler.Assembly

import ExprCompiler.Proofs.Target.Interpreter

/-! The operations of an instruction do what it does, wherever they stand in a program. What they
do to the frames is part of `Simulates`, so that it carries over from one instruction
(`simulates_instruction`) to a list of them (`simulates_code`).
-/

namespace ExprCompiler

/-- An instruction with one pattern for all pushed floats that are no numbers. -/
def Instruction.canonical : Instruction → Instruction
  | .push (.double value) => .push (.double value.canonical)
  | instruction => instruction

/-- Whether an operation is for the operands that it is said to have. -/
def ArithOp.isFor (op : ArithOp) (onInts : Bool) : Bool :=
  match op with
  | .divideFloats => !onInts
  | .divideInts => onInts
  | .add | .subtract | .multiply => true

namespace Assembly.Processor

variable (processor : Processor)

/-- How the processor answers comparisons; three are the negations of the others. -/
def compares : CompareOp → Value → Value → Bool
  | .less, left, right => processor.less left right
  | .greater, left, right => processor.greater left right
  | .equal, left, right => processor.equals left right
  | .lessEqual, left, right => !processor.greater left right
  | .greaterEqual, left, right => !processor.less left right
  | .notEqual, left, right => !processor.equals left right

/-- The machine for instructions that has the processor, and variables with the given values. -/
def machine (valueOf : String → UInt32 → Bool → Value) : Machine where
  valueOf := valueOf
  ints := processor.ints
  floats := processor.floats
  toFloat := processor.toFloat
  compare := processor.compares

/-- What an instruction makes of a stack. Integers and floats have a division of their own. -/
def perform (valueOf : String → UInt32 → Bool → Value) (instruction : Instruction)
    (stack : List Value)
    : Except Trap (List Value) :=
  match instruction with
  | .arith op onInts =>
      if op.isFor onInts then (processor.machine valueOf).step 0 (.arith op onInts) stack
      else .error .wrongType
  | instruction => (processor.machine valueOf).step 0 instruction.canonical stack

/-- What instructions make of a stack, one after the other. -/
def performAll (valueOf : String → UInt32 → Bool → Value)
    : List Instruction → List Value → Except Trap (List Value)
  | [], stack => .ok stack
  | instruction :: code, stack =>
      match processor.perform valueOf instruction stack with
      | .ok next => performAll valueOf code next
      | .error trap => .error trap

end Assembly.Processor

namespace Assembly

-----------------------------------------------------------------------------------------
-- One instruction
-----------------------------------------------------------------------------------------

/-- The names of the variables that generated code shares. -/
def helpers : List String :=
  [firstParam.name, secondParam.name, result.name]

/-- The local frames are the same, and so are the global variables but for the helpers, which
stay declared.
-/
structure State.Keeps (before after : State) : Prop where
  locals : after.locals = before.locals
  globals : ∀ name ∉ helpers, after.globals name = before.globals name
  declared : ∀ name, (before.globals name).isSome = true → (after.globals name).isSome = true

theorem State.Keeps.of_eq {before after : State} (locals : after.locals = before.locals)
    (globals : after.globals = before.globals)
    : before.Keeps after where
  locals := locals
  globals := fun name _ => congrFun globals name
  declared := fun name declared => by rwa [globals]

theorem State.Keeps.trans {first second third : State} (before : first.Keeps second)
    (after : second.Keeps third)
    : first.Keeps third where
  locals := after.locals.trans before.locals
  globals := fun name other => (after.globals name other).trans (before.globals name other)
  declared := fun name declared => after.declared name (before.declared name declared)

/-- Giving a helper a value keeps everything else. -/
theorem State.Keeps.assign {before after : State} (locals : after.locals = before.locals)
    {name : String} (helper : name ∈ helpers) {value : Value}
    (assigned : after.globals = Function.update before.globals name (some (some value)))
    : before.Keeps after where
  locals := locals
  globals := by
    intro other notHelper
    have differs : other ≠ name := fun same => notHelper (same ▸ helper)
    rw [assigned, Function.update_of_ne differs]
  declared := by
    intro other declared
    by_cases same : other = name
    · rw [assigned, same, Function.update_self]
      rfl
    · rwa [assigned, Function.update_of_ne same]

/-- The operations of an instruction. -/
def operationsOf (branch : UInt32) (instruction : Instruction) : List Operation :=
  (instruction.lines branch).map Line.operation

namespace Processor

variable (processor : Processor) (program : Program)

/-- From `state` the program gets to `rest` with the data stack `final`. -/
def Simulates (state : State) (rest : List Operation) (final : List Value) : Prop :=
  ∃ last, processor.Reaches program state last ∧ last.remaining = rest ∧ last.stack = final
    ∧ state.Keeps last

variable {processor program} {rest : List Operation} {stack final : List Value}
  {globals : Bindings} {locals : List Bindings} {temporary : Option Bindings}
  {valueOf : String → UInt32 → Bool → Value}

theorem Simulates.done (state : State)
    : processor.Simulates program state state.remaining state.stack :=
  ⟨state, .refl, rfl, rfl, .of_eq rfl rfl⟩

/-- Steps that keep the frames, before others. -/
theorem Simulates.after {first second : State} (reaches : processor.Reaches program first second)
    (keeps : first.Keeps second) (later : processor.Simulates program second rest final)
    : processor.Simulates program first rest final := by
  obtain ⟨last, reachesLast, isRest, isFinal, keepsLast⟩ := later
  exact ⟨last, reaches.trans reachesLast, isRest, isFinal, keeps.trans keepsLast⟩

/-- A step that changes the stack only. -/
theorem Simulates.of_step {operation : Operation}
    (stepped : processor.step program ⟨operation :: rest, stack, globals, locals, temporary⟩
      = some ⟨rest, final, globals, locals, temporary⟩)
    : processor.Simulates program ⟨operation :: rest, stack, globals, locals, temporary⟩ rest
        final :=
  .after (.head stepped .refl) (.of_eq rfl rfl) (.done _)

/-- What an instruction other than arithmetic does is what the machine for instructions does. -/
theorem execute_of_perform {instruction : Instruction}
    (notArith : ∀ op onInts, instruction ≠ .arith op onInts)
    (performed : processor.perform valueOf instruction stack = .ok final)
    : (processor.machine valueOf).execute instruction.canonical stack = .ok final := by
  have stepped : (processor.machine valueOf).step 0 instruction.canonical stack = .ok final := by
    cases instruction with
    | arith op onInts => exact absurd rfl (notArith op onInts)
    | _ => exact performed
  unfold Machine.step at stepped
  split at stepped
  · cases stepped
  · exact stepped

theorem arith?_of_calculate {op : ArithOp} {onInts : Bool} {left right value : Value}
    (suits : op.isFor onInts = true)
    (calculated : (processor.machine valueOf).calculate op onInts left right = .ok value)
    : processor.arith? op left right = some value := by
  match onInts, left, right, calculated with
  | true, .int left, .int right, calculated =>
      simp only [Machine.calculate] at calculated
      split at calculated
      · cases calculated
      · next noZero =>
          cases calculated
          refine if_neg ?_
          cases op <;> simp_all [ArithOp.isFor, ArithOp.divides]
  | false, .float left, .float right, calculated =>
      simp only [Machine.calculate] at calculated
      split at calculated
      · cases calculated
      · next noZero =>
          cases calculated
          refine if_neg ?_
          cases op <;> simp_all [ArithOp.isFor, ArithOp.divides]

theorem simulates_arith {op : ArithOp} {onInts : Bool}
    (performed : processor.perform valueOf (.arith op onInts) stack = .ok final)
    : processor.Simulates program ⟨.arith op :: rest, stack, globals, locals, temporary⟩ rest
        final := by
  simp only [perform] at performed
  split at performed
  · next suits =>
      match stack, performed with
      | right :: left :: below, performed =>
          change ((processor.machine valueOf).calculate op onInts left right).map (· :: below)
            = .ok final at performed
          cases calculated : (processor.machine valueOf).calculate op onInts left right with
          | error trap =>
              rw [calculated] at performed
              cases performed
          | ok value =>
              rw [calculated] at performed
              cases performed
              refine .of_step ?_
              change (processor.arith? op left right).map _ = _
              rw [arith?_of_calculate suits calculated]
              rfl
  · cases performed

/-- Two steps that change the stack only. -/
theorem Simulates.of_steps {first second : Operation} {between : List Value}
    (stepped : processor.step program
        ⟨first :: second :: rest, stack, globals, locals, temporary⟩
      = some ⟨second :: rest, between, globals, locals, temporary⟩)
    (steppedAgain : processor.step program ⟨second :: rest, between, globals, locals, temporary⟩
      = some ⟨rest, final, globals, locals, temporary⟩)
    : processor.Simulates program ⟨first :: second :: rest, stack, globals, locals, temporary⟩
        rest final :=
  .after (.head stepped .refl) (.of_eq rfl rfl) (.of_step steppedAgain)

theorem equal?_of_accepts {left right : Value}
    (accepted : CompareOp.equal.accepts left right = true)
    : processor.equal? left right = some (processor.equals left right) := by
  simp only [CompareOp.accepts, Bool.or_eq_true, decide_eq_true_eq, or_assoc] at accepted
  exact if_pos accepted

theorem ordered_of_accepts {left right : Value}
    (accepted : CompareOp.less.accepts left right = true)
    : left.type = right.type ∧ left ≠ .nil := by
  simp only [CompareOp.accepts, Bool.and_eq_true, decide_eq_true_eq] at accepted
  exact accepted.1

/-- A comparison is one of three, or one of them negated. -/
theorem simulates_compare {op : CompareOp} (branch : UInt32)
    (performed : processor.perform valueOf (.compare op) stack = .ok final)
    : processor.Simulates program
        ⟨operationsOf branch (.compare op) ++ rest, stack, globals, locals, temporary⟩ rest
        final := by
  have executed := execute_of_perform (by simp) performed
  match stack, executed with
  | right :: left :: below, executed =>
      change ((processor.machine valueOf).relate op left right).map (· :: below) = .ok final
        at executed
      unfold Machine.relate at executed
      split at executed
      · next accepted =>
          cases executed
          cases op with
          | less =>
              obtain ⟨sameType, notNil⟩ := ordered_of_accepts accepted
              exact .of_step (step_less sameType notNil)
          | greater =>
              obtain ⟨sameType, notNil⟩ := ordered_of_accepts accepted
              exact .of_step (step_greater sameType notNil)
          | equal => exact .of_step (step_equal (equal?_of_accepts accepted))
          | lessEqual =>
              obtain ⟨sameType, notNil⟩ := ordered_of_accepts accepted
              exact .of_steps (step_greater sameType notNil) (step_not _)
          | greaterEqual =>
              obtain ⟨sameType, notNil⟩ := ordered_of_accepts accepted
              exact .of_steps (step_less sameType notNil) (step_not _)
          | notEqual =>
              exact .of_steps (step_equal (equal?_of_accepts accepted)) (step_not _)
      · cases executed

/-- A pushed operand has the value that the machine for instructions loads. -/
theorem simulates_push {operand : Operand} (branch : UInt32)
    (holds : ∀ name uid global, operand = .variable name uid global →
      State.evaluate? ⟨rest, stack, globals, locals, temporary⟩ operand.symb
        = some (valueOf name uid global))
    (performed : processor.perform valueOf (.push operand) stack = .ok final)
    : processor.Simulates program
        ⟨operationsOf branch (.push operand) ++ rest, stack, globals, locals, temporary⟩ rest
        final := by
  have executed := execute_of_perform (by simp) performed
  change processor.Simulates program
    ⟨.push operand.symb.canonical :: rest, stack, globals, locals, temporary⟩ rest final
  refine .of_step ?_
  match operand with
  | .int value | .double value | .string value | .nil =>
      cases executed
      rfl
  | .variable name uid global =>
      cases executed
      exact step_push (holds name uid global rfl)

/-- The helpers are declared. -/
def DeclaresHelpers (globals : Bindings) : Prop :=
  ∀ name ∈ helpers, (globals name).isSome = true

theorem simulates_intToFloatTop (branch : UInt32)
    (performed : processor.perform valueOf .intToFloatTop stack = .ok final)
    : processor.Simulates program
        ⟨operationsOf branch .intToFloatTop ++ rest, stack, globals, locals, temporary⟩ rest
        final := by
  have executed := execute_of_perform (by simp) performed
  match stack, executed with
  | .int value :: below, executed =>
      cases executed
      exact .of_step rfl

/-- The value on top waits in a helper while the one below is converted. -/
theorem simulates_intToFloatSecond (branch : UInt32) (declared : DeclaresHelpers globals)
    (performed : processor.perform valueOf .intToFloatSecond stack = .ok final)
    : processor.Simulates program
        ⟨operationsOf branch .intToFloatSecond ++ rest, stack, globals, locals, temporary⟩ rest
        final := by
  have executed := execute_of_perform (by simp) performed
  match stack, executed with
  | top :: .int second :: below, executed =>
      cases executed
      have isDeclared := declared secondParam.name (by decide)
      refine .after (.head (step_pop_global isDeclared top) .refl)
        (.assign rfl (by decide) rfl) (.of_steps rfl (step_push (evaluate?_global ?_)))
      exact Function.update_self ..

/-- The operands of a concatenation wait in two helpers, and its result in the third. -/
theorem simulates_concat (branch : UInt32) (declared : DeclaresHelpers globals)
    (performed : processor.perform valueOf .concat stack = .ok final)
    : processor.Simulates program
        ⟨operationsOf branch .concat ++ rest, stack, globals, locals, temporary⟩ rest final := by
  have executed := execute_of_perform (by simp) performed
  match stack, executed with
  | right :: left :: below, executed =>
      change (Machine.join left right).map (· :: below) = .ok final at executed
      match left, right, executed with
      | .string left, .string right, executed =>
          cases executed
          have isFirst := declared firstParam.name (by decide)
          have isSecond := declared secondParam.name (by decide)
          have isResult := declared result.name (by decide)
          -- the helpers have different names, so that each keeps its value until it is read
          have firstNotSecond : firstParam.name ≠ secondParam.name := by decide
          have resultNotFirst : result.name ≠ firstParam.name := by decide
          have resultNotSecond : result.name ≠ secondParam.name := by decide
          let popped := Function.update globals secondParam.name (some (some (.string right)))
          let poppedBoth := Function.update popped firstParam.name (some (some (.string left)))
          have declaredFirst : (popped firstParam.name).isSome = true := by
            simp only [popped, Function.update_of_ne firstNotSecond, isFirst]
          have declaredResult : (poppedBoth result.name).isSome = true := by
            simp only [poppedBoth, popped, Function.update_of_ne resultNotFirst,
              Function.update_of_ne resultNotSecond, isResult]
          have firstValue : poppedBoth firstParam.name = some (some (.string left)) :=
            Function.update_self ..
          have secondValue : poppedBoth secondParam.name = some (some (.string right)) := by
            simp only [poppedBoth, popped, Function.update_of_ne firstNotSecond.symm,
              Function.update_self]
          refine .after (.head (step_pop_global isSecond (.string right)) .refl)
            (.assign rfl (by decide) rfl) ?_
          refine .after (.head (step_pop_global declaredFirst (.string left)) .refl)
            (.assign rfl (by decide) rfl) ?_
          refine .after (.head (step_concat declaredResult firstValue secondValue) .refl)
            (.assign rfl (by decide) rfl) ?_
          exact .of_step (step_push (evaluate?_global (Function.update_self ..)))

/-- The frame of a nil check after its operands are in it. -/
def operandFrame (left right : Value) : Bindings :=
  let declaredRight := Function.update Bindings.empty rightOperand.name (some none)
  let assignedRight := Function.update declaredRight rightOperand.name (some (some right))
  let declaredLeft := Function.update assignedRight leftOperand.name (some none)
  Function.update declaredLeft leftOperand.name (some (some left))

theorem operandFrame_left (left right : Value)
    : operandFrame left right leftOperand.name = some (some left) := by
  simp only [operandFrame, Function.update_self]

theorem operandFrame_right (left right : Value)
    : operandFrame left right rightOperand.name = some (some right) := by
  have apart : rightOperand.name ≠ leftOperand.name := by decide
  simp only [operandFrame, Function.update_of_ne apart, Function.update_self]

/-- The operations of a nil check from its condition on. -/
def choice (branch : UInt32) : List Operation :=
  [.jumpIfNotEqual (Label.otherwise branch).text, .push (.variable leftOperand),
    .jump (Label.finish branch).text, .label (Label.otherwise branch).text,
    .push (.variable rightOperand), .label (Label.finish branch).text, .popFrame]

theorem operationsOf_coalesce (branch : UInt32)
    : operationsOf branch .coalesce
      = [.createFrame, .pushFrame, .defVar rightOperand, .pop rightOperand, .defVar leftOperand,
          .pop leftOperand, .push .nil, .push (.variable leftOperand), .equal, .not,
          .push (.bool true)] ++ choice branch :=
  rfl

/-- A nil check moves its operands into a frame of its own and asks whether the left one is
nil.
-/
theorem reaches_choice (branch : UInt32) (left right : Value)
    : processor.Reaches program
        ⟨operationsOf branch .coalesce ++ rest, right :: left :: stack, globals, locals, temporary⟩
        ⟨choice branch ++ rest, .bool true :: .bool (!decide (left = .nil)) :: stack, globals,
          operandFrame left right :: locals, none⟩ := by
  have apart : "op_1" ≠ "op_2" := by decide
  rw [operationsOf_coalesce]
  simp only [List.cons_append, List.nil_append]
  refine .head rfl (.head rfl (.head (step_defVar_local rfl) ?_))
  refine .head (step_pop_local (by rw [Function.update_self]; rfl) right) ?_
  refine .head (step_defVar_local ?_) ?_
  · rw [Function.update_of_ne apart, Function.update_of_ne apart]
    rfl
  refine .head (step_pop_local (by rw [Function.update_self]; rfl) left) ?_
  refine .head rfl (.head (step_push (evaluate?_local (operandFrame_left left right))) ?_)
  refine .head (step_equal (equal?_nil left)) (.head (step_not _) (.head (step_push rfl) ?_))
  exact .refl

/-- The condition leads to the push of one operand, and both ways end in dropping the frame. -/
theorem reaches_chosen {branch : UInt32} {before : List Operation}
    (here : program.operations = before ++ choice branch ++ rest) (left right : Value)
    : processor.Reaches program
        ⟨choice branch ++ rest, .bool true :: .bool (!decide (left = .nil)) :: stack, globals,
          operandFrame left right :: locals, none⟩
        ⟨rest, (if left = .nil then right else left) :: stack, globals, locals,
          some (operandFrame left right)⟩ := by
  have elseFound : afterLabel? (Label.otherwise branch).text program.operations
      = some (.push (.variable rightOperand) :: .label (Label.finish branch).text :: .popFrame
          :: rest) := by
    refine program.afterLabel?_eq (before ++ (choice branch).take 3) ?_
    rw [here]
    simp [choice]
  have finishFound : afterLabel? (Label.finish branch).text program.operations
      = some (.popFrame :: rest) := by
    refine program.afterLabel?_eq (before ++ (choice branch).take 5) ?_
    rw [here]
    simp [choice]
  simp only [choice, List.cons_append, List.nil_append]
  by_cases isNil : left = .nil
  · rw [if_pos isNil, decide_eq_true isNil]
    refine .head (step_jumpIfNotEqual_false elseFound) ?_
    exact .head (step_push (evaluate?_local (operandFrame_right left right)))
      (.head rfl (.head rfl .refl))
  · rw [if_neg isNil, decide_eq_false isNil]
    refine .head step_jumpIfNotEqual_true ?_
    exact .head (step_push (evaluate?_local (operandFrame_left left right)))
      (.head (step_jump finishFound) (.head rfl .refl))

/-- A nil check leaves the left operand, or the right one if the left one is nil. -/
theorem simulates_coalesce {branch : UInt32} {before : List Operation}
    (here : program.operations = before ++ operationsOf branch .coalesce ++ rest)
    (performed : processor.perform valueOf .coalesce stack = .ok final)
    : processor.Simulates program
        ⟨operationsOf branch .coalesce ++ rest, stack, globals, locals, temporary⟩ rest final := by
  have executed := execute_of_perform (by simp) performed
  match stack, executed with
  | right :: left :: below, executed =>
      cases executed
      rw [operationsOf_coalesce, ← List.append_assoc] at here
      exact .after ((reaches_choice branch left right).trans (reaches_chosen here left right))
        (.of_eq rfl rfl) (.done _)

/-- The operations of an instruction do what it does. -/
theorem simulates_instruction {instruction : Instruction} {branch : UInt32}
    {before : List Operation}
    (here : program.operations = before ++ operationsOf branch instruction ++ rest)
    (declared : DeclaresHelpers globals)
    (holds : ∀ name uid global, instruction = .push (.variable name uid global) →
      State.evaluate? ⟨rest, stack, globals, locals, temporary⟩
        (Operand.variable name uid global).symb = some (valueOf name uid global))
    (performed : processor.perform valueOf instruction stack = .ok final)
    : processor.Simulates program
        ⟨operationsOf branch instruction ++ rest, stack, globals, locals, temporary⟩ rest
        final := by
  cases instruction with
  | push operand =>
      refine simulates_push branch (fun name uid global isVariable => ?_) performed
      rw [isVariable]
      exact holds name uid global (congrArg Instruction.push isVariable)
  | arith op onInts =>
      have single : operationsOf branch (.arith op onInts) = [.arith op] := by cases op <;> rfl
      rw [single]
      exact simulates_arith performed
  | compare op => exact simulates_compare branch performed
  | concat => exact simulates_concat branch declared performed
  | intToFloatTop => exact simulates_intToFloatTop branch performed
  | intToFloatSecond => exact simulates_intToFloatSecond branch declared performed
  | coalesce => exact simulates_coalesce here performed

end Processor

-----------------------------------------------------------------------------------------
-- All instructions
-----------------------------------------------------------------------------------------

/-- No helper is named like a numbered identifier. -/
theorem numbered_not_mem_helpers {name : String} (identifier : isIdentifier name = true)
    (number : Nat)
    : name ++ "_" ++ Nat.repr number ∉ helpers := by
  intro member
  simp only [isIdentifier, Bool.and_eq_true, List.all_eq_true] at identifier
  -- all helpers start with a question mark
  have marked : ∀ helper ∈ helpers, helper.toList.head? = some '?' := by decide
  have first := marked _ member
  rw [String.toList_append, String.toList_append] at first
  cases chars : name.toList with
  | nil => simp [chars] at identifier
  | cons char others =>
      rw [chars] at first identifier
      cases first
      exact absurd (identifier.1 '?' List.mem_cons_self) (by decide)

/-- A variable of the program has the same value in frames that differ in helpers only. -/
theorem State.Keeps.evaluate?_eq {before after : State} (keeps : before.Keeps after)
    {name : String} (identifier : isIdentifier name = true) (uid : UInt32) (global : Bool)
    : after.evaluate? (Operand.variable name uid global).symb
      = before.evaluate? (Operand.variable name uid global).symb := by
  cases global with
  | true =>
      exact congrArg Option.join (keeps.globals _ (numbered_not_mem_helpers identifier uid.toNat))
  | false =>
      simp only [Operand.symb, State.evaluate?, State.valueOf?, Bool.false_eq_true, if_false,
        keeps.locals]
      cases before.locals <;> rfl

namespace Processor

variable {processor : Processor} {program : Program}
  {valueOf : String → UInt32 → Bool → Value}

/-- The operations of several instructions do what these do, by induction on the instructions. -/
theorem simulates_code {code : List Instruction} {branch : UInt32} {before : List Operation}
    {state : State} {final : List Value}
    (here : program.operations = before ++ (Instruction.linesOf branch code).map Line.operation)
    (isNext : state.remaining = (Instruction.linesOf branch code).map Line.operation)
    (declared : DeclaresHelpers state.globals)
    (identifiers : ∀ name uid global, .push (.variable name uid global) ∈ code →
      isIdentifier name = true)
    (holds : ∀ name uid global, .push (.variable name uid global) ∈ code →
      state.evaluate? (Operand.variable name uid global).symb = some (valueOf name uid global))
    (performed : processor.performAll valueOf code state.stack = .ok final)
    : processor.Simulates program state [] final := by
  induction code generalizing branch before state with
  | nil =>
      cases performed
      rw [← show state.remaining = [] from isNext]
      exact .done state
  | cons instruction others ih =>
      rw [Instruction.linesOf, List.map_append] at here isNext
      rw [← List.append_assoc] at here
      obtain ⟨remaining, stack, globals, locals, temporary⟩ := state
      subst isNext
      unfold performAll at performed
      split at performed
      · next between performedFirst =>
          obtain ⟨middle, reaches, isRest, isBetween, keeps⟩ :=
            simulates_instruction here declared
              (fun name uid global isPush => holds name uid global (isPush ▸ List.mem_cons_self))
              performedFirst
          refine .after reaches keeps (ih here isRest ?_ ?_ ?_ ?_)
          · exact fun name isHelper => keeps.declared name (declared name isHelper)
          · exact fun name uid global member =>
              identifiers name uid global (List.mem_cons_of_mem _ member)
          · intro name uid global member
            have inCode := List.mem_cons_of_mem instruction member
            rw [keeps.evaluate?_eq (identifiers name uid global inCode)]
            exact holds name uid global inCode
          · rw [isBetween]
            exact performed
      · cases performed

end Processor

end Assembly

end ExprCompiler

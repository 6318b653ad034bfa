import ExprCompiler.Proofs.Target.Simulation

/-! The text of some instructions does what the instructions do. It reads back as their
operations, and no label stands twice in it, so that it is a program.
-/

namespace ExprCompiler.Assembly

/-- The variables in the lines of an instruction have proper names. -/
theorem all_isReadable_lines {instruction : Instruction}
    (identifiers : ∀ name uid global, instruction = .push (.variable name uid global) →
      isIdentifier name = true)
    (branch : UInt32)
    : (instruction.lines branch).all Line.isReadable = true := by
  match instruction with
  | .push (.variable name uid global) =>
      have named := isName_numbered (identifiers name uid global rfl) uid.toNat
      rw [Instruction.lines, List.all_cons, List.all_nil, Bool.and_true]
      exact named
  | .push (.int _) | .push (.double _) | .push (.string _) | .push .nil => rfl
  | .arith op onInts => cases op <;> rfl
  | .compare op => cases op <;> rfl
  | .concat | .intToFloatTop | .intToFloatSecond | .coalesce => rfl

/-- The variables in the lines of instructions have proper names. -/
theorem isReadable_of_mem_linesOf {code : List Instruction}
    (identifiers : ∀ name uid global, .push (.variable name uid global) ∈ code →
      isIdentifier name = true)
    {branch : UInt32} {line : Line} (member : line ∈ Instruction.linesOf branch code)
    : line.isReadable = true := by
  induction code generalizing branch with
  | nil => cases member
  | cons instruction others ih =>
      rw [Instruction.linesOf, List.mem_append] at member
      rcases member with isFirst | isLater
      · have readable := all_isReadable_lines
          (fun name uid global isPush => identifiers name uid global (isPush ▸ List.mem_cons_self))
          branch
        exact List.all_eq_true.mp readable line isFirst
      · exact ih (fun name uid global inOthers =>
          identifiers name uid global (List.mem_cons_of_mem _ inOthers)) isLater

/-- The number of a label. -/
def Label.branch : Label → UInt32
  | .otherwise branch | .finish branch => branch

theorem branch_eq_of_repr {first second : UInt32}
    (same : (Nat.repr first.toNat).toList = (Nat.repr second.toNat).toList)
    : first = second := by
  have read := numeral?_repr first.toNat
  rw [same, numeral?_repr, Option.some.injEq] at read
  exact UInt32.toNat_inj.mp read.symm

/-- Different labels have different names. -/
theorem Label.text_injective {first second : Label} (same : first.text = second.text)
    : first = second := by
  have chars := congrArg String.toList same
  cases first with
  | otherwise first =>
      cases second with
      | otherwise second =>
          rw [Label.text, Label.text, String.toList_append, String.toList_append] at chars
          rw [branch_eq_of_repr (List.append_cancel_left chars)]
      | finish second => simp [Label.text] at chars
  | finish first =>
      cases second with
      | otherwise second => simp [Label.text] at chars
      | finish second =>
          rw [Label.text, Label.text, String.toList_append, String.toList_append] at chars
          rw [branch_eq_of_repr (List.append_cancel_left chars)]

/-- Only a nil check has labels, and they bear its number. -/
theorem labelsOf_operationsOf (branch : UInt32) (instruction : Instruction)
    : labelsOf (operationsOf branch instruction)
      = if instruction = .coalesce then [(Label.otherwise branch).text, (Label.finish branch).text]
        else [] := by
  cases instruction with
  | arith op onInts => cases op <;> rfl
  | compare op => cases op <;> rfl
  | push _ | concat | intToFloatTop | intToFloatSecond | coalesce => rfl

/-- Each nil check uses one number up, as long as there are enough. -/
theorem toNat_nextBranch {instruction : Instruction} {others : List Instruction} {branch : UInt32}
    (room : branch.toNat + (instruction :: others).count .coalesce < 2 ^ 32)
    : (instruction.nextBranch branch).toNat + others.count .coalesce
        = branch.toNat + (instruction :: others).count .coalesce
      ∧ branch.toNat ≤ (instruction.nextBranch branch).toNat := by
  by_cases isCheck : instruction = .coalesce
  · subst isCheck
    rw [List.count_cons_self] at room ⊢
    have next : (branch + 1).toNat = branch.toNat + 1 := by
      rw [UInt32.toNat_add]
      exact Nat.mod_eq_of_lt (by change branch.toNat + 1 < 2 ^ 32; omega)
    rw [Instruction.nextBranch, next]
    omega
  · have same : instruction.nextBranch branch = branch := by
      cases instruction <;> first | rfl | exact absurd rfl isCheck
    rw [List.count_cons_of_ne isCheck, same]
    exact ⟨rfl, Nat.le_refl _⟩

/-- The labels of some code are numbered from its first branch on. -/
theorem exists_label_of_mem {code : List Instruction} {branch : UInt32} {name : String}
    (room : branch.toNat + code.count .coalesce < 2 ^ 32)
    (member : name ∈ labelsOf ((Instruction.linesOf branch code).map Line.operation))
    : ∃ place : Label, place.text = name ∧ branch.toNat ≤ place.branch.toNat := by
  induction code generalizing branch with
  | nil => cases member
  | cons instruction others ih =>
      obtain ⟨total, noLess⟩ := toNat_nextBranch room
      rw [Instruction.linesOf, List.map_append, labelsOf_append, List.mem_append] at member
      rcases member with isFirst | isLater
      · change name ∈ labelsOf (operationsOf branch instruction) at isFirst
        rw [labelsOf_operationsOf] at isFirst
        split at isFirst
        · simp only [List.mem_cons, List.not_mem_nil, or_false] at isFirst
          rcases isFirst with rfl | rfl
          · exact ⟨.otherwise branch, rfl, Nat.le_refl _⟩
          · exact ⟨.finish branch, rfl, Nat.le_refl _⟩
        · cases isFirst
      · obtain ⟨place, named, atLeast⟩ := ih (total ▸ room) isLater
        exact ⟨place, named, Nat.le_trans noLess atLeast⟩

/-- No label stands twice. By induction on the instructions: the labels after a nil check have
larger numbers than its own.
-/
theorem nodup_labelsOf {code : List Instruction} {branch : UInt32}
    (room : branch.toNat + code.count .coalesce < 2 ^ 32)
    : (labelsOf ((Instruction.linesOf branch code).map Line.operation)).Nodup := by
  induction code generalizing branch with
  | nil => exact List.nodup_nil
  | cons instruction others ih =>
      obtain ⟨total, -⟩ := toNat_nextBranch room
      have later := ih (total ▸ room)
      rw [Instruction.linesOf, List.map_append, labelsOf_append]
      change (labelsOf (operationsOf branch instruction) ++ _).Nodup
      rw [labelsOf_operationsOf]
      split
      · next isCheck =>
          subst isCheck
          have apart : ∀ place : Label, place.branch = branch →
              place.text ∉ labelsOf ((Instruction.linesOf (Instruction.nextBranch branch .coalesce)
                others).map Line.operation) := by
            intro place numbered member
            obtain ⟨other, named, atLeast⟩ := exists_label_of_mem (total ▸ room) member
            rw [Label.text_injective named, numbered] at atLeast
            rw [List.count_cons_self] at total
            omega
          have differ : (Label.otherwise branch).text ≠ (Label.finish branch).text :=
            fun same => by cases Label.text_injective same
          refine List.nodup_cons.mpr ⟨?_, List.nodup_cons.mpr ⟨apart (.finish branch) rfl, later⟩⟩
          exact List.not_mem_cons_of_ne_of_not_mem differ (apart (.otherwise branch) rfl)
      · exact later

/-- The text of instructions whose variables are identifiers reads back as a program. -/
theorem exists_ofText?_render {code : List Instruction} {base : UInt32}
    (identifiers : ∀ name uid global, .push (.variable name uid global) ∈ code →
      isIdentifier name = true)
    (room : base.toNat + code.count .coalesce < 2 ^ 32)
    : ∃ program, Program.ofText? (render (Instruction.linesOf base code)) = some program
      ∧ program.operations = (Instruction.linesOf base code).map Line.operation := by
  have read : read? (render (Instruction.linesOf base code))
      = some ((Instruction.linesOf base code).map Line.operation) :=
    read?_render fun line => isReadable_of_mem_linesOf identifiers
  have distinct := nodup_labelsOf room
  refine ⟨⟨_, distinct⟩, ?_, rfl⟩
  simp only [Program.ofText?, read, Option.bind_eq_bind, Option.bind_some, distinct, dite_true]

/-- The text of instructions does what the instructions do. It is a program; and from any state
in which the helpers are declared and the variables have their values, and on whose data stack
the instructions run without a trap, the program runs off its end with the stack that they
leave, with the same local frames, and with the same global variables but for the helpers.
-/
theorem render_linesOf_simulates (processor : Processor) (valueOf : String → UInt32 → Bool → Value)
    (code : List Instruction) (base : UInt32)
    (identifiers : ∀ name uid global, .push (.variable name uid global) ∈ code →
      isIdentifier name = true)
    (room : base.toNat + code.count .coalesce < 2 ^ 32)
    : ∃ program, Program.ofText? (render (Instruction.linesOf base code)) = some program
      ∧ ∀ (state : State) (final : List Value),
          state.remaining = program.operations →
          (∀ name ∈ ["?PARAM_1", "?PARAM_2", "?RESULT_1"], (state.globals name).isSome = true) →
          (∀ name uid global, .push (.variable name uid global) ∈ code →
            state.evaluate? (Operand.variable name uid global).symb
              = some (valueOf name uid global)) →
          processor.performAll valueOf code state.stack = .ok final →
          ∃ last, processor.Reaches program state last
            ∧ last.remaining = []
            ∧ last.stack = final
            ∧ last.locals = state.locals
            ∧ ∀ name ∉ ["?PARAM_1", "?PARAM_2", "?RESULT_1"],
                last.globals name = state.globals name := by
  obtain ⟨program, read, whole⟩ := exists_ofText?_render identifiers room
  refine ⟨program, read, ?_⟩
  intro state final isNext declared holds performed
  have fromStart : program.operations = [] ++ (Instruction.linesOf base code).map Line.operation :=
    whole
  obtain ⟨last, reaches, isEnd, isFinal, keeps⟩ :=
    Processor.simulates_code fromStart (isNext.trans whole) declared identifiers holds performed
  exact ⟨last, reaches, isEnd, isFinal, keeps.locals, keeps.globals⟩

/-- Wraps integers around, orders them, and knows of floats only the nearest ones to them. -/
def Processor.onInts : Processor where
  ints
    | .add, left, right => left + right
    | .subtract, left, right => left - right
    | .multiply, left, right => left * right
    | .divideInts, left, right | .divideFloats, left, right => left / right
  floats := fun _ left _ => left
  toFloat := fun value => Double.ofRatio (value < 0) value.toInt.natAbs 1
  less
    | .int left, .int right => left < right
    | _, _ => false
  greater
    | .int left, .int right => right < left
    | _, _ => false
  floatsEqual := fun left right => left = right

/-- `(x ?? (nil ?? "a")) + "b"` and then `1 != 1.0`, for a local variable `x`. -/
def nestedChoices : List Instruction :=
  [.push (.variable "x" 7 false), .push .nil, .push (.string "a"), .coalesce, .coalesce,
    .push (.string "b"), .concat, .push (.int 1), .push (.double (.ofRatio false 1 1)),
    .intToFloatSecond, .compare .notEqual]

/-- The start of a program with the helpers declared and a local variable `x` that is nil. -/
def Program.startWithNil (program : Program) (stack : List Value) : State where
  remaining := program.operations
  stack := stack
  globals := fun name => if name ∈ helpers then some none else none
  locals := [fun name => if name = "x_7" then some (some .nil) else none]
  temporary := none

theorem render_linesOf_simulates_nested
    : ∃ program, Program.ofText? (render (Instruction.linesOf 4 nestedChoices)) = some program
      ∧ ∃ last, Processor.onInts.Reaches program (program.startWithNil [.int 3]) last
        ∧ last.remaining = []
        ∧ last.stack = [.bool false, .string "ab", .int 3] := by
  have onlyX : ∀ name uid global, .push (.variable name uid global) ∈ nestedChoices →
      name = "x" ∧ uid = 7 ∧ global = false := by
    simp [nestedChoices]
  obtain ⟨program, read, runs⟩ :=
    render_linesOf_simulates Processor.onInts (fun _ _ _ => .nil) nestedChoices 4
      (fun name uid global member => by
        rw [(onlyX name uid global member).1]
        decide)
      (by decide)
  have declared : ∀ name ∈ helpers,
      ((program.startWithNil [.int 3]).globals name).isSome = true := by
    intro name member
    simp only [Program.startWithNil, if_pos member, Option.isSome_some]
  have performed : Processor.onInts.performAll (fun _ _ _ => .nil) nestedChoices [.int 3]
      = .ok [.bool false, .string "ab", .int 3] := by
    decide +kernel
  refine ⟨program, read, ?_⟩
  obtain ⟨last, reaches, isEnd, isFinal, -⟩ :=
    runs (program.startWithNil [.int 3]) _ rfl declared
      (fun name uid global member => by
        obtain ⟨rfl, rfl, rfl⟩ := onlyX name uid global member
        rfl)
      performed
  exact ⟨last, reaches, isEnd, isFinal⟩

end ExprCompiler.Assembly

import ExprCompiler.Proofs.Target.RenderedCode

/-! The text of some instructions can be decoded. The operations of a text are cut into
instructions from the front: the first operation or two tell which instruction stands there,
and where its operations end. All comes back but the mark on arithmetic that says whether
its operands are integers, which no line shows.
-/

namespace ExprCompiler

/-- An instruction without the mark that its operands are integers. -/
def Instruction.unmarked : Instruction → Instruction
  | .arith op _ => .arith op false
  | instruction => instruction

namespace Assembly

/-- Splits the name of a variable into a name and a number, at the last underscore. -/
def numbered? (text : String) : Option (String × UInt32) :=
  match cut '_' text.toList.reverse with
  | (digits, some name) =>
      (numeral? 10 digits.reverse).map fun number => (.ofList name.reverse, .ofNat number)
  | (_, none) => none

/-- The operand that a symbol was written for. -/
def Symb.operand? : Symb → Option Operand
  | .int value => some (.int value)
  | .float value => some (.double value)
  | .string text => some (.string text)
  | .nil => some .nil
  | .variable var =>
      (numbered? var.name).map fun (name, uid) => .variable name uid (var.frame = .globals)
  | .bool _ => none

/-- A comparison, and the operations after it: a `NOTS` belongs to the comparison that it
stands after.
-/
def comparison (plain negated : CompareOp) : List Operation → Instruction × List Operation
  | .not :: later => (.compare negated, later)
  | later => (.compare plain, later)

/-- The instruction that starts with an operation, and the operations after it. A frame is
made for a nil check only, which lasts until the frame is dropped.
-/
def instruction? (first : Operation) (others : List Operation)
    : Option (Instruction × List Operation) :=
  match first, others with
  | .push symb, later => symb.operand?.map fun operand => (.push operand, later)
  | .arith op, later => some (.arith op false, later)
  | .less, later => some (comparison .less .greaterEqual later)
  | .greater, later => some (comparison .greater .lessEqual later)
  | .equal, later => some (comparison .equal .notEqual later)
  | .intToFloat, later => some (.intToFloatTop, later)
  | .pop _, .pop _ :: .concat _ _ _ :: .push _ :: later => some (.concat, later)
  | .pop _, .intToFloat :: .push _ :: later => some (.intToFloatSecond, later)
  | .createFrame, later => some (.coalesce, (later.dropWhile (· ≠ .popFrame)).tail)
  | _, _ => none

theorem length_comparison_le (plain negated : CompareOp) (operations : List Operation)
    : (comparison plain negated operations).2.length ≤ operations.length := by
  fun_cases comparison plain negated operations with
  | case1 later => exact Nat.le_succ later.length
  | case2 later _ => exact Nat.le_refl _

/-- An instruction takes up the operation that it starts with, at least. -/
theorem length_le_of_instruction? {first : Operation} {others later : List Operation}
    {instruction : Instruction} (isFirst : instruction? first others = some (instruction, later))
    : later.length ≤ others.length := by
  revert isFirst
  fun_cases instruction? first others with
  | case1 symb =>
      intro isFirst
      obtain ⟨operand, _, isPush⟩ := Option.map_eq_some_iff.mp isFirst
      cases isPush
      exact Nat.le_refl _
  | case3 | case4 | case5 =>
      rw [Option.some.injEq]
      intro isFirst
      have bound := congrArg (fun read => read.2.length) isFirst
      exact bound ▸ length_comparison_le _ _ others
  | case2 | case6 =>
      rintro ⟨⟩
      exact Nat.le_refl _
  | case7 | case8 =>
      rintro ⟨⟩
      simp only [List.length_cons]
      omega
  | case9 =>
      rintro ⟨⟩
      have dropped := (List.dropWhile_suffix (· ≠ Operation.popFrame) (l := others)).length_le
      rw [List.length_tail]
      omega
  | case10 => rintro ⟨⟩

/-- The instructions that some operations were written for. -/
def instructions? (operations : List Operation) : Option (List Instruction) :=
  match operations with
  | [] => some []
  | first :: others =>
      match _isFirst : instruction? first others with
      | none => none
      | some (instruction, later) => (instructions? later).map (instruction :: ·)
termination_by operations.length
decreasing_by exact Nat.lt_succ_of_le (length_le_of_instruction? _isFirst)

/-- The instructions that a text was written for. -/
def decode? (text : String) : Option (List Instruction) :=
  (read? text).bind instructions?

/-- A number has no underscore, so that the last one ends the name. -/
theorem numbered?_append (name : String) (uid : UInt32)
    : numbered? (name ++ "_" ++ Nat.repr uid.toNat) = some (name, uid) := by
  have absent : '_' ∉ (Nat.repr uid.toNat).toList.reverse := by
    rw [List.mem_reverse, Nat.toList_repr]
    intro member
    have isDigit := Nat.isDigit_of_mem_toDigits (by decide) (by decide) member
    exact absurd isDigit (by decide)
  have backwards : (name ++ "_" ++ Nat.repr uid.toNat).toList.reverse
      = (Nat.repr uid.toNat).toList.reverse ++ '_' :: name.toList.reverse := by
    simp
  rw [numbered?, backwards, cut_append absent]
  simp only [List.reverse_reverse, numeral?_repr, Option.map_some, String.ofList_toList,
    UInt32.ofNat_toNat]

/-- An operand comes back from its symbol, floats by their bits. -/
theorem operand?_symb {operand : Operand}
    (numbers : ∀ value, operand = .double value → value.isNaN = false)
    : operand.symb.canonical.operand? = some operand := by
  match operand with
  | .int _ | .string _ | .nil => rfl
  | .double value =>
      have same : value.canonical = value := by
        rw [Double.canonical, numbers value rfl]
        rfl
      rw [Operand.symb, Symb.canonical, same]
      rfl
  | .variable name uid global =>
      have isVariable : (Operand.variable name uid global).symb.canonical
          = .variable ⟨if global then .globals else .locals, name ++ "_" ++ Nat.repr uid.toNat⟩ :=
        rfl
      rw [isVariable, Symb.operand?, numbered?_append]
      cases global <;> rfl

/-- No instruction starts with a `NOTS`, so none changes the comparison before it. -/
theorem head?_operations_ne_not (branch : UInt32) (code : List Instruction)
    : ((Instruction.linesOf branch code).map Line.operation).head? ≠ some .not := by
  cases code with
  | nil => exact fun isHead => Option.noConfusion rfl (heq_of_eq isHead)
  | cons instruction others =>
      obtain ⟨first, operations, split, notNegation⟩ : ∃ first operations,
          operationsOf branch instruction = first :: operations ∧ first ≠ .not := by
        cases instruction with
        | arith op onInts => cases op <;> exact ⟨_, _, rfl, by decide⟩
        | compare op => cases op <;> exact ⟨_, _, rfl, by decide⟩
        | push operand => exact ⟨.push operand.symb.canonical, [], rfl, by simp⟩
        | concat | intToFloatTop | intToFloatSecond | coalesce => exact ⟨_, _, rfl, by decide⟩
      rw [Instruction.linesOf, List.map_append]
      change (operationsOf branch instruction ++ _).head? ≠ _
      rw [split]
      exact fun isHead => notNegation (Option.some.inj isHead)

theorem comparison_of_head?_ne_not {later : List Operation} (notNegated : later.head? ≠ some .not)
    (plain negated : CompareOp)
    : comparison plain negated later = (.compare plain, later) := by
  fun_cases comparison plain negated later with
  | case1 later => exact absurd rfl notNegated
  | case2 later _ => rfl

/-- An instruction is told by its first operations and ends where they end, whatever comes
after them.
-/
theorem exists_instruction?_operationsOf {instruction : Instruction}
    (numbers : ∀ value, instruction = .push (.double value) → value.isNaN = false)
    (branch : UInt32) {later : List Operation} (notNegated : later.head? ≠ some .not)
    : ∃ first others, operationsOf branch instruction = first :: others
      ∧ instruction? first (others ++ later) = some (instruction.unmarked, later) := by
  cases instruction with
  | push operand =>
      have back := operand?_symb fun value isDouble => numbers value (congrArg _ isDouble)
      refine ⟨.push operand.symb.canonical, [], rfl, ?_⟩
      rw [instruction?, back]
      rfl
  | arith op onInts => cases op <;> exact ⟨_, _, rfl, rfl⟩
  | compare op =>
      have plain := comparison_of_head?_ne_not notNegated
      cases op with
      | less => exact ⟨_, _, rfl, congrArg some (plain .less _)⟩
      | greater => exact ⟨_, _, rfl, congrArg some (plain .greater _)⟩
      | equal => exact ⟨_, _, rfl, congrArg some (plain .equal _)⟩
      | lessEqual | greaterEqual | notEqual => exact ⟨_, _, rfl, rfl⟩
  | concat => exact ⟨_, _, rfl, rfl⟩
  | intToFloatTop => exact ⟨_, _, rfl, rfl⟩
  | intToFloatSecond => exact ⟨_, _, rfl, rfl⟩
  | coalesce => exact ⟨_, _, rfl, rfl⟩

theorem instructions?_cons {first : Operation} {others later : List Operation}
    {instruction : Instruction} (isFirst : instruction? first others = some (instruction, later))
    : instructions? (first :: others) = (instructions? later).map (instruction :: ·) := by
  rw [instructions?]
  split
  · next unread =>
      rw [isFirst] at unread
      cases unread
  · next read =>
      rw [isFirst] at read
      cases read
      rfl

/-- The operations of instructions decode into them, by induction over the instructions: each
takes its own operations off the front.
-/
theorem instructions?_linesOf {code : List Instruction}
    (numbers : ∀ value, .push (.double value) ∈ code → value.isNaN = false)
    (branch : UInt32)
    : instructions? ((Instruction.linesOf branch code).map Line.operation)
      = some (code.map Instruction.unmarked) := by
  induction code generalizing branch with
  | nil => rw [Instruction.linesOf, List.map_nil, instructions?, List.map_nil]
  | cons instruction others ih =>
      have laterNumbers : ∀ value, .push (.double value) ∈ others → value.isNaN = false :=
        fun value member => numbers value (List.mem_cons_of_mem _ member)
      obtain ⟨first, operations, split, decoded⟩ := exists_instruction?_operationsOf
        (fun value isPush => numbers value (isPush ▸ List.mem_cons_self)) branch
        (head?_operations_ne_not (instruction.nextBranch branch) others)
      rw [Instruction.linesOf, List.map_append]
      change instructions? (operationsOf branch instruction ++ _) = _
      rw [split, List.cons_append, instructions?_cons decoded, ih laterNumbers]
      rfl

/-- No line shows the mark of an instruction. -/
theorem linesOf_map_unmarked (branch : UInt32) (code : List Instruction)
    : Instruction.linesOf branch (code.map Instruction.unmarked)
      = Instruction.linesOf branch code := by
  induction code generalizing branch with
  | nil => rfl
  | cons instruction others ih =>
      have lines : instruction.unmarked.lines branch = instruction.lines branch := by
        cases instruction <;> rfl
      have next : instruction.unmarked.nextBranch branch = instruction.nextBranch branch := by
        cases instruction <;> rfl
      rw [List.map_cons, Instruction.linesOf, Instruction.linesOf, lines, next, ih]

/-- Whether an instruction can be told from its lines: a variable is named by an identifier,
and a float is a number.
-/
def isLegible : Instruction → Bool
  | .push (.variable name _ _) => isIdentifier name
  | .push (.double value) => !value.isNaN
  | _ => true

/-- The text of legible instructions decodes into them. -/
theorem decode?_render {code : List Instruction}
    (legible : ∀ instruction ∈ code, isLegible instruction = true) (branch : UInt32)
    : decode? (render (Instruction.linesOf branch code))
      = some (code.map Instruction.unmarked) := by
  have readable : ∀ line ∈ Instruction.linesOf branch code, line.isReadable = true :=
    fun line => isReadable_of_mem_linesOf fun name uid global => legible _
  have numbers : ∀ value, .push (.double value) ∈ code → value.isNaN = false :=
    fun value member => by simpa [isLegible] using legible _ member
  rw [decode?, read?_render readable, Option.bind_some, instructions?_linesOf numbers]

/-- Rendering loses nothing but the marks on arithmetic. Two codes with the same text, even
with branches numbered from different numbers on, are the same but for the marks, and codes
that differ in the marks only have the same text. The text decodes into the instructions:
integers, strings and names come back as they were, and floats bit for bit.
-/
theorem render_linesOf_faithful {first second : List Instruction}
    (firstLegible : ∀ instruction ∈ first, isLegible instruction = true)
    (secondLegible : ∀ instruction ∈ second, isLegible instruction = true)
    : (∀ firstBranch secondBranch,
        render (Instruction.linesOf firstBranch first)
          = render (Instruction.linesOf secondBranch second) →
        first.map Instruction.unmarked = second.map Instruction.unmarked)
      ∧ (first.map Instruction.unmarked = second.map Instruction.unmarked →
        ∀ branch, render (Instruction.linesOf branch first)
          = render (Instruction.linesOf branch second))
      ∧ ∀ branch, decode? (render (Instruction.linesOf branch first))
        = some (first.map Instruction.unmarked) := by
  refine ⟨fun firstBranch secondBranch sameText => ?_, fun sameCode branch => ?_,
    decode?_render firstLegible⟩
  · have decoded := decode?_render firstLegible firstBranch
    rw [sameText, decode?_render secondLegible] at decoded
    exact (Option.some.inj decoded).symm
  · rw [← linesOf_map_unmarked branch first, sameCode, linesOf_map_unmarked]

/-- A variable can look like an operand of a nil check or like another variable, and a
comparison like the start of another one.
-/
theorem render_linesOf_faithful_lookalikes
    : let first : List Instruction :=
        [.push (.variable "op" 1 false), .push (.variable "a" 11 true), .coalesce,
          .push (.double ⟨0x8000000000000000⟩), .arith .divideFloats true, .compare .greater]
      let second : List Instruction :=
        [.push (.variable "op" 1 false), .push (.variable "a_1" 1 true), .coalesce,
          .push (.double ⟨0⟩), .arith .divideFloats false, .compare .lessEqual]
      (∀ instruction ∈ first, isLegible instruction = true)
      ∧ (∀ instruction ∈ second, isLegible instruction = true)
      ∧ (∀ firstBranch secondBranch, render (Instruction.linesOf firstBranch first)
          ≠ render (Instruction.linesOf secondBranch second))
      ∧ decode? (render (Instruction.linesOf 0xFFFFFFFF first))
        = some (first.map Instruction.unmarked) := by
  intro first second
  have firstLegible : ∀ instruction ∈ first, isLegible instruction = true := by decide
  have secondLegible : ∀ instruction ∈ second, isLegible instruction = true := by decide
  obtain ⟨injective, _, decoded⟩ := render_linesOf_faithful firstLegible secondLegible
  have differ : first.map Instruction.unmarked ≠ second.map Instruction.unmarked := by decide
  exact ⟨firstLegible, secondLegible,
    fun firstBranch secondBranch same => differ (injective firstBranch secondBranch same),
    decoded 0xFFFFFFFF⟩

end Assembly

end ExprCompiler

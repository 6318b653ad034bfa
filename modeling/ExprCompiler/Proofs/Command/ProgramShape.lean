import ExprCompiler.Proofs.Command.CompiledLines
import ExprCompiler.Proofs.Expression.ReductionSafety
import ExprCompiler.Proofs.Target.TextShape

/-! The shape of compiled programs. Main statement: the text of a program is its prolog and one
block of lines for each expression, with labels that stand once and jumps that stay in their block;
what the constants of an expression hold changes nothing but the word that they are written as.
-/

namespace ExprCompiler

open Assembly

/-- An instruction that pushes no variable. -/
def Instruction.IsConstant (instruction : Instruction) : Prop :=
  ∀ name uid global, instruction ≠ .push (.variable name uid global)

/-- What all instructions of reductions have, the code of a parse has: it holds no others. By
induction over the reductions before a token.
-/
theorem Parser.forall_mem_code_feed {scopes : ScopeStack} {Property : Instruction → Prop}
    (ofReduction : ∀ handle, ∀ instruction ∈ (Reduction.ofHandle scopes handle).code,
      Property instruction)
    {parser : Parser} (before : ∀ instruction ∈ parser.code, Property instruction)
    (token : Token)
    : ∀ instruction ∈ (feed scopes parser token).state.code, Property instruction := by
  fun_induction feed scopes parser token with
  | case5 parser moves incoming notBoth decision ih =>
      refine ih ?_
      simp only [reduce]
      split
      · exact before
      · rw [List.forall_mem_append]
        exact ⟨before, ofReduction _⟩
  | case1 | case2 | case3 | case4 | case6 | case7 => exact before

theorem Parser.forall_mem_code_parseFrom {Source : Type} [TokenSource Source] {scopes : ScopeStack}
    {Property : Instruction → Prop}
    (ofReduction : ∀ handle, ∀ instruction ∈ (Reduction.ofHandle scopes handle).code,
      Property instruction)
    {parser : Parser} (before : ∀ instruction ∈ parser.code, Property instruction)
    (token : Token) (source : Source)
    : ∀ instruction ∈ (parseFrom scopes parser token source).1.code, Property instruction := by
  fun_induction parseFrom scopes parser token source with
  | case1 parser token source ended progress =>
      have taken := forall_mem_code_feed ofReduction before token
      rw [progress, Progress.state] at taken
      unfold finish
      dsimp only
      split
      · exact taken
      · exact taken
  | case2 parser token source advanced progress error rest reading =>
      have taken := forall_mem_code_feed ofReduction before token
      rw [progress, Progress.state] at taken
      exact taken
  | case3 parser token source advanced progress following rest reading ih =>
      have taken := forall_mem_code_feed ofReduction before token
      rw [progress, Progress.state] at taken
      exact ih taken

/-- All that the scope of a program declares are functions. -/
theorem isFunction_of_mem_builtinScopes
    : ∀ frame ∈ builtinScopes.frames, ∀ symbol ∈ frame.symbols, symbol.isFunction = true := by
  decide +kernel

/-- A name in a program has no code: it stands for nothing or for a function. -/
theorem checkName_builtinScopes (name : String)
    : ∃ fault, checkName builtinScopes name = .error fault := by
  unfold checkName
  split
  · exact ⟨_, rfl⟩
  · next symbol depth found =>
      obtain ⟨-, frame, inScopes, inFrame⟩ :=
        (ScopeStack.getInitialized_eq_ok_iff.mp found).exists_mem
      rw [if_pos (isFunction_of_mem_builtinScopes frame inScopes symbol inFrame)]
      exact ⟨_, rfl⟩

/-- Operators push nothing, by the rules of each. -/
theorem isConstant_of_checkBinary {op : BinaryOperator} {left right : Reduced} {checked : Checked}
    (fits : checkBinary op left right = .ok checked)
    : ∀ instruction ∈ checked.code, instruction.IsConstant := by
  have arithmetic (op : Arithmetic) (onInts : Bool) : (op.instruction onInts).IsConstant := by
    cases op <;> nofun
  have conversions (left right : ValueType)
      : ∀ instruction ∈ conversion left right, instruction.IsConstant := by
    unfold conversion
    split <;> simp [Instruction.IsConstant]
  unfold checkBinary at fits
  split at fits
  · cases fits
    simp
  · cases op with
    | arithmetic op =>
        simp only [checkArithmetic] at fits
        repeat' split at fits
        all_goals cases fits
        · simp [Checked.ofType, Instruction.IsConstant]
        all_goals simpa [Checked.ofType, or_imp, forall_and, arithmetic] using conversions _ _
    | coalesce =>
        simp only [checkCoalesce] at fits
        repeat' split at fits
        all_goals cases fits
        simp [Checked.ofType, Instruction.IsConstant]
    | compare op =>
        simp only [checkCompare] at fits
        repeat' split at fits
        all_goals cases fits
        all_goals simp [Checked.ofType, Instruction.IsConstant]

/-- No reduction in a program pushes a variable. -/
theorem isConstant_of_mem_reduction (handle : List StackItem)
    : ∀ instruction ∈ (Reduction.ofHandle builtinScopes handle).code, instruction.IsConstant := by
  have ofCheck {location : Location} {check : Except TypeFault Checked}
      (constant : ∀ checked, check = .ok checked →
        ∀ instruction ∈ checked.code, instruction.IsConstant)
      : ∀ instruction ∈ (Reduction.ofCheck location check).code, instruction.IsConstant := by
    cases check with
    | ok checked => exact constant checked rfl
    | error fault => simp [Reduction.ofCheck]
  unfold Reduction.ofHandle
  split
  · next value location _ =>
      refine ofCheck fun checked fits => ?_
      cases value with
      | name name =>
          obtain ⟨fault, fails⟩ := checkName_builtinScopes name
          rw [checkPrimary, fails] at fits
          cases fits
      | int _ | double _ | string _ | nil =>
          cases fits
          simp [Checked.ofType, Instruction.IsConstant]
  · next operand location _ =>
      refine ofCheck fun checked fits => ?_
      unfold checkNotNil at fits
      repeat' split at fits
      all_goals cases fits
      all_goals simp [Checked.ofType]
  · simp
  · exact ofCheck fun checked => isConstant_of_checkBinary
  · simp

theorem isConstant_of_mem_runCodes (scanner : Scanner)
    : ∀ code ∈ runCodes builtinScopes scanner, ∀ instruction ∈ code, instruction.IsConstant := by
  intro code inRun
  obtain ⟨start, -, inLine⟩ := List.mem_flatMap.mp inRun
  unfold lineCodes at inLine
  split at inLine
  · cases inLine
  · split at inLine
    · cases inLine
    · obtain rfl := List.mem_singleton.mp inLine
      exact Parser.forall_mem_code_parseFrom isConstant_of_mem_reduction (by simp) _ _

/-- The lines of an expression with the given code. They are the lines of its instructions, and each
push is one line of two words. Jumps lead forward, each nil check has a frame of its own, and
nothing clears the stack.
-/
structure IsBlockOf (code : List Instruction) (block : List String) : Prop where
  lines : ∃ branch, block = (Instruction.linesOf branch code).map Line.text
  pushes
    : ∀ operand, .push operand ∈ code → ∀ branch, ∃ line,
        ((Instruction.push operand).lines branch).map Line.text = [line]
        ∧ spacedWords line = ["PUSHS", operand.symb.text]
        ∧ '#' ∉ line.toList
        ∧ '\n' ∉ line.toList
  jumps : jumpsForward block = true
  frames
    : frameLines block
      = (List.replicate (code.count .coalesce) ["CREATEFRAME", "PUSHFRAME", "POPFRAME"]).flatten
  keepsStack : "CLEARS" ∉ block

/-- A text of the lines before all code, and then a block for each of some codes, which a line that
clears the stack ends. No label stands twice, every jump leads to one, and no line has a comment.
-/
structure IsProgramText (text : String) (codes : List (List Instruction))
    (blocks : List (List String)) : Prop where
  lines
    : textLines text
      = [".IFJcode23", "DEFVAR GF@?PARAM_1", "DEFVAR GF@?PARAM_2", "DEFVAR GF@?RESULT_1"]
        ++ blocks.flatMap (· ++ ["CLEARS"]) ++ [""]
  expressions : List.Forall₂ IsBlockOf codes blocks
  clears : (textLines text).count "CLEARS" = blocks.length
  labels : (definedLabels (textLines text)).Nodup
  targets
    : ∀ line ∈ textLines text, ∀ name ∈ jumpTarget? line,
        (definedLabels (textLines text)).count name = 1
  comments : ∀ line ∈ textLines text, '#' ∉ line.toList

variable {code : List Instruction} {codes : List (List Instruction)} {branch : UInt32}

/-- Constants have no names to read. -/
theorem isReadable_linesOf (constant : ∀ instruction ∈ code, instruction.IsConstant)
    (branch : UInt32)
    : ∀ line ∈ Instruction.linesOf branch code, line.isReadable = true :=
  fun _ => isReadable_of_mem_linesOf fun name uid global member =>
    absurd rfl (constant _ member name uid global)

theorem isBlockOf_linesOf (constant : ∀ instruction ∈ code, instruction.IsConstant)
    (branch : UInt32)
    : IsBlockOf code ((Instruction.linesOf branch code).map Line.text) := by
  have readable := isReadable_linesOf constant branch
  refine { lines := ⟨branch, rfl⟩, pushes := ?_, jumps := ?_, frames := ?_, keepsStack := ?_ }
  · intro operand member branch
    have isLine : (Line.push operand.symb).isReadable = true := by
      have alone : ∀ instruction ∈ [Instruction.push operand], instruction.IsConstant := by
        simpa using constant _ member
      exact isReadable_linesOf alone branch _ List.mem_cons_self
    exact ⟨_, rfl, spacedWords_text isLine, hash_not_mem_text isLine, newline_not_mem_text isLine⟩
  · rw [jumpsForward_map_text readable]
    exact targetsFollow_linesOf branch code
  · rw [frameLines_map_text readable, filter_isFrameLine_linesOf, List.map_flatten,
      List.map_replicate]
    rfl
  · intro member
    obtain ⟨line, isLine, isText⟩ := List.mem_map.mp member
    have sameWords : line.words = Line.clearStack.words :=
      words_eq_of_text_eq (readable line isLine) rfl isText
    have isClear : line = .clearStack := by cases line <;> simp_all [Line.words]
    exact clearStack_not_mem_linesOf branch code (isClear ▸ isLine)

/-- The blocks of some codes, by induction on the codes. -/
theorem forall₂_isBlockOf (constant : ∀ code ∈ codes, ∀ instruction ∈ code, instruction.IsConstant)
    (branch : UInt32)
    : List.Forall₂ IsBlockOf codes ((numberedBlocks branch codes).map (·.map Line.text)) := by
  induction codes generalizing branch with
  | nil => exact .nil
  | cons code later ih =>
      obtain ⟨first, others⟩ := List.forall_mem_cons.mp constant
      exact .cons (isBlockOf_linesOf first branch) (ih others _)

theorem isReadable_clearedBlocks
    (constant : ∀ code ∈ codes, ∀ instruction ∈ code, instruction.IsConstant) (branch : UInt32)
    : ∀ line ∈ clearedBlocks (numberedBlocks branch codes), line.isReadable = true := by
  induction codes generalizing branch with
  | nil => simp [numberedBlocks, clearedBlocks]
  | cons code later ih =>
      obtain ⟨first, others⟩ := List.forall_mem_cons.mp constant
      rw [numberedBlocks, clearedBlocks, List.flatMap_cons, List.forall_mem_append,
        List.forall_mem_append]
      exact ⟨⟨isReadable_linesOf first branch, by simp [Line.isReadable]⟩, ih others _⟩

/-- The labels of the blocks are numbered as those of one code. -/
theorem labelsOf_clearedBlocks (branch : UInt32) (codes : List (List Instruction))
    : labelsOf ((clearedBlocks (numberedBlocks branch codes)).map Line.operation)
      = labelsOf ((Instruction.linesOf branch codes.flatten).map Line.operation) := by
  induction codes generalizing branch with
  | nil => rfl
  | cons code later ih =>
      rw [numberedBlocks, clearedBlocks, List.flatMap_cons, List.map_append, List.map_append,
        labelsOf_append, labelsOf_append, List.flatten_cons, Instruction.linesOf_append,
        List.map_append, labelsOf_append, ← ih, List.append_assoc]
      rfl

/-- All jumps of the blocks lead forward. -/
theorem targetsFollow_clearedBlocks (branch : UInt32) (codes : List (List Instruction))
    : targetsFollow (clearedBlocks (numberedBlocks branch codes)) = true := by
  induction codes generalizing branch with
  | nil => rfl
  | cons code later ih =>
      rw [numberedBlocks, clearedBlocks, List.flatMap_cons]
      exact targetsFollow_append (targetsFollow_append (targetsFollow_linesOf branch code) rfl)
        (ih _)

/-- A jump that leads forward leads to one of the labels. -/
theorem mem_definedLabels_of_jumpsForward {lines : List String} {line name : String}
    (forward : jumpsForward lines = true) (member : line ∈ lines)
    (isTarget : jumpTarget? line = some name)
    : name ∈ definedLabels lines := by
  induction lines with
  | nil => cases member
  | cons first later ih =>
      simp only [jumpsForward, Bool.and_eq_true] at forward
      have inLater : name ∈ definedLabels later := by
        rcases List.mem_cons.mp member with rfl | inLater
        · simpa [isTarget] using forward.1
        · exact ih forward.2 inLater
      exact ((List.sublist_cons_self first later).filterMap definedLabel?).subset inLater

/-- The empty line at the end of a text defines no label. -/
theorem definedLabels_concat_empty (lines : List String)
    : definedLabels (lines ++ [""]) = definedLabels lines := by
  have noLabel : [""].filterMap definedLabel? = [] := by decide
  rw [definedLabels, List.filterMap_append, noLabel, List.append_nil, definedLabels]

/-- Of some blocks that keep the stack, only the lines after them clear it. -/
theorem count_clears {blocks : List (List String)} (areBlocks : List.Forall₂ IsBlockOf codes blocks)
    : (blocks.flatMap (· ++ ["CLEARS"])).count "CLEARS" = blocks.length := by
  induction areBlocks with
  | nil => rfl
  | cons isBlock _ ih =>
      rw [List.flatMap_cons, List.count_append, List.count_append,
        List.count_eq_zero.mpr isBlock.keepsStack, ih, List.length_cons, Nat.add_comm]
      rfl

/-- Codes without variables become the text of a program, as long as there are numbers for their
nil checks.
-/
theorem isProgramText_render
    (constant : ∀ code ∈ codes, ∀ instruction ∈ code, instruction.IsConstant)
    (room : codes.flatten.count .coalesce < 2 ^ 32)
    : IsProgramText (render (prolog ++ clearedBlocks (numberedBlocks 0 codes))) codes
        ((numberedBlocks 0 codes).map (·.map Line.text)) := by
  have readable : ∀ line ∈ prolog ++ clearedBlocks (numberedBlocks 0 codes),
      line.isReadable = true := by
    rw [List.forall_mem_append]
    exact ⟨List.all_eq_true.mp (by decide), isReadable_clearedBlocks constant 0⟩
  have split := textLines_render readable
  have lines : (prolog ++ clearedBlocks (numberedBlocks 0 codes)).map Line.text ++ [""]
      = [".IFJcode23", "DEFVAR GF@?PARAM_1", "DEFVAR GF@?PARAM_2", "DEFVAR GF@?RESULT_1"]
        ++ ((numberedBlocks 0 codes).map (·.map Line.text)).flatMap (· ++ ["CLEARS"]) ++ [""] := by
    rw [List.map_append, clearedBlocks, List.map_flatMap, List.flatMap_map]
    simp only [List.map_append]
    rfl
  have distinct : (definedLabels
      ((prolog ++ clearedBlocks (numberedBlocks 0 codes)).map Line.text ++ [""])).Nodup := by
    rw [definedLabels_concat_empty, definedLabels_map_text readable, List.map_append,
      labelsOf_append, labelsOf_clearedBlocks]
    exact nodup_labelsOf (by simpa using room)
  refine {
    lines := split.trans lines, expressions := forall₂_isBlockOf constant 0, clears := ?_
    labels := by rwa [split], targets := ?_, comments := ?_ }
  · have before : [".IFJcode23", "DEFVAR GF@?PARAM_1", "DEFVAR GF@?PARAM_2",
        "DEFVAR GF@?RESULT_1"].count "CLEARS" = 0 := by decide
    have after : [""].count "CLEARS" = 0 := by decide
    rw [split, lines, List.count_append, List.count_append,
      count_clears (forall₂_isBlockOf constant 0), before, after, Nat.zero_add, Nat.add_zero]
  · rw [split]
    intro line member name isTarget
    refine List.count_eq_one_of_mem distinct ?_
    rcases List.mem_append.mp member with isLine | isLast
    · have forward := jumpsForward_map_text readable
      rw [targetsFollow_append rfl (targetsFollow_clearedBlocks 0 codes)] at forward
      rw [definedLabels_concat_empty]
      exact mem_definedLabels_of_jumpsForward forward isLine isTarget
    · obtain rfl := List.mem_singleton.mp isLast
      exact absurd isTarget (by decide +revert)
  · rw [split]
    intro line member
    rcases List.mem_append.mp member with isLine | isLast
    · obtain ⟨source, isSource, rfl⟩ := List.mem_map.mp isLine
      exact hash_not_mem_text (readable source isSource)
    · obtain rfl := List.mem_singleton.mp isLast
      decide

/-- The text of every compiled program with fewer than 2 ^ 32 nil checks is sound: the lines before
all code, and then one block for each expression, as many as there are.
-/
theorem compileProgram_isProgramText (source : String) (config : QueueConfig)
    (room : (runCodes builtinScopes (.ofText source)).flatten.count .coalesce < 2 ^ 32)
    : ∃ blocks,
        IsProgramText (compileProgram source config).text
          (runCodes builtinScopes (.ofText source)) blocks
        ∧ blocks.length = (compileProgram source config).expressions := by
  obtain ⟨code, expressions⟩ := compileProgram_blocks source config
  have sound := isProgramText_render (isConstant_of_mem_runCodes (.ofText source)) room
  rw [← code] at sound
  exact ⟨_, sound, sound.expressions.length_eq.symm.trans expressions.symm⟩

/-- Three nil checks in two expressions, a third expression that fails, and a string that looks like
lines of its own.
-/
theorem compileProgram_isProgramText_nested
    : let source := "nil ?? (nil ?? \"CLEARS\\nLABEL $$ELSE_0 # x\")\n1 + nil ?? 2\nnil ?? 4.5"
      (runCodes builtinScopes (.ofText source)).flatten.count .coalesce = 3
      ∧ (compileProgram source {}).expressions = 3
      ∧ ∃ blocks,
          IsProgramText (compileProgram source {}).text
            (runCodes builtinScopes (.ofText source)) blocks
          ∧ blocks.length = (compileProgram source {}).expressions := by
  refine ⟨by decide +kernel, by decide +kernel, ?_⟩
  exact compileProgram_isProgramText _ {} (by decide +kernel)

end ExprCompiler

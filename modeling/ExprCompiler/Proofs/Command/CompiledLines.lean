import ExprCompiler.Proofs.Command.ErrorReports

/-! The lines that a program is compiled in. Main statement: the code of a program is one numbered
block for each expression, whatever is reported.
-/

namespace ExprCompiler

variable {scopes : ScopeStack} {compilation : Compilation}

/-- The scanners at the starts of the lines that a run compiles, the last of which ends it. -/
def lineStarts (scopes : ScopeStack) (scanner : Scanner) : List Scanner :=
  match _line : compileLine scopes { queue := {} } scanner with
  | ⟨_, rest, true⟩ => scanner :: lineStarts scopes rest
  | ⟨_, _, false⟩ => [scanner]
termination_by scanner.rest.length
decreasing_by
  have shorter := compileLine_rest_length_lt scopes { queue := {} } scanner (by rw [_line])
  rwa [_line] at shorter

/-- After the first line come the lines after it. -/
theorem lineStarts_eq {scanner rest : Scanner} {compiled : Compilation} {more : Bool}
    (line : compileLine scopes compilation scanner = ⟨compiled, rest, more⟩)
    : lineStarts scopes scanner = scanner :: if more then lineStarts scopes rest else [] := by
  obtain ⟨sameRest, sameEnd⟩ := compileLine_congr scopes compilation { queue := {} } scanner
  rw [line] at sameRest sameEnd
  rw [lineStarts.eq_def]
  split <;> simp_all

/-- What every reading keeps holds at the start of every line, by induction over them. -/
theorem lineStarts_keeps {kept : Scanner → Prop}
    (keeps : ∀ scanner, kept scanner → kept scanner.next.2) {scanner : Scanner}
    (before : kept scanner)
    : ∀ start ∈ lineStarts scopes scanner, kept start := by
  fun_induction lineStarts scopes scanner with
  | case1 scanner compiled rest line ih =>
      have after := compileLine_keeps keeps scopes { queue := {} } before
      rw [line] at after
      exact List.forall_mem_cons.mpr ⟨before, ih after⟩
  | case2 scanner compiled rest line => exact List.forall_mem_singleton.mpr before

/-- The events of a run are those of its lines, by induction over them. -/
theorem runBatches_eq_flatMap (scopes : ScopeStack) (scanner : Scanner)
    : runBatches scopes scanner = (lineStarts scopes scanner).flatMap (lineBatches scopes) := by
  fun_induction lineStarts scopes scanner with
  | case1 scanner compiled rest line ih =>
      rw [runBatches_eq line, if_pos rfl, ih, List.flatMap_cons]
  | case2 scanner compiled rest line =>
      rw [runBatches_eq line, if_neg Bool.false_ne_true]
      simp

/-- The code of the expression on the next line, if there is one. -/
def lineCodes (scopes : ScopeStack) (scanner : Scanner) : List (List Instruction) :=
  match scanner.next with
  | (.error _, _) => []
  | (.ok first, rest) =>
      if first.kind.endsLine then [] else [(parseExpression scopes first rest).1.code]

/-- The codes of all expressions of a run. -/
def runCodes (scopes : ScopeStack) (scanner : Scanner) : List (List Instruction) :=
  (lineStarts scopes scanner).flatMap (lineCodes scopes)

/-- The lines of each of some codes, with branches numbered from `branch` on through all. -/
def numberedBlocks : UInt32 → List (List Instruction) → List (List Assembly.Line)
  | _, [] => []
  | branch, code :: later =>
      Instruction.linesOf branch code
        :: numberedBlocks (Instruction.branchAfter branch code) later

/-- All blocks, each with the line that clears the stack after it. -/
def clearedBlocks (blocks : List (List Assembly.Line)) : List Assembly.Line :=
  blocks.flatMap (· ++ [.clearStack])

theorem Instruction.branchAfter_append (branch : UInt32) (front back : List Instruction)
    : branchAfter branch (front ++ back) = branchAfter (branchAfter branch front) back :=
  List.foldl_append

theorem Instruction.linesOf_append (branch : UInt32) (front back : List Instruction)
    : linesOf branch (front ++ back)
      = linesOf branch front ++ linesOf (branchAfter branch front) back := by
  induction front generalizing branch with
  | nil => rfl
  | cons instruction front ih =>
      rw [List.cons_append, linesOf, linesOf, ih, List.append_assoc]
      rfl

theorem numberedBlocks_append (branch : UInt32) (front back : List (List Instruction))
    : numberedBlocks branch (front ++ back)
      = numberedBlocks branch front
        ++ numberedBlocks (Instruction.branchAfter branch front.flatten) back := by
  induction front generalizing branch with
  | nil => rfl
  | cons code front ih =>
      rw [List.cons_append, numberedBlocks, numberedBlocks, ih, List.flatten_cons,
        Instruction.branchAfter_append, List.cons_append]

/-- A compilation after the expressions with the given codes. -/
structure Compilation.Adds (before after : Compilation) (codes : List (List Instruction))
    : Prop where
  code : after.code = before.code ++ clearedBlocks (numberedBlocks before.branch codes)
  branch : after.branch = Instruction.branchAfter before.branch codes.flatten
  expressions : after.expressions = before.expressions + codes.length

namespace Compilation.Adds

variable {first second third : Compilation} {front back : List (List Instruction)}

theorem nothing (code : second.code = first.code) (branch : second.branch = first.branch)
    (expressions : second.expressions = first.expressions)
    : first.Adds second [] :=
  ⟨code.trans (List.append_nil _).symm, branch, expressions⟩

theorem append (earlier : first.Adds second front) (later : second.Adds third back)
    : first.Adds third (front ++ back) where
  code := by
    rw [later.code, earlier.code, earlier.branch, numberedBlocks_append, clearedBlocks,
      clearedBlocks, clearedBlocks, List.flatMap_append, List.append_assoc]
  branch := by
    rw [later.branch, earlier.branch, List.flatten_append, Instruction.branchAfter_append]
  expressions := by
    rw [later.expressions, earlier.expressions, List.length_append, Nat.add_assoc]

end Compilation.Adds

theorem adds_addExpression (compilation : Compilation) (outcome : ExprOutcome)
    : compilation.Adds (compilation.addExpression outcome) [outcome.code] where
  code := by simp [Compilation.addExpression, clearedBlocks, numberedBlocks]
  branch := by simp [Compilation.addExpression]
  expressions := rfl

/-- Finishing a line only reports. -/
theorem adds_finishLine (compilation : Compilation) (terminator? : Option Token)
    (scanner : Scanner)
    : compilation.Adds (finishLine compilation terminator? scanner).compilation [] := by
  unfold finishLine
  cases terminator? with
  | none => exact .nothing rfl rfl rfl
  | some token =>
      dsimp only
      split
      · exact .nothing rfl rfl rfl
      split
      · exact .nothing rfl rfl rfl
      rcases skipLine scanner with ⟨error | _, rest⟩ <;> exact .nothing rfl rfl rfl

/-- A line adds the code of its expression. -/
theorem adds_compileLine (scopes : ScopeStack) (compilation : Compilation) (scanner : Scanner)
    : compilation.Adds (compileLine scopes compilation scanner).compilation
        (lineCodes scopes scanner) := by
  unfold compileLine lineCodes TokenKind.endsLine
  rcases scanner.next with ⟨error | first, rest⟩
  · exact .nothing rfl rfl rfl
  by_cases isFile : first.kind = .endOfFile
  · simpa [isFile] using Compilation.Adds.nothing rfl rfl rfl
  by_cases isLine : first.kind = .endOfLine
  · simpa [isLine] using Compilation.Adds.nothing rfl rfl rfl
  simp only [isFile, isLine, if_false, decide_false, Bool.or_self, Bool.false_eq_true]
  exact (adds_addExpression compilation _).append (adds_finishLine ..)

/-- A run adds the codes of its expressions, by induction over the lines. -/
theorem adds_compileLines (scopes : ScopeStack) (compilation : Compilation) (scanner : Scanner)
    : compilation.Adds (compileLines scopes compilation scanner).1 (runCodes scopes scanner) := by
  fun_induction compileLines scopes compilation scanner with
  | case1 compilation scanner compiled rest line ih =>
      have first := adds_compileLine scopes compilation scanner
      rw [line] at first
      rw [runCodes, lineStarts_eq line, if_pos rfl, List.flatMap_cons]
      exact first.append ih
  | case2 compilation scanner compiled rest line =>
      have first := adds_compileLine scopes compilation scanner
      rw [line] at first
      rw [runCodes, lineStarts_eq line, if_neg Bool.false_ne_true, List.flatMap_singleton]
      exact first

/-- Where a run ends does not depend on what was compiled before it. By induction over the lines. -/
theorem scanner_compileLines_congr (scopes : ScopeStack) (first second : Compilation)
    (scanner : Scanner)
    : (compileLines scopes first scanner).2 = (compileLines scopes second scanner).2 := by
  fun_induction compileLines scopes first scanner generalizing second with
  | case1 first scanner compiled rest line ih =>
      obtain ⟨sameRest, sameEnd⟩ := compileLine_congr scopes first second scanner
      rw [line] at sameRest sameEnd
      rw [compileLines.eq_def scopes second scanner]
      split
      · next other last isLine =>
          rw [isLine] at sameRest
          obtain rfl : rest = last := sameRest
          exact ih other
      · next isLine => simp [isLine] at sameEnd
  | case2 first scanner compiled rest line =>
      obtain ⟨sameRest, sameEnd⟩ := compileLine_congr scopes first second scanner
      rw [line] at sameRest sameEnd
      rw [compileLines.eq_def scopes second scanner]
      split
      · next isLine => simp [isLine] at sameEnd
      · next isLine =>
          rw [isLine] at sameRest
          exact sameRest

/-- The code of a program is its numbered blocks after the prolog. -/
theorem compileProgram_blocks (source : String) (config : QueueConfig)
    : (compileProgram source config).code
        = Assembly.prolog
          ++ clearedBlocks (numberedBlocks 0 (runCodes builtinScopes (.ofText source)))
      ∧ (compileProgram source config).expressions
        = (runCodes builtinScopes (.ofText source)).length := by
  have adds :=
    adds_compileLines builtinScopes { queue := startingQueue config } (.ofText source)
  exact ⟨adds.code, adds.expressions.trans (Nat.zero_add _)⟩

end ExprCompiler

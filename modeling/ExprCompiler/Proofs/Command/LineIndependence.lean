import ExprCompiler.Proofs.Command.MovedLines
import ExprCompiler.Proofs.Lexical.LongerInput
import ExprCompiler.Proofs.Text.Utf8Roundtrip

/-! Lines are compiled on their own. Main statement: after a text that a line break ends, any other
text is compiled as it would be alone, only with later numbers for its branches.
-/

namespace ExprCompiler

theorem sawEnd_keeps : ∀ scanner : Scanner, scanner.sawEnd = true → scanner.next.2.sawEnd = true :=
  fun _ => Scanner.sawEnd_next

/-- What has not seen the end of input after a while had not seen it before. -/
theorem sawEnd_eq_false {scanner later : Scanner}
    (keeps : scanner.sawEnd = true → later.sawEnd = true) (short : later.sawEnd = false)
    : scanner.sawEnd = false := by
  cases ended : scanner.sawEnd with
  | false => rfl
  | true => exact absurd (keeps ended) (by simp [short])

/-- A parse that the end of input did not end is the same before more bytes. By induction over its
tokens: once the end of input is seen, it stays seen.
-/
theorem Parser.parseFrom_followedBy {scopes : ScopeStack} {parser : Parser} {token : Token}
    {scanner : Scanner}
    (reached : (parseFrom scopes parser token scanner).1.terminator?.isSome = true)
    (short : (parseFrom scopes parser token scanner).2.sawEnd = false) (more : List UInt8)
    : parseFrom scopes parser token (scanner.followedBy more)
        = ((parseFrom scopes parser token scanner).1,
          (parseFrom scopes parser token scanner).2.followedBy more)
      ∧ parseEvents scopes parser token (scanner.followedBy more)
        = parseEvents scopes parser token scanner := by
  fun_induction parseFrom scopes parser token scanner with
  | case1 parser token scanner ended progress =>
      rw [parseFrom_of_done progress, parseEvents_of_done progress, parseEvents_of_done progress]
      exact ⟨rfl, rfl⟩
  | case2 parser token scanner advanced progress error rest reading => cases reached
  | case3 parser token scanner advanced progress following rest reading ih =>
      have restShort :=
        sawEnd_eq_false (parseFrom_keeps sawEnd_keeps scopes advanced following) short
      have longer := Scanner.next_followedBy reading restShort more
      rw [parseFrom_of_more progress longer, parseEvents_of_more progress longer,
        parseEvents_of_more progress reading, (ih reached short).2]
      exact ⟨(ih reached short).1, rfl⟩

/-- Skipping to a line break is the same before more bytes, by induction over the tokens. -/
theorem skipLine_followedBy {scanner : Scanner} (short : (skipLine scanner).2.sawEnd = false)
    (skipped : (skipLine scanner).1.isOk = true) (more : List UInt8)
    : skipLine (scanner.followedBy more)
      = ((skipLine scanner).1, (skipLine scanner).2.followedBy more) := by
  fun_induction skipLine scanner with
  | case1 scanner error rest reading => cases skipped
  | case2 scanner token rest reading ends =>
      rw [skipLine_eq, Scanner.next_followedBy reading short more]
      dsimp only
      rw [if_pos ends]
  | case3 scanner token rest reading goesOn ih =>
      have restShort := sawEnd_eq_false (skipLine_keeps sawEnd_keeps) short
      rw [skipLine_eq, Scanner.next_followedBy reading restShort more]
      dsimp only
      rw [if_neg goesOn, ih short skipped]

variable {scopes : ScopeStack} {compilation compiled : Compilation} {scanner rest : Scanner}

theorem finishLine_followedBy {terminator? : Option Token}
    (line : finishLine compilation terminator? scanner = ⟨compiled, rest, true⟩)
    (short : rest.sawEnd = false) (more : List UInt8)
    : finishLine compilation terminator? (scanner.followedBy more)
        = ⟨compiled, rest.followedBy more, true⟩
      ∧ terminatorEvents terminator? (scanner.followedBy more)
        = terminatorEvents terminator? scanner
      ∧ terminator?.isSome = true := by
  unfold finishLine at line ⊢
  unfold terminatorEvents TokenKind.endsLine
  cases terminator? with
  | none => cases line
  | some token =>
      dsimp only at line ⊢
      by_cases isFile : token.kind = .endOfFile
      · rw [if_pos isFile] at line
        cases line
      by_cases isLine : token.kind = .endOfLine
      · rw [if_neg isFile, if_pos isLine] at line
        cases line
        simp [isLine]
      rw [if_neg isFile, if_neg isLine] at line ⊢
      cases skips : skipLine scanner with
      | mk result after =>
      rw [skips] at line
      cases result with
      | error error => cases line
      | ok done =>
          cases line
          have longer := skipLine_followedBy (by rw [skips]; exact short) (by rw [skips]; rfl) more
          rw [skipEvents, skipEvents, longer, skips]
          exact ⟨rfl, rfl, rfl⟩

/-- A line that more lines follow is the same before more bytes. -/
theorem compileLine_followedBy
    (line : compileLine scopes compilation scanner = ⟨compiled, rest, true⟩)
    (short : rest.sawEnd = false) (more : List UInt8)
    : compileLine scopes compilation (scanner.followedBy more)
        = ⟨compiled, rest.followedBy more, true⟩
      ∧ lineCodes scopes (scanner.followedBy more) = lineCodes scopes scanner
      ∧ lineBatches scopes (scanner.followedBy more) = lineBatches scopes scanner := by
  unfold compileLine at line ⊢
  unfold lineCodes lineBatches TokenKind.endsLine
  cases reading : scanner.next with
  | mk result after =>
  rw [reading] at line
  cases result with
  | error error => cases line
  | ok first =>
      dsimp only at line
      by_cases isFile : first.kind = .endOfFile
      · rw [if_pos isFile] at line
        cases line
      by_cases isLine : first.kind = .endOfLine
      · rw [if_neg isFile, if_pos isLine] at line
        cases line
        rw [Scanner.next_followedBy reading short more]
        simp [isLine]
      simp only [isFile, isLine, if_false, compileExpression] at line
      obtain ⟨finished, afterwards, reached⟩ := finishLine_followedBy line short more
      have parsedShort : (parseExpression scopes first after).2.sawEnd = false := by
        refine sawEnd_eq_false (fun ended => ?_) short
        have stays := finishLine_keeps sawEnd_keeps
          (compilation.addExpression (parseExpression scopes first after).1)
          (parseExpression scopes first after).1.terminator? ended
        rwa [line] at stays
      have afterShort :=
        sawEnd_eq_false (Parser.parseFrom_keeps sawEnd_keeps scopes {} first) parsedShort
      obtain ⟨parsed, events⟩ := Parser.parseFrom_followedBy reached parsedShort more
      rw [Scanner.next_followedBy reading afterShort more]
      dsimp only
      rw [if_neg isFile, if_neg isLine, compileExpression, parseExpression, parsed, events]
      exact ⟨finished, rfl, by rw [← parseExpression, afterwards]⟩

/-- The lines of a run up to one that does not start at the end of input are the same before more
bytes. By induction over them.
-/
theorem lineStarts_followedBy {last : Scanner} (member : last ∈ lineStarts scopes scanner)
    (short : last.sawEnd = false) (more : List UInt8)
    : ∃ front,
        lineStarts scopes scanner = front ++ lineStarts scopes last
        ∧ lineStarts scopes (scanner.followedBy more)
          = front.map (·.followedBy more) ++ lineStarts scopes (last.followedBy more)
        ∧ ∀ start ∈ front,
            lineCodes scopes (start.followedBy more) = lineCodes scopes start
            ∧ lineBatches scopes (start.followedBy more) = lineBatches scopes start := by
  fun_induction lineStarts scopes scanner with
  | case1 scanner compiled rest line ih =>
      rcases List.mem_cons.mp member with rfl | isLater
      · exact ⟨[], by rw [lineStarts_eq line]; rfl, rfl, by simp⟩
      · obtain ⟨front, starts, longerStarts, same⟩ := ih isLater
        have restShort : rest.sawEnd = false :=
          sawEnd_eq_false (fun ended => lineStarts_keeps sawEnd_keeps ended last isLater) short
        obtain ⟨longer, sameLine⟩ := compileLine_followedBy line restShort more
        refine ⟨scanner :: front, congrArg _ starts, ?_, List.forall_mem_cons.mpr ⟨sameLine, same⟩⟩
        rw [lineStarts_eq longer, if_pos rfl, longerStarts]
        rfl
  | case2 scanner compiled rest line =>
      obtain rfl := List.mem_singleton.mp member
      exact ⟨[], by rw [lineStarts_eq line]; rfl, rfl, by simp⟩

/-- At the end of input there is one line more, with nothing on it. -/
theorem lineStarts_of_isEnd (isEnd : scanner.next.1.isEnd = true)
    : lineStarts scopes scanner = [scanner]
      ∧ lineCodes scopes scanner = []
      ∧ lineBatches scopes scanner = [] := by
  cases reading : scanner.next with
  | mk result rest =>
  rw [reading] at isEnd
  cases result with
  | error error => cases isEnd
  | ok token =>
      have isFile : token.kind = .endOfFile := of_decide_eq_true isEnd
      have line : compileLine scopes { queue := {} } scanner = ⟨{ queue := {} }, rest, false⟩ := by
        simp [compileLine, reading, isFile]
      rw [lineStarts_eq line, lineCodes, lineBatches, reading]
      simp [TokenKind.endsLine, isFile]

/-- The codes and the events of a run whose last line starts without any bytes left, and of the run
before more bytes.
-/
theorem runs_followedBy {last : Scanner} (member : last ∈ lineStarts scopes scanner)
    (nothing : last.rest = []) (afterBreak : last.afterNewline = true) (more : List UInt8)
    : runCodes scopes (scanner.followedBy more)
        = runCodes scopes scanner ++ runCodes scopes (last.followedBy more)
      ∧ runBatches scopes (scanner.followedBy more)
        = runBatches scopes scanner ++ runBatches scopes (last.followedBy more) := by
  have short : last.sawEnd = false := by simp [Scanner.sawEnd, afterBreak]
  obtain ⟨front, starts, longerStarts, same⟩ := lineStarts_followedBy member short more
  obtain ⟨isLast, noCodes, noBatches⟩ : lineStarts scopes last = [last] ∧ _ :=
    lineStarts_of_isEnd (Scanner.next_isEnd_of_rest_eq_nil nothing)
  have sameCodes : front.flatMap (fun start => lineCodes scopes (start.followedBy more))
      = front.flatMap (lineCodes scopes) :=
    List.flatMap_congr fun start inFront => (same start inFront).1
  have sameBatches : front.flatMap (fun start => lineBatches scopes (start.followedBy more))
      = front.flatMap (lineBatches scopes) :=
    List.flatMap_congr fun start inFront => (same start inFront).2
  constructor
  · rw [runCodes, runCodes, runCodes, longerStarts, starts, isLast, List.flatMap_append,
      List.flatMap_append, List.flatMap_map, sameCodes, List.flatMap_singleton, noCodes,
      List.append_nil]
  · rw [runBatches_eq_flatMap, runBatches_eq_flatMap, runBatches_eq_flatMap, longerStarts, starts,
      isLast, List.flatMap_append, List.flatMap_append, List.flatMap_map, sameBatches,
      List.flatMap_singleton, noBatches, List.append_nil]

namespace Assembly

/-- A label of a branch with a later number. -/
def Label.shiftedBy (count : UInt32) : Label → Label
  | .otherwise branch => .otherwise (branch + count)
  | .finish branch => .finish (branch + count)

/-- A line with later numbers in its labels. -/
def Line.shiftedBy (count : UInt32) : Line → Line
  | .label place => .label (place.shiftedBy count)
  | .jump place => .jump (place.shiftedBy count)
  | .jumpIfNotEqual place => .jumpIfNotEqual (place.shiftedBy count)
  | line => line

end Assembly

namespace Instruction

open Assembly (Line)

theorem lines_add (instruction : Instruction) (branch count : UInt32)
    : instruction.lines (branch + count)
      = (instruction.lines branch).map (Line.shiftedBy count) := by
  cases instruction with
  | arith op onInts => cases op <;> rfl
  | compare op => cases op <;> rfl
  | push _ | concat | intToFloatTop | intToFloatSecond | coalesce => rfl

theorem nextBranch_add (instruction : Instruction) (branch count : UInt32)
    : instruction.nextBranch (branch + count) = instruction.nextBranch branch + count := by
  cases instruction with
  | coalesce =>
      change branch + count + 1 = branch + 1 + count
      rw [UInt32.add_assoc, UInt32.add_comm count, UInt32.add_assoc]
  | push _ | arith _ _ | compare _ | concat | intToFloatTop | intToFloatSecond => rfl

/-- Later numbers for the branches of some code, by induction on the instructions. -/
theorem linesOf_add (code : List Instruction) (branch count : UInt32)
    : linesOf (branch + count) code = (linesOf branch code).map (Line.shiftedBy count)
      ∧ branchAfter (branch + count) code = branchAfter branch code + count := by
  induction code generalizing branch with
  | nil => exact ⟨rfl, rfl⟩
  | cons instruction others ih =>
      obtain ⟨lines, after⟩ := ih (instruction.nextBranch branch)
      rw [← nextBranch_add] at lines after
      exact ⟨by rw [linesOf, lines_add, lines, linesOf, List.map_append], after⟩

/-- The branch number after some code counts its nil checks. -/
theorem branchAfter_eq (branch : UInt32) (code : List Instruction)
    : branchAfter branch code = branch + UInt32.ofNat (code.count .coalesce) := by
  induction code generalizing branch with
  | nil => exact (UInt32.add_zero branch).symm
  | cons instruction others ih =>
      change branchAfter (instruction.nextBranch branch) others = _
      rw [ih]
      by_cases isCheck : instruction = .coalesce
      · subst isCheck
        rw [List.count_cons_self, Nat.add_comm, UInt32.ofNat_add, ← UInt32.add_assoc]
        rfl
      · have same : instruction.nextBranch branch = branch := by
          cases instruction <;> first | rfl | exact absurd rfl isCheck
        rw [List.count_cons_of_ne isCheck, same]

end Instruction

theorem numberedBlocks_add (codes : List (List Instruction)) (branch count : UInt32)
    : clearedBlocks (numberedBlocks (branch + count) codes)
      = (clearedBlocks (numberedBlocks branch codes)).map (Assembly.Line.shiftedBy count) := by
  induction codes generalizing branch with
  | nil => rfl
  | cons code later ih =>
      obtain ⟨lines, after⟩ := Instruction.linesOf_add code branch count
      rw [numberedBlocks, numberedBlocks, after, clearedBlocks, clearedBlocks, List.flatMap_cons,
        List.flatMap_cons, List.map_append, List.map_append, lines, ← clearedBlocks, ih]
      rfl

/-- The first code of batches is that of the first ones, if these hold an event. -/
theorem firstCode?_append (front back : List (List ErrorEvent))
    : firstCode? (front ++ back) = (firstCode? front).or (firstCode? back) := by
  unfold firstCode?
  have whole : firstBatch? (front ++ back) = (firstBatch? front).or (firstBatch? back) :=
    List.find?_append
  rw [whole]
  cases first : firstBatch? front with
  | none => rfl
  | some batch =>
      have holds := mt (settled_eq_nil_iff batch).mp (firstBatch?_ne_nil first)
      obtain ⟨diagnostic, later, isSettled⟩ := List.exists_cons_of_ne_nil holds
      have leftmost := head?_settled batch
      rw [isSettled, List.head?_cons] at leftmost
      simp [← leftmost]

theorem isCounted_keeps
    : ∀ scanner : Scanner, scanner.location.IsCounted → scanner.next.2.location.IsCounted := by
  intro scanner counted
  obtain ⟨read, -, place⟩ := scanner.after_rest_suffix 1
  exact place ▸ counted.afterBytes read

/-- A text that is compiled to its end, with a line break as the last token that was read. -/
def EndsLine (source : String) : Prop :=
  ∃ last ∈ lineStarts builtinScopes (.ofText source),
    last.rest = [] ∧ last.afterNewline = true

instance (source : String) : Decidable (EndsLine source) :=
  inferInstanceAs (Decidable (∃ last ∈ lineStarts builtinScopes (.ofText source), _))

/-- Lines are compiled on their own. After a text that a line break ends, any other text adds its
expressions, and its code with branches numbered from there on; and the first error of all is that
of the first text, or else of the second.
-/
theorem compileProgram_append (first second : String) (config : QueueConfig)
    (ends : EndsLine (first ++ "\n"))
    : let whole := compileProgram (first ++ "\n" ++ second) config
      let before := compileProgram (first ++ "\n") config
      let alone := compileProgram second config
      let branches := UInt32.ofNat
        ((runCodes builtinScopes (.ofText (first ++ "\n"))).flatten.count .coalesce)
      whole.expressions = before.expressions + alone.expressions
      ∧ (∃ code,
          alone.code = Assembly.prolog ++ code
          ∧ whole.code = before.code ++ code.map (Assembly.Line.shiftedBy branches))
      ∧ whole.status = if before.status.isSet then before.status else alone.status := by
  obtain ⟨last, member, nothing, afterBreak⟩ := ends
  have encoded : Scanner.ofText (first ++ "\n" ++ second)
      = (Scanner.ofText (first ++ "\n")).followedBy (Utf8.encode second) := by
    simp only [Scanner.ofText, Scanner.followedBy, Utf8.encode_append]
  have originCounted : last.location.IsCounted :=
    lineStarts_keeps isCounted_keeps Location.isCounted_start last member
  have resumes : (last.followedBy (Utf8.encode second)).Resumes last.location (.ofText second) := {
    rest := by simp [Scanner.followedBy, nothing, Scanner.ofText]
    location := rfl
    counted := Location.isCounted_start }
  obtain ⟨codes, batches⟩ := runs_followedBy member nothing afterBreak (Utf8.encode second)
  rw [← encoded, runCodes_alike builtinScopes resumes] at codes
  rw [← encoded] at batches
  obtain ⟨wholeCode, wholeExpressions⟩ := compileProgram_blocks (first ++ "\n" ++ second) config
  obtain ⟨code, expressions⟩ := compileProgram_blocks (first ++ "\n") config
  obtain ⟨aloneCode, aloneExpressions⟩ := compileProgram_blocks second config
  intro whole before alone branches
  refine ⟨?_, ⟨_, aloneCode, ?_⟩, ?_⟩
  · rw [wholeExpressions, expressions, aloneExpressions, codes, List.length_append]
  · rw [wholeCode, code, codes, numberedBlocks_append, clearedBlocks, List.flatMap_append,
      ← clearedBlocks, ← clearedBlocks, Instruction.branchAfter_eq, numberedBlocks_add,
      List.append_assoc]
  · apply FirstError.eq_of_code?
    have wholeCode? : whole.status.code? = before.status.code?.or alone.status.code? := by
      rw [code?_status, code?_status, code?_status, batches]
      refine (firstCode?_append ..).trans (congrArg _ ?_)
      exact firstCode?_alike originCounted (runBatches_alike builtinScopes resumes)
    rw [wholeCode?, FirstError.isSet]
    cases isCode : before.status.code? with
    | none => rfl
    | some code => exact isCode.symm

/-- An unknown name on the first line and a parenthesis too many on the second change nothing on the
third, which has its labels numbered after the one nil check before it.
-/
theorem compileProgram_append_after_errors
    : let first := "x ?? 1\nnil ?? 2 )"
      let second := "nil ?? (nil ?? 3)"
      let whole := compileProgram (first ++ "\n" ++ second) {}
      let before := compileProgram (first ++ "\n") {}
      let alone := compileProgram second {}
      EndsLine (first ++ "\n")
      ∧ before.status.code? = some .undefinedVariable
      ∧ alone.status.code? = none
      ∧ whole.expressions = before.expressions + alone.expressions
      ∧ (∃ code,
          alone.code = Assembly.prolog ++ code
          ∧ whole.code = before.code ++ code.map (Assembly.Line.shiftedBy 1))
      ∧ whole.status = if before.status.isSet then before.status else alone.status := by
  intro first second whole before alone
  have ends : EndsLine (first ++ "\n") := by decide +kernel
  have oneBranch : UInt32.ofNat
      ((runCodes builtinScopes (.ofText (first ++ "\n"))).flatten.count .coalesce) = 1 := by
    decide +kernel
  obtain ⟨expressions, code, status⟩ := compileProgram_append first second {} ends
  rw [oneBranch] at code
  exact ⟨ends, by decide +kernel, by decide +kernel, expressions, code, status⟩

end ExprCompiler

import ExprCompiler.Command.Program
import ExprCompiler.Proofs.Expression.ErrorEvents
import ExprCompiler.Proofs.Lexical.Resumption
import Mathlib.Data.List.Perm.Basic

/-! What a compilation reports of its error events. An expression hands over its events in one
batch, by place and without repetitions; every other event is a batch of its own.
-/

namespace ExprCompiler

/-- The events while the rest of a line is skipped. -/
def skipEvents (scanner : Scanner) : List ErrorEvent :=
  match (skipLine scanner).1 with
  | .error error => [.lexical error]
  | .ok () => []

/-- The events after an expression that ended at `terminator?`. -/
def terminatorEvents (terminator? : Option Token) (scanner : Scanner) : List ErrorEvent :=
  match terminator? with
  | none => []
  | some token =>
      if token.kind.endsLine then [] else .trailingToken token :: skipEvents scanner

/-- The events of the next line in the order in which they happen. -/
def lineBatches (scopes : ScopeStack) (scanner : Scanner) : List (List ErrorEvent) :=
  match scanner.next with
  | (.error error, _) => [[.lexical error]]
  | (.ok first, rest) =>
      if first.kind.endsLine then []
      else
        let (outcome, after) := parseExpression scopes first rest
        Parser.parseEvents scopes {} first rest
          :: (terminatorEvents outcome.terminator? after).map ([·])

/-- The events of all lines in the order in which they happen. -/
def runBatches (scopes : ScopeStack) (scanner : Scanner) : List (List ErrorEvent) :=
  lineBatches scopes scanner
    ++ match _line : compileLine scopes { queue := {} } scanner with
      | ⟨_, rest, true⟩ => runBatches scopes rest
      | ⟨_, _, false⟩ => []
termination_by scanner.rest.length
decreasing_by
  have shorter := compileLine_rest_length_lt scopes { queue := {} } scanner (by rw [_line])
  rwa [_line] at shorter

/-- What is handed over of a batch: no repetitions, and by place. -/
def settled (batch : List ErrorEvent) : List Diagnostic :=
  (dropRepeats (diagnosticsOf batch)).mergeSort Diagnostic.inOrder

/-- A single event is handed over as it is. -/
theorem settled_singleton (event : ErrorEvent) : settled [event] = [event.diagnostic] :=
  List.mergeSort_singleton _

-----------------------------------------------------------------------------------------
-- What the queue of a run is offered
-----------------------------------------------------------------------------------------

variable {scopes : ScopeStack} {compilation : Compilation}

/-- An expression hands over its settled events. -/
theorem diagnostics_parseExpression {Source : Type} [TokenSource Source] (scopes : ScopeStack)
    (first : Token) (source : Source)
    : (parseExpression scopes first source).1.diagnostics
      = settled (Parser.parseEvents scopes {} first source) := by
  rw [parseExpression, Parser.diagnostics_parseFrom]
  exact DiagnosticQueue.flush_addAll_new _

/-- Finishing a line reports the events after its expression. -/
theorem queue_finishLine (compilation : Compilation) (terminator? : Option Token)
    (scanner : Scanner)
    : (finishLine compilation terminator? scanner).compilation.queue
      = compilation.queue.addAll (diagnosticsOf (terminatorEvents terminator? scanner)) := by
  unfold finishLine terminatorEvents skipEvents TokenKind.endsLine
  cases terminator? with
  | none => rfl
  | some token =>
      by_cases isFile : token.kind = .endOfFile
      · simp [isFile]
      by_cases isLine : token.kind = .endOfLine
      · simp [isLine]
      simp only [isFile, isLine, if_false]
      rcases skipLine scanner with ⟨error | _, rest⟩ <;> rfl

/-- Where a line ends does not depend on what was compiled before it. -/
theorem finishLine_congr (first second : Compilation) (terminator? : Option Token)
    (scanner : Scanner)
    : (finishLine first terminator? scanner).scanner
        = (finishLine second terminator? scanner).scanner
      ∧ (finishLine first terminator? scanner).continues
        = (finishLine second terminator? scanner).continues := by
  unfold finishLine
  cases terminator? with
  | none => exact ⟨rfl, rfl⟩
  | some token =>
      by_cases isFile : token.kind = .endOfFile
      · simp [isFile]
      by_cases isLine : token.kind = .endOfLine
      · simp [isLine]
      simp only [isFile, isLine, if_false]
      rcases skipLine scanner with ⟨error | _, rest⟩ <;> exact ⟨rfl, rfl⟩

theorem compileLine_congr (scopes : ScopeStack) (first second : Compilation) (scanner : Scanner)
    : (compileLine scopes first scanner).scanner = (compileLine scopes second scanner).scanner
      ∧ (compileLine scopes first scanner).continues
        = (compileLine scopes second scanner).continues := by
  unfold compileLine
  rcases scanner.next with ⟨error | token, rest⟩
  · exact ⟨rfl, rfl⟩
  by_cases isFile : token.kind = .endOfFile
  · simp [isFile]
  by_cases isLine : token.kind = .endOfLine
  · simp [isLine]
  simp only [isFile, isLine, if_false]
  exact finishLine_congr ..

/-- Events that are batches of their own are handed over as they are. -/
theorem flatMap_settled_singletons (events : List ErrorEvent)
    : (events.map ([·])).flatMap settled = diagnosticsOf events := by
  rw [List.flatMap_map, diagnosticsOf, List.map_eq_flatMap]
  simp only [settled_singleton]

/-- A line offers the queue its batches one after the other. -/
theorem queue_compileLine (scopes : ScopeStack) (compilation : Compilation) (scanner : Scanner)
    : (compileLine scopes compilation scanner).compilation.queue
      = compilation.queue.addAll ((lineBatches scopes scanner).flatMap settled) := by
  unfold compileLine lineBatches TokenKind.endsLine
  rcases scanner.next with ⟨error | first, rest⟩
  · rw [List.flatMap_singleton, settled_singleton]
    rfl
  by_cases isFile : first.kind = .endOfFile
  · simp [isFile]
  by_cases isLine : first.kind = .endOfLine
  · simp [isLine]
  have handedOver := diagnostics_parseExpression scopes first rest
  simp only [isFile, isLine, if_false, compileExpression, queue_finishLine,
    Compilation.addExpression, handedOver]
  simp only [decide_false, Bool.or_self, Bool.false_eq_true, if_false, List.flatMap_cons,
    flatMap_settled_singletons, DiagnosticQueue.addAll_append]

/-- The events of a run are those of its first line and of the lines after it. -/
theorem runBatches_eq {scanner rest : Scanner} {compiled : Compilation} {more : Bool}
    (line : compileLine scopes compilation scanner = ⟨compiled, rest, more⟩)
    : runBatches scopes scanner
      = lineBatches scopes scanner ++ if more then runBatches scopes rest else [] := by
  obtain ⟨sameRest, sameEnd⟩ := compileLine_congr scopes compilation { queue := {} } scanner
  rw [line] at sameRest sameEnd
  rw [runBatches.eq_def]
  split <;> simp_all

/-- A run offers the queue the batches of its lines, by induction over the lines. -/
theorem queue_compileLines (scopes : ScopeStack) (compilation : Compilation) (scanner : Scanner)
    : (compileLines scopes compilation scanner).1.queue
      = compilation.queue.addAll ((runBatches scopes scanner).flatMap settled) := by
  fun_induction compileLines scopes compilation scanner with
  | case1 compilation scanner compiled rest line ih =>
      have offered := queue_compileLine scopes compilation scanner
      rw [line] at offered
      rw [ih, runBatches_eq line, List.flatMap_append, DiagnosticQueue.addAll_append, ← offered]
      rfl
  | case2 compilation scanner compiled rest line =>
      have offered := queue_compileLine scopes compilation scanner
      rw [line] at offered
      rw [runBatches_eq line, List.flatMap_append, DiagnosticQueue.addAll_append, ← offered]
      rfl

-----------------------------------------------------------------------------------------
-- The scanner at the end of a run
-----------------------------------------------------------------------------------------

/-- What every reading keeps holds after a parse, by induction over its tokens. -/
theorem Parser.parseFrom_keeps {Source : Type} [TokenSource Source] {kept : Source → Prop}
    (keeps : ∀ source, kept source → kept (TokenSource.next source).2) (scopes : ScopeStack)
    (parser : Parser) (token : Token) {source : Source} (before : kept source)
    : kept (parseFrom scopes parser token source).2 := by
  fun_induction parseFrom scopes parser token source with
  | case1 parser token source ended progress => exact before
  | case2 parser token source advanced progress error rest reading =>
      have after := keeps source before
      rwa [reading] at after
  | case3 parser token source advanced progress following rest reading ih =>
      have after := keeps source before
      rw [reading] at after
      exact ih after

section Keeping

variable {kept : Scanner → Prop} (keeps : ∀ scanner, kept scanner → kept scanner.next.2)

include keeps

theorem skipLine_keeps {scanner : Scanner} (before : kept scanner)
    : kept (skipLine scanner).2 := by
  fun_induction skipLine scanner with
  | case1 scanner error rest reading | case2 scanner token rest reading =>
      have after := keeps scanner before
      rwa [reading] at after
  | case3 scanner token rest reading _ ih =>
      have after := keeps scanner before
      rw [reading] at after
      exact ih after

theorem finishLine_keeps (compilation : Compilation) (terminator? : Option Token)
    {scanner : Scanner} (before : kept scanner)
    : kept (finishLine compilation terminator? scanner).scanner := by
  have skipped := skipLine_keeps keeps before
  unfold finishLine
  cases terminator? with
  | none => exact before
  | some token =>
      dsimp only
      split
      · exact before
      split
      · exact before
      generalize skipLine scanner = result at skipped ⊢
      rcases result with ⟨error | _, rest⟩
      · exact skipped
      · exact skipped

theorem compileLine_keeps (scopes : ScopeStack) (compilation : Compilation) {scanner : Scanner}
    (before : kept scanner)
    : kept (compileLine scopes compilation scanner).scanner := by
  have read := keeps scanner before
  unfold compileLine
  generalize scanner.next = reading at read ⊢
  rcases reading with ⟨error | first, rest⟩
  · exact read
  dsimp only
  split
  · exact read
  split
  · exact read
  · exact finishLine_keeps keeps _ _ (Parser.parseFrom_keeps keeps scopes {} first read)

theorem compileLines_keeps (scopes : ScopeStack) (compilation : Compilation) {scanner : Scanner}
    (before : kept scanner)
    : kept (compileLines scopes compilation scanner).2 := by
  fun_induction compileLines scopes compilation scanner with
  | case1 compilation scanner compiled rest line ih =>
      have after := compileLine_keeps keeps scopes compilation before
      rw [line] at after
      exact ih after
  | case2 compilation scanner compiled rest line =>
      have after := compileLine_keeps keeps scopes compilation before
      rwa [line] at after

end Keeping

/-- All built-in functions are declared: no two have one name, and the block has room for them. -/
theorem registration_succeeds : registration.1 = .ok () := by
  decide +kernel

/-- So nothing is reported before the first line. -/
theorem startingQueue_eq (config : QueueConfig) : startingQueue config = { config } := by
  rw [startingQueue, registration_succeeds]

/-- The warnings at the end of a run. -/
def runWarnings (source : String) (config : QueueConfig) : List Diagnostic :=
  (compileLines builtinScopes { queue := { config } } (.ofText source)).2.warnings.kept

/-- A run warns once at most, of a comment without an end. -/
theorem runWarnings_eq (source : String) (config : QueueConfig)
    : runWarnings source config = []
      ∨ ∃ location, runWarnings source config = [openCommentWarning location] := by
  have atStart : (Scanner.ofText source).WarnsAtEnd := .inl rfl
  have atEnd := compileLines_keeps (fun _ => Scanner.WarnsAtEnd.next) builtinScopes
    { queue := { config } } atStart
  rcases atEnd with quiet | ⟨-, location, warned⟩
  · exact .inl (congrArg DiagnosticQueue.kept quiet)
  · exact .inr ⟨location, congrArg DiagnosticQueue.kept warned⟩

/-- Sorting changes nothing in at most one warning. -/
theorem flush_runWarnings (source : String) (config : QueueConfig)
    : (compileLines builtinScopes { queue := { config } } (.ofText source)).2.warnings.flush.1
      = runWarnings source config := by
  rw [DiagnosticQueue.flush]
  change (runWarnings source config).mergeSort _ = _
  rcases runWarnings_eq source config with quiet | ⟨location, warned⟩
  · rw [quiet, List.mergeSort_nil]
  · rw [warned, List.mergeSort_singleton]

/-- All that the queue of a program is offered: the batches of its lines, then the warnings. -/
def offers (source : String) (config : QueueConfig) : List Diagnostic :=
  (runBatches builtinScopes (.ofText source)).flatMap settled ++ runWarnings source config

theorem compileProgram_report (source : String) (config : QueueConfig)
    : (compileProgram source config).diagnostics
        = (({ config } : DiagnosticQueue).addAll (offers source config)).flush.1
      ∧ (compileProgram source config).status
        = (({ config } : DiagnosticQueue).addAll (offers source config)).firstError := by
  have offered := queue_compileLines builtinScopes { queue := { config } } (.ofText source)
  simp only [compileProgram, startingQueue_eq, offers, DiagnosticQueue.addAll_append, ← offered,
    flush_runWarnings, and_self]

-----------------------------------------------------------------------------------------
-- The status
-----------------------------------------------------------------------------------------

/-- What is handed over of a batch are its diagnostics without repetitions. -/
theorem settled_perm (batch : List ErrorEvent)
    : (settled batch).Perm (dropRepeats (diagnosticsOf batch)) :=
  List.mergeSort_perm ..

/-- The leftmost diagnostic that is handed over of a batch, the first of them if several stand
at one place.
-/
def leftmost? (batch : List ErrorEvent) : Option Diagnostic :=
  let diagnostics := dropRepeats (diagnosticsOf batch)
  diagnostics.find? fun diagnostic => diagnostics.all diagnostic.inOrder

/-- What is handed over starts with the leftmost: those that are leftmost keep their order, and
they come before all others.
-/
theorem head?_settled (batch : List ErrorEvent) : (settled batch).head? = leftmost? batch := by
  unfold settled leftmost?
  apply head?_mergeSort
  · intro first second third
    simp only [← Diagnostic.notAfter_eq_inOrder]
    exact Location.notAfter_trans
  · intro first second
    simp only [← Diagnostic.notAfter_eq_inOrder]
    exact Location.notAfter_total ..

theorem settled_eq_nil_iff (batch : List ErrorEvent) : settled batch = [] ↔ batch = [] := by
  cases batch with
  | nil => simp [settled, dropRepeats]
  | cons event later =>
      have handedOver : event.diagnostic ∈ settled (event :: later) :=
        (settled_perm _).mem_iff.mpr List.mem_cons_self
      simpa using List.ne_nil_of_mem handedOver

theorem isError_of_mem_settled {batch : List ErrorEvent} {diagnostic : Diagnostic}
    (member : diagnostic ∈ settled batch)
    : diagnostic.isError = true :=
  isError_of_mem_diagnosticsOf
    (mem_of_mem_dropRepeats ((settled_perm batch).mem_iff.mp member))

/-- Among errors only, the first error is the first. -/
theorem find?_isError_of_all {diagnostics : List Diagnostic}
    (errors : ∀ diagnostic ∈ diagnostics, diagnostic.isError = true)
    : diagnostics.find? Diagnostic.isError = diagnostics.head? := by
  cases diagnostics with
  | nil => rfl
  | cons first later => exact List.find?_cons_of_pos (errors first List.mem_cons_self)

/-- The first batch that holds an event. -/
def firstBatch? (batches : List (List ErrorEvent)) : Option (List ErrorEvent) :=
  batches.find? fun batch => !batch.isEmpty

theorem firstBatch?_ne_nil {batches : List (List ErrorEvent)} {batch : List ErrorEvent}
    (first : firstBatch? batches = some batch)
    : batch ≠ [] := by
  simpa using List.find?_some first

/-- What is made of batches starts with what is made of the first one that holds an event. -/
theorem head?_flatMap_batches {Result : Type} {made : List ErrorEvent → List Result}
    (madeOfEvents : ∀ batch, made batch = [] ↔ batch = []) (batches : List (List ErrorEvent))
    : (batches.flatMap made).head?
      = (firstBatch? batches).bind fun batch => (made batch).head? := by
  induction batches with
  | nil => rfl
  | cons batch later ih =>
      rw [List.flatMap_cons, firstBatch?, List.find?_cons]
      cases batch with
      | nil => simpa [firstBatch?, (madeOfEvents []).mpr rfl] using ih
      | cons event events =>
          obtain ⟨first, others, madeFirst⟩ :=
            List.exists_cons_of_ne_nil (mt (madeOfEvents (event :: events)).mp (by simp))
          simp [madeFirst]

/-- The status of a program is the code of the first diagnostic of its first batch, by place:
all of a batch are errors, and no warning is.
-/
theorem code?_status (source : String) (config : QueueConfig)
    : (compileProgram source config).status.code?
      = ((firstBatch? (runBatches builtinScopes (.ofText source))).bind leftmost?).map
          Diagnostic.code := by
  have errors : ∀ diagnostic ∈ (runBatches builtinScopes (.ofText source)).flatMap settled,
      diagnostic.isError = true := by
    intro diagnostic member
    obtain ⟨batch, -, inBatch⟩ := List.mem_flatMap.mp member
    exact isError_of_mem_settled inBatch
  have noError : (runWarnings source config).find? Diagnostic.isError = none := by
    rcases runWarnings_eq source config with quiet | ⟨location, warned⟩
    · rw [quiet]
      rfl
    · rw [warned]
      rfl
  rw [(compileProgram_report source config).2, DiagnosticQueue.firstError_addAll, offers,
    List.find?_append, noError, find?_isError_of_all errors,
    head?_flatMap_batches settled_eq_nil_iff, Option.or_none]
  simp only [head?_settled]
  rfl

/-- A parse that reaches a terminator has the code of its first event as its status. -/
theorem code?_status_parseExpression {Source : Type} [TokenSource Source] {scopes : ScopeStack}
    {first : Token} {source : Source}
    (ended : (parseExpression scopes first source).1.terminator?.isSome = true)
    : (parseExpression scopes first source).1.status.code?
      = (Parser.parseEvents scopes {} first source).head?.map (·.diagnostic.code) := by
  rw [parseExpression] at ended
  rw [parseExpression, Parser.status_parseFrom, if_pos ended,
    DiagnosticQueue.firstError_addAll_errors fun _ => isError_of_mem_diagnosticsOf, diagnosticsOf,
    List.head?_map, Option.map_map]
  rfl

/-- When the status of a program is the first error of its run. It is unset exactly when there
was none. Otherwise it is the code of the leftmost error in the first batch with an error, and
so the code of the first event exactly when these two codes agree; a line that ended without a
lexical fault has the code of its first event as its own status, whatever stands left of it.
-/
theorem status_compileProgram (source : String) (config : QueueConfig)
    : let batches := runBatches builtinScopes (.ofText source)
      let status := (compileProgram source config).status
      (status.isSet = false ↔ batches.flatten = [])
      ∧ status.code?
        = ((firstBatch? batches).bind leftmost?).map Diagnostic.code
      ∧ (status.code? = batches.flatten.head?.map (·.diagnostic.code)
        ↔ ∀ batch, firstBatch? batches = some batch →
            (leftmost? batch).map Diagnostic.code = batch.head?.map (·.diagnostic.code))
      ∧ ∀ (first : Token) (scanner : Scanner),
          (parseExpression builtinScopes first scanner).1.terminator?.isSome = true →
          (parseExpression builtinScopes first scanner).1.status.code?
            = (Parser.parseEvents builtinScopes {} first scanner).head?.map
                (·.diagnostic.code) := by
  intro batches status
  have code : status.code? = _ := code?_status source config
  have firstEvent : batches.flatten.head? = (firstBatch? batches).bind List.head? := by
    rw [← List.flatMap_id]
    exact head?_flatMap_batches (fun _ => Iff.rfl) batches
  refine ⟨?_, code, ?_, fun first scanner => code?_status_parseExpression⟩
  · rw [FirstError.isSet, code, ← List.head?_eq_none_iff, firstEvent]
    cases first : firstBatch? batches with
    | none => simp
    | some batch =>
        have holds := firstBatch?_ne_nil first
        simp [holds, ← head?_settled, mt (settled_eq_nil_iff batch).mp holds]
  · rw [code, firstEvent]
    cases firstBatch? batches with
    | none => simp
    | some batch => simp

/-- In `"a" - 1 / 0` the division fails first, and its code is the status of the line. The
subtraction fails later but further left, and its code is the status of the program.
-/
theorem status_compileProgram_nested
    : let source := "\"a\" - 1 / 0"
      (compileProgram source {}).status.code? = some .incompatibleTypes
      ∧ (runBatches builtinScopes (.ofText source)).flatten.head?.map (·.diagnostic.code)
        = some .semantic
      ∧ (match (Scanner.ofText source).next with
          | (.ok first, rest) => (parseExpression builtinScopes first rest).1.status.code?
          | (.error _, _) => none)
        = some .semantic := by
  refine ⟨?_, ?_, ?_⟩
  · rw [code?_status]
    decide +kernel
  · decide +kernel
  · decide +kernel

-----------------------------------------------------------------------------------------
-- Everything that is reported
-----------------------------------------------------------------------------------------

/-- What a program reports of its batches if nothing is filtered. -/
theorem diagnostics_unlimited_perm (source : String)
    : (compileProgram source .unlimited).diagnostics.Perm
        ((runBatches builtinScopes (.ofText source)).flatMap (dropRepeats ∘ diagnosticsOf)
          ++ runWarnings source .unlimited) := by
  rw [(compileProgram_report source .unlimited).1, DiagnosticQueue.flush]
  refine (List.mergeSort_perm ..).trans ?_
  rw [DiagnosticQueue.kept_addAll_unlimited rfl, List.nil_append, offers]
  exact (List.Perm.flatMap_left _ fun batch _ => settled_perm batch).append_right _

/-- Batches together lose what each of them loses. -/
theorem flatMap_dropRepeats_sublist (batches : List (List ErrorEvent))
    : (batches.flatMap (dropRepeats ∘ diagnosticsOf)).Sublist (diagnosticsOf batches.flatten) := by
  induction batches with
  | nil => exact .slnil
  | cons batch later ih =>
      rw [List.flatMap_cons, List.flatten_cons, diagnosticsOf_append]
      exact (dropRepeats_sublist _).append ih

/-- Batches that lose nothing together lose nothing each. By induction on the batches: none gets
longer, so one that gets shorter is not made up for.
-/
theorem flatMap_dropRepeats_eq_iff (batches : List (List ErrorEvent))
    : batches.flatMap (dropRepeats ∘ diagnosticsOf) = diagnosticsOf batches.flatten
      ↔ ∀ batch ∈ batches, dropRepeats (diagnosticsOf batch) = diagnosticsOf batch := by
  induction batches with
  | nil => simp
  | cons batch later ih =>
      rw [List.flatMap_cons, List.flatten_cons, diagnosticsOf_append, List.forall_mem_cons, ← ih]
      constructor
      · intro same
        have sameLength := congrArg List.length same
        have first := (dropRepeats_sublist (diagnosticsOf batch)).length_le
        have others := (flatMap_dropRepeats_sublist later).length_le
        simp only [List.length_append, Function.comp_apply] at sameLength
        exact List.append_inj same (show (dropRepeats _).length = _ by omega)
      · rintro ⟨first, others⟩
        rw [Function.comp_apply, first, others]

/-- What a program reports if nothing is to be filtered. Up to order these are the events of each
batch without repetitions and the scanner's warning, so that all events are reported exactly
when no batch repeats a message on one line.
-/
theorem diagnostics_compileProgram_unlimited (source : String)
    : (compileProgram source .unlimited).diagnostics.Perm
        ((runBatches builtinScopes (.ofText source)).flatMap (dropRepeats ∘ diagnosticsOf)
          ++ runWarnings source .unlimited)
      ∧ (runWarnings source .unlimited = []
        ∨ ∃ location, runWarnings source .unlimited = [openCommentWarning location])
      ∧ ((compileProgram source .unlimited).diagnostics.Perm
          (diagnosticsOf (runBatches builtinScopes (.ofText source)).flatten
            ++ runWarnings source .unlimited)
        ↔ ∀ batch ∈ runBatches builtinScopes (.ofText source),
            (diagnosticsOf batch).Pairwise
              fun earlier later => later.repeats earlier = false) := by
  have reported := diagnostics_unlimited_perm source
  refine ⟨reported, runWarnings_eq source .unlimited, ?_⟩
  simp only [← dropRepeats_eq_self_iff, ← flatMap_dropRepeats_eq_iff]
  constructor
  · intro all
    have sameLength := ((List.perm_append_right_iff _).mp (reported.symm.trans all)).length_eq
    exact (flatMap_dropRepeats_sublist _).eq_of_length sameLength
  · intro nothingLost
    rwa [← nothingLost]

/-- Both operands of `x + x` are undeclared, and only the first is reported. -/
theorem diagnostics_compileProgram_unlimited_repeated
    : (runBatches builtinScopes (.ofText "x + x")).flatten.length = 2
      ∧ ¬(compileProgram "x + x" .unlimited).diagnostics.Perm
          (diagnosticsOf (runBatches builtinScopes (.ofText "x + x")).flatten
            ++ runWarnings "x + x" .unlimited) := by
  decide +kernel

end ExprCompiler

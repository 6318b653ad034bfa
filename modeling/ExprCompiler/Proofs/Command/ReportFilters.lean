import ExprCompiler.Command.TokenReport
import ExprCompiler.Proofs.Command.CompiledLines
import ExprCompiler.Proofs.Lexical.Positions
import ExprCompiler.Proofs.Report.ErrorLimit

/-! What the filters of a queue decide. Main statement: they choose among the diagnostics of a run,
and nothing else depends on them. The warnings of a run come after its errors and repeat none: they
tell of a comment without an end, and no error does.
-/

namespace ExprCompiler

namespace Lexical

/-- Reading from the start never fails for a comment without an end. By induction on the comments
before the token.
-/
theorem fault_ne_of_run_start (lexeme : Lexeme) (here : Location) {bytes : List UInt8}
    {fault : LexicalFault} (fails : (run .start lexeme here bytes).verdict = .error fault)
    : fault ≠ .unterminatedBlockComment := by
  have ofToken {lexeme : Lexeme} {here : Location} {first : UInt8} {rest : List UInt8}
      (notBlank : isBlank first = false)
      (notComment : ∀ second ∈ rest.head?, first = 0x2F → second ≠ 0x2A ∧ second ≠ 0x2F)
      (fails : (run .start lexeme here (first :: rest)).verdict = .error fault)
      : fault ≠ .unterminatedBlockComment := by
    by_cases isNewline : first = 0x0A
    · subst isNewline
      cases fails
    · have ends := (run_start_of_token lexeme here notBlank isNewline notComment).1
      rw [fails] at ends
      exact ends
  fun_induction leadingGap bytes generalizing lexeme here with
  | case1 => cases fails
  | case2 byte blank =>
      rw [run_start_blank _ _ blank] at fails
      cases fails
  | case3 byte notBlank => exact ofToken (by simpa using notBlank) (by simp) fails
  | case4 first second rest blank ih =>
      rw [run_start_blank _ _ blank] at fails
      exact ih _ _ fails
  | case5 first second rest notBlank isOpen comment later closes ih =>
      obtain ⟨rfl, rfl⟩ := isOpen
      rw [run_start_openComment, run_body_of_closes closes rfl] at fails
      exact ih _ _ fails
  | case6 first second rest notBlank isOpen unclosed =>
      obtain ⟨rfl, rfl⟩ := isOpen
      rw [run_start_openComment] at fails
      obtain ⟨lastDepth, ends⟩ :=
        run_body_of_open { lexeme with start := here, depth := 1, commentStart := here }
          (here.afterBytes [0x2F, 0x2A]) unclosed rfl
      rw [ends] at fails
      cases fails
  | case7 first second rest notBlank notOpen isLine =>
      obtain ⟨rfl, rfl⟩ := isLine
      have verdict : (run .start lexeme here (0x2F :: 0x2F :: rest)).verdict
          = (run .lineComment { lexeme with start := here }
              (here.afterBytes [0x2F, 0x2F]) rest).verdict :=
        rfl
      rw [verdict, run_lineComment] at fails
      split at fails <;> cases fails
  | case8 first second rest notBlank notOpen notLine =>
      refine ofToken (by simpa using notBlank) ?_ fails
      rintro _ ⟨⟩ isSlash
      exact ⟨fun isStar => notOpen ⟨isSlash, isStar⟩, fun again => notLine ⟨isSlash, again⟩⟩

end Lexical

theorem Scanner.fault_ne_of_next {scanner : Scanner} {error : LexicalError}
    (fails : scanner.next.1 = .error error)
    : error.fault ≠ .unterminatedBlockComment := by
  rw [next_fst] at fails
  split at fails
  · next fault isFault =>
      cases fails
      exact Lexical.fault_ne_of_run_start _ _ isFault
  · cases fails

/-- The events that a run can have: an open comment is not one of them. -/
def ErrorEvent.IsProper : ErrorEvent → Prop
  | .lexical error => error.fault ≠ .unterminatedBlockComment
  | _ => True

theorem isProper_of_handleEvent? {scopes : ScopeStack} {handle : List StackItem}
    {event : ErrorEvent} (fails : handleEvent? scopes handle = some event)
    : event.IsProper := by
  have ofCheck {location : Location} {check : Except TypeFault Checked}
      (fails : checkEvent? location check = some event)
      : event.IsProper := by
    cases check with
    | ok checked => cases fails
    | error fault =>
        cases fails
        trivial
  unfold handleEvent? at fails
  split at fails
  · exact ofCheck fails
  · exact ofCheck fails
  · cases fails
  · exact ofCheck fails
  · split at fails
    · cases fails
    · cases fails
      trivial

namespace Parser

/-- Taking a token has proper events only, by induction over the reductions before it. -/
theorem isProper_of_mem_feedEvents {scopes : ScopeStack} {parser : Parser} {token : Token}
    {event : ErrorEvent} (member : event ∈ feedEvents scopes parser token)
    : event.IsProper := by
  fun_induction feedEvents scopes parser token with
  | case1 | case2 | case3 | case4 => cases member
  | case5 parser moves incoming notBoth decision ih =>
      rcases List.mem_append.mp member with ofReduction | ofLater
      · exact isProper_of_handleEvent? (Option.mem_toList.mp ofReduction)
      · exact ih ofLater
  | case6 parser moves incoming notBoth decision =>
      obtain rfl := List.mem_singleton.mp member
      unfold refusal
      split <;> trivial

/-- A parse has proper events only, by induction over its tokens. -/
theorem isProper_of_mem_parseEvents {scopes : ScopeStack} {parser : Parser} {token : Token}
    {scanner : Scanner} {event : ErrorEvent}
    (member : event ∈ parseEvents scopes parser token scanner)
    : event.IsProper := by
  fun_induction parseFrom scopes parser token scanner with
  | case1 parser token scanner ended progress =>
      rw [parseEvents_of_done progress] at member
      rcases List.mem_append.mp member with taken | finished
      · exact isProper_of_mem_feedEvents taken
      · unfold finishEvents at finished
        split at finished
        · cases finished
        · obtain rfl := List.mem_singleton.mp finished
          trivial
  | case2 parser token scanner advanced progress error rest reading =>
      rw [parseEvents_of_error progress reading] at member
      rcases List.mem_append.mp member with taken | fault
      · exact isProper_of_mem_feedEvents taken
      · obtain rfl := List.mem_singleton.mp fault
        exact Scanner.fault_ne_of_next (congrArg Prod.fst reading)
  | case3 parser token scanner advanced progress following rest reading ih =>
      rw [parseEvents_of_more progress reading] at member
      rcases List.mem_append.mp member with taken | later
      · exact isProper_of_mem_feedEvents taken
      · exact ih later

end Parser

theorem fault_ne_of_skipLine {scanner : Scanner} {error : LexicalError}
    (fails : (skipLine scanner).1 = .error error)
    : error.fault ≠ .unterminatedBlockComment := by
  fun_induction skipLine scanner with
  | case1 scanner fault rest reading =>
      cases fails
      exact Scanner.fault_ne_of_next (congrArg Prod.fst reading)
  | case2 => cases fails
  | case3 scanner token rest reading goesOn ih => exact ih fails

theorem isProper_of_mem_lineBatches {scopes : ScopeStack} {scanner : Scanner}
    {batch : List ErrorEvent} {event : ErrorEvent} (inLine : batch ∈ lineBatches scopes scanner)
    (member : event ∈ batch)
    : event.IsProper := by
  unfold lineBatches at inLine
  split at inLine
  · next error rest reading =>
      obtain rfl := List.mem_singleton.mp inLine
      obtain rfl := List.mem_singleton.mp member
      exact Scanner.fault_ne_of_next (congrArg Prod.fst reading)
  · split at inLine
    · cases inLine
    · rcases List.mem_cons.mp inLine with rfl | afterwards
      · exact Parser.isProper_of_mem_parseEvents member
      · obtain ⟨only, isAfter, rfl⟩ := List.mem_map.mp afterwards
        obtain rfl := List.mem_singleton.mp member
        unfold terminatorEvents skipEvents at isAfter
        split at isAfter
        · cases isAfter
        · split at isAfter
          · cases isAfter
          · rcases List.mem_cons.mp isAfter with rfl | skipped
            · trivial
            · split at skipped
              · next fails =>
                  obtain rfl := List.mem_singleton.mp skipped
                  exact fault_ne_of_skipLine fails
              · cases skipped

/-- Texts differ if they differ in their first characters. -/
theorem append_ne_of_take {front whole : String} (count : Nat)
    (differ
      : count ≤ front.toList.length ∧ front.toList.take count ≠ whole.toList.take count)
    (back : String)
    : front ++ back ≠ whole := by
  rintro rfl
  apply differ.2
  rw [String.toList_append, List.take_append_of_le_length differ.1]

theorem TypeFault.message_ne (fault : TypeFault)
    : fault.message ≠ LexicalFault.unterminatedBlockComment.message := by
  unfold TypeFault.message
  cases fault with
  | unwrapNil | divisionByZero => decide +kernel
  | undefinedVariable | functionAsValue | nilOperand | notApplicable | notOptional
  | coalesceMismatch | notComparable =>
      simp only [String.append_assoc]
      exact append_ne_of_take 3 (by decide +kernel) _

theorem ParseFault.message_ne (fault : ParseFault)
    : fault.message ≠ LexicalFault.unterminatedBlockComment.message := by
  cases fault with
  | unexpected kind => exact append_ne_of_take 3 (by decide +kernel) _
  | _ => decide +kernel

theorem LexicalFault.message_ne {fault : LexicalFault} (other : fault ≠ .unterminatedBlockComment)
    : fault.message ≠ LexicalFault.unterminatedBlockComment.message := by
  unfold LexicalFault.message
  cases fault with
  | unexpectedChar | controlCharInString | invalidEscape =>
      simp only [String.append_assoc]
      exact append_ne_of_take 3 (by decide +kernel) _
  | unterminatedBlockComment => exact absurd rfl other
  | _ => decide +kernel

/-- The warning repeats no event. -/
theorem ErrorEvent.IsProper.repeats_eq_false {event : ErrorEvent} (proper : event.IsProper)
    (location : Location)
    : (openCommentWarning location).repeats event.diagnostic = false := by
  have differ : event.diagnostic.message ≠ LexicalFault.unterminatedBlockComment.message := by
    cases event with
    | failedCheck fault _ => exact fault.message_ne
    | malformedHandle fault _ | misplacedToken fault _ => exact fault.message_ne
    | emptyExpression _ => exact ParseFault.expectedExpression.message_ne
    | trailingToken token =>
        simp only [diagnostic, Diagnostic.errorAt, String.append_assoc]
        exact append_ne_of_take 3 (by decide +kernel) _
    | lexical error => exact LexicalFault.message_ne proper
  rw [Diagnostic.repeats, Bool.and_eq_false_iff]
  exact .inr (decide_eq_false differ)

/-- A queue that is offered some events, and then at most the warning of an open comment, keeps
what its limit leaves.
-/
theorem trims_of_isProper (config : QueueConfig) {errors warnings : List Diagnostic}
    (ofEvents : ∀ error ∈ errors, ∃ event : ErrorEvent, event.IsProper ∧ event.diagnostic = error)
    (ofComment : warnings = [] ∨ ∃ location, warnings = [openCommentWarning location])
    : config.Trims
        (({ config := config.withoutLimit } : DiagnosticQueue).addAll (errors ++ warnings)).flush.1
        (({ config } : DiagnosticQueue).addAll (errors ++ warnings)).flush.1 := by
  have ofWarning : ∀ warning ∈ warnings, ∃ location, warning = openCommentWarning location := by
    rcases ofComment with rfl | ⟨location, rfl⟩
    · simp
    · simp
  refine DiagnosticQueue.flush_addAll_trims config ?_ ?_ ?_
  · intro error member
    obtain ⟨event, -, rfl⟩ := ofEvents error member
    exact event.isError_diagnostic
  · intro warning member
    obtain ⟨location, rfl⟩ := ofWarning warning member
    rfl
  · intro warning isWarning error isError
    obtain ⟨location, rfl⟩ := ofWarning warning isWarning
    obtain ⟨event, proper, rfl⟩ := ofEvents error isError
    exact proper.repeats_eq_false location

theorem runWarnings_congr (source : String) (first second : QueueConfig)
    : runWarnings source first = runWarnings source second := by
  unfold runWarnings
  rw [scanner_compileLines_congr _ _ { queue := { config := second } }]

theorem compileProgram_trims (source : String) (config : QueueConfig)
    : config.Trims (compileProgram source config.withoutLimit).diagnostics
        (compileProgram source config).diagnostics := by
  rw [(compileProgram_report source config).1, (compileProgram_report source _).1, offers, offers,
    runWarnings_congr source config.withoutLimit config]
  refine trims_of_isProper config ?_ (runWarnings_eq source config)
  intro error member
  obtain ⟨batch, inRun, inBatch⟩ := List.mem_flatMap.mp member
  rw [runBatches_eq_flatMap] at inRun
  obtain ⟨start, -, inLine⟩ := List.mem_flatMap.mp inRun
  have isDiagnostic := mem_of_mem_dropRepeats ((settled_perm batch).mem_iff.mp inBatch)
  obtain ⟨event, isEvent, rfl⟩ := List.mem_map.mp isDiagnostic
  exact ⟨event, isProper_of_mem_lineBatches inLine isEvent, rfl⟩

/-- The readings of a scan are those of its scanners. -/
theorem Scanner.exists_of_mem_firstReadings {scanner : Scanner} {count : Nat} {reading : Reading}
    (member : reading ∈ scanner.firstReadings count)
    : ∃ earlier, (scanner.after earlier).next.1 = reading := by
  induction count generalizing scanner with
  | zero => cases member
  | succ count ih =>
      rcases List.mem_cons.mp member with rfl | later
      · exact ⟨0, rfl⟩
      · obtain ⟨earlier, reads⟩ := ih later
        exact ⟨earlier + 1, reads⟩

theorem reportTokens_trims (source : String) (config : QueueConfig)
    : config.Trims (reportTokens source config.withoutLimit).diagnostics
        (reportTokens source config).diagnostics := by
  obtain ⟨calls, -, reads, -⟩ := (Scanner.ofText source).exists_readings_eq
  have atStart : (Scanner.ofText source).WarnsAtEnd := .inl rfl
  simp only [reportTokens, reads, ← DiagnosticQueue.addAll_append]
  refine trims_of_isProper config ?_ ?_
  · intro error member
    obtain ⟨fault, isFault, rfl⟩ := List.mem_map.mp member
    obtain ⟨reading, isReading, read⟩ := List.mem_filterMap.mp isFault
    obtain ⟨earlier, rfl⟩ := Scanner.exists_of_mem_firstReadings isReading
    refine ⟨.lexical fault, ?_, rfl⟩
    split at read
    · cases read
    · next failure fails =>
        cases read
        exact Scanner.fault_ne_of_next fails
  · rw [DiagnosticQueue.flush]
    rcases atStart.after (calls + 1) with quiet | ⟨-, location, warned⟩
    · exact .inl (by rw [quiet]; exact List.mergeSort_nil)
    · exact .inr ⟨location, by rw [warned]; exact List.mergeSort_singleton _⟩

/-- The filters of a queue never change the outcome: the code, the number of expressions and the
status of a program, the tokens and the status of a scan. With a limit, the diagnostics are some of
those without it: all the warnings, and as many errors as the limit allows.
-/
theorem filters_keep_outcome (source : String)
    : (∀ first second : QueueConfig,
        (compileProgram source first).code = (compileProgram source second).code
        ∧ (compileProgram source first).expressions = (compileProgram source second).expressions
        ∧ (compileProgram source first).status = (compileProgram source second).status
        ∧ (reportTokens source first).listing = (reportTokens source second).listing
        ∧ (reportTokens source first).status = (reportTokens source second).status)
      ∧ ∀ config : QueueConfig,
          config.Trims (compileProgram source config.withoutLimit).diagnostics
            (compileProgram source config).diagnostics
          ∧ config.Trims (reportTokens source config.withoutLimit).diagnostics
            (reportTokens source config).diagnostics := by
  refine ⟨fun first second => ⟨?_, ?_, ?_, rfl, ?_⟩,
    fun config => ⟨compileProgram_trims source config, reportTokens_trims source config⟩⟩
  · rw [(compileProgram_blocks source first).1, (compileProgram_blocks source second).1]
  · rw [(compileProgram_blocks source first).2, (compileProgram_blocks source second).2]
  · apply FirstError.eq_of_code?
    rw [code?_status, code?_status]
  · apply FirstError.eq_of_code?
    simp only [reportTokens, ← DiagnosticQueue.addAll_append, DiagnosticQueue.firstError_addAll]

end ExprCompiler

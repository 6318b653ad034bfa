import ExprCompiler.Proofs.Command.ReportFilters
import ExprCompiler.Proofs.Lexical.Lexemes

/-! A source text can be scanned up to its first fault, or past all faults into a report. Main
statement: both ways agree on the tokens and on the first fault, and a report has its diagnostics in
the order in which they were found.
-/

namespace ExprCompiler

theorem mem_of_mem_readFaults {readings : List Reading} {error : LexicalError}
    (isFault : error ∈ readFaults readings)
    : .error error ∈ readings := by
  obtain ⟨reading, isReading, fails⟩ := List.mem_filterMap.mp isFault
  cases reading with
  | ok token => cases fails
  | error other =>
      cases fails
      exact isReading

/-- Readings give their first fault, or their tokens if there is none. By induction on them. -/
theorem mapM_readings (readings : List Reading)
    : readings.mapM id
      = match readFaults readings with
        | [] => .ok (readTokens readings)
        | error :: _ => .error error := by
  induction readings with
  | nil => rfl
  | cons reading later ih =>
      rw [List.mapM_cons, ih]
      cases reading with
      | error error => rfl
      | ok token =>
          simp only [readFaults, readTokens, List.filterMap_cons]
          cases List.filterMap _ later <;> rfl

theorem tokenize_eq_ok_iff {source : String} {tokens : List Token}
    : tokenize source = .ok tokens
      ↔ readFaults (Scanner.ofText source).readings.1 = []
        ∧ readTokens (Scanner.ofText source).readings.1 = tokens := by
  rw [tokenize, mapM_readings]
  cases readFaults (Scanner.ofText source).readings.1 <;> simp

theorem tokenize_eq_error_iff {source : String} {error : LexicalError}
    : tokenize source = .error error
      ↔ (readFaults (Scanner.ofText source).readings.1).head? = some error := by
  rw [tokenize, mapM_readings]
  cases readFaults (Scanner.ofText source).readings.1 <;> simp

/-- Nothing after the first fault makes a difference, by induction on the readings before it. -/
theorem Scanner.mapM_tokens (scanner : Scanner)
    : scanner.tokens.mapM id = scanner.readings.1.mapM id := by
  fun_induction tokens scanner with
  | case1 scanner error after result =>
      rw [readings_fst, result]
      rfl
  | case2 scanner token after result ends =>
      have isEnd : scanner.next.1.isEnd = true := by
        rw [result]
        exact decide_eq_true ends
      rw [readings_of_isEnd isEnd, result]
  | case3 scanner token after result goesOn ih =>
      have more : scanner.next.1.isEnd = false := by
        rw [result]
        exact decide_eq_false goesOn
      rw [readings_of_more more, result, List.mapM_cons, List.mapM_cons, ih]

namespace Scanner

variable {scanner : Scanner} {before taken : List UInt8}

theorem exists_location_after (place : scanner.location = .ofCount before) (count : Nat)
    : ∃ more, (scanner.after count).location = .ofCount (before ++ more) := by
  obtain ⟨read, -, reached⟩ := scanner.after_rest_suffix count
  refine ⟨read, ?_⟩
  rw [← Location.afterBytes_ofCount, ← place]
  exact reached

/-- The places of readings never go back, by induction on their number. -/
theorem pairwise_firstReadings (place : scanner.location = .ofCount before) (count : Nat)
    : (scanner.firstReadings count).Pairwise fun earlier later =>
        earlier.location.notAfter later.location = true := by
  induction count generalizing scanner before with
  | zero => exact .nil
  | succ count ih =>
      obtain ⟨more, placeAfter⟩ := exists_location_after place 1
      refine .cons (fun later isLater => ?_) (ih placeAfter)
      obtain ⟨earlier, rfl⟩ := exists_of_mem_firstReadings isLater
      exact notAfter_after place (Nat.zero_le (earlier + 1))

/-- After a reading a scanner stands after the bytes that it takes. -/
theorem Takes.location_next (takes : scanner.Takes before taken)
    : scanner.next.2.location = .ofCount (before ++ taken) := by
  obtain ⟨read, split, reached⟩ := scanner.after_rest_suffix 1
  rw [takes.split] at split
  rw [List.append_cancel_right split, ← Location.afterBytes_ofCount, ← takes.location]
  exact reached

/-- A reading stands no later than a scanner that comes after it. -/
theorem notAfter_location_after (place : scanner.location = .ofCount before) {first second : Nat}
    (inOrder : first < second)
    : (scanner.after first).next.1.location.notAfter (scanner.after second).location = true := by
  obtain ⟨read, taken, -, takes⟩ := exists_takes_after place first
  obtain ⟨front, leads, isFirst⟩ := takes.exists_location
  obtain ⟨more, rfl⟩ := Nat.exists_eq_add_of_le inOrder
  obtain ⟨later, isSecond⟩ := exists_location_after takes.location_next more
  have sameScanner : (scanner.after first).next.2.after more
      = scanner.after (first + 1 + more) := by
    rw [after_add, after_succ]
  rw [isFirst, ← sameScanner, isSecond, List.append_assoc (before ++ read)]
  apply Location.notAfter_ofCount
  apply (List.prefix_append_right_inj _).mpr
  exact leads.trans (List.prefix_append ..)

end Scanner

namespace Lexical

/-- Where a token begins, the end of file is not read. -/
theorem BeginsToken.verdict_ne_endOfFile {first : UInt8} {rest : List UInt8}
    (begins : BeginsToken first rest) (lexeme : Lexeme) (here : Location)
    : (run .start lexeme here (first :: rest)).verdict ≠ .ok .endOfFile := by
  by_cases isNewline : first = 0x0A
  · subst isNewline
    intro isEnd
    cases isEnd
  · have ends := (run_start_of_token lexeme here begins.notBlank isNewline begins.notComment).1
    intro isEnd
    rw [isEnd] at ends
    exact ends.2 rfl

/-- A comment that is left open was opened among the bytes that were unread, by induction on the
comments before it.
-/
theorem notAfter_commentStart (lexeme : Lexeme) (here : Location) {bytes : List UInt8}
    (leftOpen : (run .start lexeme here bytes).leftCommentOpen = true)
    : here.notAfter (run .start lexeme here bytes).lexeme.commentStart = true := by
  fun_induction leadingGap bytes generalizing lexeme here with
  | case1 => cases leftOpen
  | case2 byte blank =>
      rw [run_start_blank _ _ blank] at leftOpen
      cases leftOpen
  | case3 byte notBlank =>
      have begins := beginsToken_singleton notBlank
      exact absurd (verdict_of_leftCommentOpen leftOpen) (begins.verdict_ne_endOfFile lexeme here)
  | case4 first second rest blank ih =>
      rw [run_start_blank _ _ blank] at leftOpen ⊢
      exact Location.notAfter_trans (Location.notAfter_advance here first) (ih _ _ leftOpen)
  | case5 first second rest notBlank isOpen comment later closes ih =>
      obtain ⟨rfl, rfl⟩ := isOpen
      rw [run_start_openComment, run_body_of_closes closes rfl,
        ← Location.afterBytes_append] at leftOpen ⊢
      exact Location.notAfter_trans (Location.notAfter_afterBytes here _) (ih _ _ leftOpen)
  | case6 first second rest notBlank isOpen unclosed =>
      obtain ⟨rfl, rfl⟩ := isOpen
      obtain ⟨lastDepth, ends⟩ :=
        run_body_of_open { lexeme with start := here, depth := 1, commentStart := here }
          (here.afterBytes [0x2F, 0x2A]) unclosed rfl
      rw [run_start_openComment, ends]
      exact Location.notAfter_afterBytes here []
  | case7 first second rest notBlank notOpen isLine =>
      obtain ⟨rfl, rfl⟩ := isLine
      have inLine : (run .lineComment { lexeme with start := here } (here.afterBytes [0x2F, 0x2F])
          rest).leftCommentOpen = true :=
        leftOpen
      rw [run_lineComment] at inLine
      dsimp only at inLine
      split at inLine <;> cases inLine
  | case8 first second rest notBlank notOpen notLine =>
      have begins := beginsToken_cons notBlank notOpen notLine rest
      exact absurd (verdict_of_leftCommentOpen leftOpen) (begins.verdict_ne_endOfFile lexeme here)

end Lexical

namespace Scanner

variable {scanner : Scanner} {before : List UInt8}

/-- Only the reading that reaches the end of file warns. -/
theorem newWarnings_of_more (more : scanner.next.1.isEnd = false) : scanner.newWarnings = [] := by
  unfold newWarnings
  split
  · next leftOpen =>
      have isEnd := Lexical.verdict_of_leftCommentOpen leftOpen
      rw [next_fst, run, isEnd] at more
      cases more
  · rfl

theorem warnings_after_of_more {count : Nat}
    (more : ∀ earlier < count, (scanner.after earlier).next.1.isEnd = false)
    : (scanner.after count).warnings = scanner.warnings := by
  induction count with
  | zero => rfl
  | succ count ih =>
      have quiet := newWarnings_of_more (more count (Nat.lt_succ_self count))
      rw [after_succ, next_warnings, quiet, DiagnosticQueue.addAll_nil]
      exact ih fun earlier isEarlier => more earlier (Nat.lt_succ_of_lt isEarlier)

/-- A scan warns at most once, of a comment that was opened after all faults. -/
theorem warnings_readings (place : scanner.location = .ofCount before)
    (quiet : scanner.warnings = {})
    : scanner.readings.2.warnings.kept = []
      ∨ ∃ location,
          scanner.readings.2.warnings.kept = [openCommentWarning location]
          ∧ ∀ error ∈ readFaults scanner.readings.1, error.location.notAfter location = true := by
  obtain ⟨calls, -, reads, more, isEnd⟩ := scanner.exists_readings_eq
  have stillQuiet := (warnings_after_of_more more).trans quiet
  rw [reads]
  dsimp only
  rw [after_succ, next_warnings, stillQuiet, newWarnings]
  split
  · next leftOpen =>
      refine .inr ⟨_, rfl, fun error isFault => ?_⟩
      obtain ⟨earlier, isError⟩ := exists_of_mem_firstReadings (mem_of_mem_readFaults isFault)
      have inOrder : earlier < calls := by
        apply Nat.lt_of_not_le
        intro late
        obtain ⟨later, rfl⟩ := Nat.exists_eq_add_of_le late
        have again := (isEnd_after_add place isEnd later).1
        rw [isError] at again
        cases again
      have reached := notAfter_location_after place inOrder
      rw [isError] at reached
      exact Location.notAfter_trans reached (Lexical.notAfter_commentStart _ _ leftOpen)
  · exact .inl rfl

end Scanner

-----------------------------------------------------------------------------------------
-- The report
-----------------------------------------------------------------------------------------

namespace DiagnosticQueue

/-- A queue keeps some of its offers, in order. By induction on them. -/
theorem exists_kept_addAll (queue : DiagnosticQueue) (diagnostics : List Diagnostic)
    : ∃ more, more.Sublist diagnostics ∧ (queue.addAll diagnostics).kept = queue.kept ++ more := by
  induction diagnostics generalizing queue with
  | nil => exact ⟨[], .slnil, (List.append_nil _).symm⟩
  | cons diagnostic later ih =>
      obtain ⟨more, included, kept⟩ := ih (queue.add diagnostic)
      have isKept : (queue.addAll (diagnostic :: later)).kept
          = (queue.add diagnostic).kept ++ more :=
        kept
      rw [kept_add, List.append_assoc] at isKept
      refine ⟨_, ?_, isKept⟩
      split
      · exact included.cons_cons diagnostic
      · exact included.cons diagnostic

/-- A new queue keeps its first offer. -/
theorem exists_kept_addAll_cons (config : QueueConfig) (first : Diagnostic)
    (later : List Diagnostic)
    : ∃ more, (({ config } : DiagnosticQueue).addAll (first :: later)).kept = first :: more := by
  have accepted : ({ config } : DiagnosticQueue).accepts first = true := by
    cases limit : config.errorLimit <;> simp [accepts, limitReached, isDuplicate, limit]
  obtain ⟨more, -, kept⟩ := (({ config } : DiagnosticQueue).add first).exists_kept_addAll later
  refine ⟨more, kept.trans ?_⟩
  rw [kept_add, accepted]
  rfl

theorem flush_of_pairwise {queue : DiagnosticQueue}
    (inOrder : queue.kept.Pairwise fun earlier later =>
      earlier.location.notAfter later.location = true)
    : queue.flush.1 = queue.kept :=
  List.mergeSort_of_pairwise inOrder

end DiagnosticQueue

namespace Scanner

/-- A scan to the end of file, one reading after the other. It raises `errors`, in this order, and
leaves the scanner `last`.
-/
inductive Raises : Scanner → List LexicalError → Scanner → Prop where
  | endOfFile {scanner last : Scanner} {token : Token}
      (reads : scanner.next = (.ok token, last)) (ends : token.kind = .endOfFile)
      : Raises scanner [] last
  | token {scanner after last : Scanner} {token : Token} {errors : List LexicalError}
      (reads : scanner.next = (.ok token, after)) (goesOn : token.kind ≠ .endOfFile)
      (later : Raises after errors last)
      : Raises scanner errors last
  | fault {scanner after last : Scanner} {error : LexicalError} {errors : List LexicalError}
      (fails : scanner.next = (.error error, after)) (later : Raises after errors last)
      : Raises scanner (error :: errors) last

/-- The errors of a scan are the faults among its readings, by induction on the scan. -/
theorem Raises.readings_eq {scanner last : Scanner} {errors : List LexicalError}
    (raises : scanner.Raises errors last)
    : readFaults scanner.readings.1 = errors ∧ scanner.readings.2 = last := by
  induction raises with
  | endOfFile reads ends =>
      rw [readings_of_isEnd (by rw [reads]; exact decide_eq_true ends), reads]
      exact ⟨rfl, rfl⟩
  | token reads goesOn _ ih =>
      rw [readings_of_more (by rw [reads]; exact decide_eq_false goesOn), reads]
      exact ih
  | fault fails _ ih =>
      rw [readings_of_more (by rw [fails]; rfl), fails]
      exact ⟨congrArg _ ih.1, ih.2⟩

/-- Every scan comes to the end of file, since every other reading takes a byte. -/
theorem exists_raises (scanner : Scanner) : ∃ errors last, scanner.Raises errors last := by
  induction length : scanner.rest.length using Nat.strongRecOn generalizing scanner with
  | ind size ih =>
      have shorter (more : scanner.next.1.isEnd = false) : scanner.next.2.rest.length < size :=
        length ▸ scanner.next_rest_length_lt more
      cases reads : scanner.next with
      | mk reading after =>
          rw [reads] at shorter
          cases reading with
          | error error =>
              obtain ⟨errors, last, later⟩ := ih _ (shorter rfl) after rfl
              exact ⟨error :: errors, last, .fault reads later⟩
          | ok token =>
              by_cases ends : token.kind = .endOfFile
              · exact ⟨[], after, .endOfFile reads ends⟩
              · obtain ⟨errors, last, later⟩ := ih _ (shorter (decide_eq_false ends)) after rfl
                exact ⟨errors, last, .token reads ends later⟩

end Scanner

/-- What is found by a scan that raises `errors` and leaves the scanner `last`: the errors, and
then what it warns of.
-/
def diagnosticsFound (errors : List LexicalError) (last : Scanner) : List Diagnostic :=
  errors.map (fun error => error.diagnostic) ++ last.warnings.kept

section Reports

variable {source : String} {errors : List LexicalError} {last : Scanner}
  (raises : (Scanner.ofText source).Raises errors last)

include raises

/-- A scan of a source text warns at most once, of a comment that was opened after all faults. -/
theorem warnings_of_raises
    : last.warnings.kept = []
      ∨ ∃ location, last.warnings.kept = [openCommentWarning location]
        ∧ ∀ error ∈ errors, error.location.notAfter location = true := by
  have place : (Scanner.ofText source).location = .ofCount [] := rfl
  obtain ⟨rfl, rfl⟩ := raises.readings_eq
  exact Scanner.warnings_readings place rfl

theorem pairwise_diagnosticsFound
    : (diagnosticsFound errors last).Pairwise fun earlier later =>
        earlier.location.notAfter later.location = true := by
  have place : (Scanner.ofText source).location = .ofCount [] := rfl
  have warns := warnings_of_raises raises
  refine List.pairwise_append.mpr ⟨?_, ?_, ?_⟩
  · obtain ⟨calls, -, reads, -⟩ := (Scanner.ofText source).exists_readings_eq
    rw [← raises.readings_eq.1, reads, List.pairwise_map]
    refine List.pairwise_filterMap.mpr ((Scanner.pairwise_firstReadings place _).imp ?_)
    intro earlier later inOrder first isFirst second isSecond
    cases earlier with
    | ok token => cases isFirst
    | error error =>
        cases later with
        | ok token => cases isSecond
        | error error =>
            cases isFirst
            cases isSecond
            exact inOrder
  · rcases warns with quiet | ⟨location, warned, -⟩
    · rw [quiet]
      exact .nil
    · rw [warned]
      exact List.pairwise_singleton ..
  · intro fault isFault warning isWarning
    obtain ⟨error, isError, rfl⟩ := List.mem_map.mp isFault
    rcases warns with quiet | ⟨location, warned, inOrder⟩
    · rw [quiet] at isWarning
      cases isWarning
    · rw [warned] at isWarning
      obtain rfl := List.mem_singleton.mp isWarning
      exact inOrder error isError

/-- A report is what a queue makes of all that is found. Sorting makes no difference. -/
theorem reportTokens_eq (config : QueueConfig)
    : reportTokens source config
      = {
          listing := listTokens (readTokens (Scanner.ofText source).readings.1)
          diagnostics := (({ config } : DiagnosticQueue).addAll (diagnosticsFound errors last)).kept
          status :=
            (({ config } : DiagnosticQueue).addAll (diagnosticsFound errors last)).firstError
        } := by
  have found := pairwise_diagnosticsFound raises
  have oneWarning : last.warnings.flush.1 = last.warnings.kept :=
    DiagnosticQueue.flush_of_pairwise (List.pairwise_append.mp found).2.1
  obtain ⟨more, included, kept⟩ :=
    ({ config } : DiagnosticQueue).exists_kept_addAll (diagnosticsFound errors last)
  have inOrder : (({ config } : DiagnosticQueue).addAll (diagnosticsFound errors last)).flush.1
      = (({ config } : DiagnosticQueue).addAll (diagnosticsFound errors last)).kept := by
    apply DiagnosticQueue.flush_of_pairwise
    rw [kept]
    exact found.sublist included
  unfold reportTokens
  dsimp only
  rw [raises.readings_eq.1, raises.readings_eq.2, oneWarning, ← DiagnosticQueue.addAll_append]
  congr 1

/-- Every fault is an error, and no warning is. -/
theorem find?_isError_diagnosticsFound
    : (diagnosticsFound errors last).find? Diagnostic.isError
      = errors.head?.map fun error => error.diagnostic := by
  have areErrors : ∀ fault ∈ errors.map (fun error => error.diagnostic),
      fault.isError = true := by
    intro fault isFault
    obtain ⟨error, -, rfl⟩ := List.mem_map.mp isFault
    rfl
  have noError : last.warnings.kept.find? Diagnostic.isError = none := by
    rcases warnings_of_raises raises with quiet | ⟨location, warned, -⟩
    · rw [quiet]
      rfl
    · rw [warned]
      rfl
  rw [diagnosticsFound, List.find?_append, find?_isError_of_all areErrors, noError,
    Option.or_none, List.head?_map]

theorem code?_status_reportTokens (config : QueueConfig)
    : (reportTokens source config).status.code? = errors.head?.map fun _ => .lexical := by
  rw [reportTokens_eq raises, DiagnosticQueue.firstError_addAll,
    find?_isError_diagnosticsFound raises, Option.map_map]
  rfl

end Reports

/-- Scanning up to the first fault and reporting past all faults agree, whatever the report filters.
There are tokens exactly if the status is unset, and the report lists them. Otherwise the status is
that of a lexical error, and the first error of the report is the first fault. The diagnostics of a
report are some of those that were found, in that order, and all of them if nothing is filtered: the
errors that single readings raise, as they came, and then at most one warning of a comment without
an end.
-/
theorem reportTokens_agrees (source : String) (config : QueueConfig)
    : tokenize source = (Scanner.ofText source).tokens.mapM id
      ∧ ((∃ tokens, tokenize source = .ok tokens)
          ↔ (reportTokens source config).status.code? = none)
      ∧ (∀ tokens, tokenize source = .ok tokens →
          (reportTokens source config).listing
            = String.join (tokens.map fun token => token.listing ++ "\n"))
      ∧ (∀ error, tokenize source = .error error →
          (reportTokens source config).status.code? = some .lexical
          ∧ (reportTokens source config).diagnostics.find? Diagnostic.isError
            = some error.diagnostic)
      ∧ ∃ (errors : List LexicalError) (last : Scanner),
          (Scanner.ofText source).Raises errors last
          ∧ (reportTokens source config).diagnostics.Sublist
              (errors.map (fun error => error.diagnostic) ++ last.warnings.kept)
          ∧ (reportTokens source .unlimited).diagnostics
            = errors.map (fun error => error.diagnostic) ++ last.warnings.kept
          ∧ (last.warnings.kept = []
              ∨ ∃ location, last.warnings.kept = [openCommentWarning location]) := by
  obtain ⟨errors, last, raises⟩ := (Scanner.ofText source).exists_raises
  have isFaults := raises.readings_eq.1
  refine ⟨(Scanner.mapM_tokens _).symm, ?_, ?_, ?_, errors, last, raises, ?_, ?_, ?_⟩
  · rw [code?_status_reportTokens raises, Option.map_eq_none_iff, List.head?_eq_none_iff,
      ← isFaults]
    constructor
    · rintro ⟨tokens, scanned⟩
      exact (tokenize_eq_ok_iff.mp scanned).1
    · intro noFault
      exact ⟨_, tokenize_eq_ok_iff.mpr ⟨noFault, rfl⟩⟩
  · intro tokens scanned
    rw [reportTokens_eq raises, (tokenize_eq_ok_iff.mp scanned).2]
    rfl
  · intro error scanned
    have isFirst := tokenize_eq_error_iff.mp scanned
    rw [isFaults] at isFirst
    refine ⟨by rw [code?_status_reportTokens raises, isFirst]; rfl, ?_⟩
    obtain ⟨later, rfl⟩ := List.head?_eq_some_iff.mp isFirst
    obtain ⟨more, kept⟩ := DiagnosticQueue.exists_kept_addAll_cons config error.diagnostic
      (diagnosticsFound later last)
    have isFound : diagnosticsFound (error :: later) last
        = error.diagnostic :: diagnosticsFound later last :=
      rfl
    rw [reportTokens_eq raises]
    dsimp only
    rw [isFound, kept]
    rfl
  · obtain ⟨more, included, kept⟩ :=
      ({ config } : DiagnosticQueue).exists_kept_addAll (diagnosticsFound errors last)
    rw [reportTokens_eq raises]
    dsimp only
    rw [kept]
    exact included
  · rw [reportTokens_eq raises]
    exact DiagnosticQueue.kept_addAll_unlimited rfl (diagnosticsFound errors last)
  · rcases warnings_of_raises raises with quiet | ⟨location, warned, -⟩
    · exact .inl quiet
    · exact .inr ⟨location, warned⟩

end ExprCompiler

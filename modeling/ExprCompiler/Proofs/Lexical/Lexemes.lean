import ExprCompiler.Proofs.Lexical.NestedComments

/-! What a token is read from. Main statement: the bytes of a token alone are read as that token and
nothing else, and in the same way before any bytes that follow them in the source.
-/

namespace ExprCompiler

namespace Lexical

variable {state : State} {lexeme : Lexeme} {here : Location} {byte : UInt8} {ending : Ending}

/-- A byte that completes a pending lexeme belongs to it. -/
theorem Pending.unread_of_continued? {pending : Pending}
    (completes : pending.continued? lexeme byte = some (.done ending))
    : ending.unread = false := by
  cases pending <;>
    simp only [continued?, extendSign?, grow, openComment?, nilableType?, Step.accept]
      at completes <;>
    grind

theorem StringPhase.unread_of_step {phase : StringPhase}
    (ends : phase.step lexeme byte = .done ending)
    : ending.unread = false := by
  cases phase <;>
    simp only [step, singleText, multiText, escapeStep, hexStep, Step.accept, Step.reject]
      at ends <;>
    grind

theorem CommentPhase.step_ne_done (phase : CommentPhase) (lexeme : Lexeme) (byte : UInt8)
    (ending : Ending)
    : phase.step lexeme byte ≠ .done ending := by
  unfold step commentBody
  grind

/-- Only a pending lexeme leaves a byte unread, and the end of input ends it in the same way. -/
theorem State.atEnd_of_unread (ends : state.step lexeme here byte = .done ending)
    (unread : ending.unread = true)
    : state.atEnd lexeme here = ending ∧ state.inBlockComment = false := by
  cases state with
  | start =>
      rw [step_start_unread ends] at unread
      cases unread
  | pending unfinished =>
      simp only [State.step, Pending.step] at ends
      cases continues : unfinished.continued? lexeme byte with
      | none =>
          rw [continues] at ends
          cases ends
          exact ⟨rfl, rfl⟩
      | some step =>
          rw [continues] at ends
          subst ends
          rw [Pending.unread_of_continued? continues] at unread
          cases unread
  | lineComment =>
      simp only [State.step, Step.accept] at ends
      split at ends
      · cases ends
        cases unread
      · cases ends
  | blockComment phase => exact absurd ends (phase.step_ne_done lexeme byte ending)
  | string phase =>
      rw [StringPhase.unread_of_step ends] at unread
      cases unread

/-- What is unread at once is unread whatever follows it, by a look at the byte that is seen, if
there is one.
-/
theorem run_of_unread {rest more : List UInt8} (leaves : (run state lexeme here rest).rest = rest)
    (leads : more <+: rest)
    : run state lexeme here more = { run state lexeme here rest with rest := more } := by
  cases rest with
  | nil =>
      rw [List.prefix_nil.mp leads]
      rfl
  | cons byte rest =>
      rw [run] at leaves ⊢
      cases step : state.step lexeme here byte with
      | next following grown =>
          rw [step] at leaves
          have shorter := run_rest_length_le following grown (here.advance byte) rest
          exact absurd (congrArg List.length leaves) (Nat.ne_of_lt (Nat.lt_succ_of_le shorter))
      | done ending =>
          rw [step] at leaves
          cases unread : ending.unread with
          | false =>
              simp only [unread] at leaves
              exact absurd (congrArg List.length leaves) (Nat.ne_of_lt (Nat.lt_succ_self _))
          | true =>
              obtain ⟨atEnd, noComment⟩ := State.atEnd_of_unread step unread
              cases more with
              | nil => simp [run, atEnd, noComment, unread]
              | cons other more =>
                  obtain ⟨rfl, -⟩ := List.cons_prefix_cons.mp leads
                  simp [run, step, unread]

/-- A run takes the same bytes and ends alike if the input ends earlier among those that it leaves.
By induction on the bytes that it takes.
-/
theorem run_append_of_prefix {taken rest more : List UInt8}
    (leaves : (run state lexeme here (taken ++ rest)).rest = rest) (leads : more <+: rest)
    : run state lexeme here (taken ++ more)
      = { run state lexeme here (taken ++ rest) with rest := more } := by
  induction taken generalizing state lexeme here with
  | nil => exact run_of_unread leaves leads
  | cons byte taken ih =>
      rw [List.cons_append, run] at leaves
      rw [List.cons_append, List.cons_append, run, run]
      cases step : state.step lexeme here byte with
      | next following grown =>
          rw [step] at leaves
          exact ih leaves
      | done ending =>
          rw [step] at leaves
          have length := congrArg List.length leaves
          cases unread : ending.unread with
          | true =>
              simp only [unread, if_true, List.length_cons, List.length_append] at length
              omega
          | false =>
              simp only [unread, Bool.false_eq_true, if_false, List.length_append] at length
              obtain rfl : taken = [] := List.length_eq_zero_iff.mp (by omega)
              simp [unread]

/-- Only the end of file is read when a comment is left open, by induction on the bytes. -/
theorem verdict_of_leftCommentOpen {bytes : List UInt8}
    (leftOpen : (run state lexeme here bytes).leftCommentOpen = true)
    : (run state lexeme here bytes).verdict = .ok .endOfFile := by
  induction bytes generalizing state lexeme here with
  | nil =>
      cases state with
      | blockComment phase => rfl
      | start | pending _ | lineComment | string _ => cases leftOpen
  | cons byte rest ih =>
      rw [run] at leftOpen ⊢
      cases step : state.step lexeme here byte with
      | next following grown =>
          rw [step] at leftOpen
          exact ih leftOpen
      | done ending =>
          rw [step] at leftOpen
          cases leftOpen

-----------------------------------------------------------------------------------------
-- Past the gap
-----------------------------------------------------------------------------------------

/-- Where a token begins: at a byte that is neither blank nor opens a comment. -/
structure BeginsToken (first : UInt8) (rest : List UInt8) : Prop where
  notBlank : isBlank first = false
  notComment : ∀ second ∈ rest.head?, first = 0x2F → second ≠ 0x2A ∧ second ≠ 0x2F

theorem beginsToken_singleton {byte : UInt8} (notBlank : ¬ isBlank byte = true)
    : BeginsToken byte [] :=
  ⟨by simpa using notBlank, by simp⟩

theorem beginsToken_cons {first second : UInt8} (notBlank : ¬ isBlank first = true)
    (notOpen : ¬(first = 0x2F ∧ second = 0x2A)) (notLine : ¬(first = 0x2F ∧ second = 0x2F))
    (rest : List UInt8)
    : BeginsToken first (second :: rest) := by
  refine ⟨by simpa using notBlank, ?_⟩
  rintro _ ⟨⟩ isSlash
  exact ⟨fun isStar => notOpen ⟨isSlash, isStar⟩, fun again => notLine ⟨isSlash, again⟩⟩

theorem BeginsToken.of_prefix {first : UInt8} {rest shorter : List UInt8}
    (begins : BeginsToken first rest) (leads : shorter <+: rest)
    : BeginsToken first shorter := by
  refine ⟨begins.notBlank, fun second isSecond => begins.notComment second ?_⟩
  obtain ⟨more, rfl⟩ := List.head?_eq_some_iff.mp isSecond
  obtain ⟨later, rfl⟩ := leads
  rfl

/-- Only a line break begins with a newline. -/
theorem ne_newline_of_run {first : UInt8} {rest : List UInt8} {kind : TokenKind}
    (reads : (run .start lexeme here (first :: rest)).verdict = .ok kind)
    (notBreak : kind ≠ .endOfLine)
    : first ≠ 0x0A := by
  rintro rfl
  exact notBreak (Except.ok.inj reads.symm)

/-- At the start no place of a lexeme is seen. -/
theorem Lexeme.alike_start {origin : Location} {passed fresh : Lexeme}
    (text : passed.text.bytes = fresh.text.bytes) (hex : passed.hex.bytes = fresh.hex.bytes)
    (depth : passed.depth = fresh.depth) (sawNewline : passed.sawNewline = fresh.sawNewline)
    : passed.Alike origin .start fresh where
  text := text
  hex := hex
  depth := depth
  sawNewline := sawNewline
  start := fun entered => by cases entered
  commentStart := fun entered => by cases entered

/-- A token other than a line break or the end of file is read from where it begins, and of what
stands before it only the line breaks are kept. By induction on the comments in the gap.
-/
theorem exists_run_leadingGap (origin : Location) (lexeme : Lexeme) (here : Location)
    {bytes : List UInt8} {kind : TokenKind} (outside : lexeme.depth = 0)
    (reads : (run .start lexeme here bytes).verdict = .ok kind) (notBreak : kind ≠ .endOfLine)
    (notEnd : kind ≠ .endOfFile)
    : ∃ passed first rest,
        bytes = leadingGap bytes ++ first :: rest
        ∧ BeginsToken first rest
        ∧ passed.Alike origin .start (lexeme.sawComment (leadingGap bytes))
        ∧ run .start lexeme here bytes
          = run .start passed (here.afterBytes (leadingGap bytes)) (first :: rest) := by
  have noGap (lexeme : Lexeme) (here : Location) {first : UInt8} {rest : List UInt8}
      (begins : BeginsToken first rest)
      : ∃ passed other later,
          first :: rest = [] ++ other :: later
          ∧ BeginsToken other later
          ∧ passed.Alike origin .start (lexeme.sawComment [])
          ∧ run .start lexeme here (first :: rest)
            = run .start passed (here.afterBytes []) (other :: later) :=
    ⟨lexeme, first, rest, rfl, begins, Lexeme.alike_start rfl rfl rfl (Bool.or_false _).symm, rfl⟩
  fun_induction leadingGap bytes generalizing lexeme here with
  | case1 =>
      cases reads
      exact absurd rfl notEnd
  | case2 byte blank =>
      rw [run_start_blank _ _ blank] at reads
      cases reads
      exact absurd rfl notEnd
  | case3 byte notBlank => exact noGap lexeme here (beginsToken_singleton notBlank)
  | case4 first second rest blank ih =>
      rw [run_start_blank _ _ blank] at reads
      obtain ⟨passed, other, later, split, begins, alike, runs⟩ :=
        ih lexeme (here.advance first) outside reads
      refine ⟨passed, other, later, congrArg (first :: ·) split, begins, ?_, ?_⟩
      · have noBreak : 0x0A ∉ [first] := by
          intro isBreak
          obtain rfl := List.mem_singleton.mp isBreak
          cases blank
        rw [← List.singleton_append, lexeme.sawComment_skip _ _ noBreak]
        exact alike
      · rw [run_start_blank _ _ blank, runs]
        rfl
  | case5 first second rest notBlank isOpen comment later closes ih =>
      obtain ⟨rfl, rfl⟩ := isOpen
      rw [run_start_openComment, run_body_of_closes closes rfl] at reads
      obtain ⟨passed, other, after, split, begins, alike, runs⟩ := ih _ _ rfl reads
      refine ⟨passed, other, after, ?_, begins, ?_, ?_⟩
      · rw [← append_of_closeComment? closes, List.append_assoc]
        exact congrArg (0x2F :: 0x2A :: comment ++ ·) split
      · refine Lexeme.alike_start alike.text alike.hex (alike.depth.trans outside.symm) ?_
        rw [alike.sawNewline]
        simp [Lexeme.sawComment, Bool.or_assoc]
      · rw [run_start_openComment, run_body_of_closes closes rfl, runs,
          ← Location.afterBytes_append, ← Location.afterBytes_append]
        rfl
  | case6 first second rest notBlank isOpen unclosed =>
      obtain ⟨rfl, rfl⟩ := isOpen
      rw [run_start_openComment] at reads
      obtain ⟨lastDepth, ends⟩ :=
        run_body_of_open { lexeme with start := here, depth := 1, commentStart := here }
          (here.afterBytes [0x2F, 0x2A]) unclosed rfl
      rw [ends] at reads
      cases reads
      exact absurd rfl notEnd
  | case7 first second rest notBlank notOpen isLine =>
      obtain ⟨rfl, rfl⟩ := isLine
      have inLine : (run .lineComment { lexeme with start := here } (here.afterBytes [0x2F, 0x2F])
          rest).verdict = .ok kind :=
        reads
      rw [run_lineComment] at inLine
      dsimp only at inLine
      split at inLine
      · cases inLine
        exact absurd rfl notEnd
      · cases inLine
        exact absurd rfl notBreak
  | case8 first second rest notBlank notOpen notLine =>
      exact noGap lexeme here (beginsToken_cons notBlank notOpen notLine rest)

/-- Where a token begins, nothing that was kept from before makes a difference to it. -/
theorem run_of_alike_reset {origin : Location} {passed lexeme : Lexeme} {gap : List UInt8}
    (alike : passed.Alike origin .start (lexeme.reset.sawComment gap)) (bytes : List UInt8)
    : (run .start passed origin bytes).verdict = (run .start {} .start bytes).verdict
      ∧ (run .start passed origin bytes).rest = (run .start {} .start bytes).rest := by
  have atOrigin : Location.start.movedTo origin = origin := by
    simp [Location.movedTo, Location.start]
  have likeNew : passed.Alike origin .start (({} : Lexeme).sawComment gap) :=
    Lexeme.alike_start alike.text alike.hex alike.depth alike.sawNewline
  have runs := run_alike likeNew Location.isCounted_start bytes
  rw [atOrigin, run_sawComment] at runs
  exact ⟨runs.verdict, runs.rest⟩

end Lexical

namespace Scanner

open Lexical (BeginsToken leadingGap)

/-- A token tells how the run of the automaton ended. -/
theorem run_of_next_eq_ok {scanner : Scanner} {token : Token} (reads : scanner.next.1 = .ok token)
    : scanner.run.verdict = .ok token.kind ∧ token.location = scanner.run.lexeme.start := by
  rw [next_fst] at reads
  split at reads
  · cases reads
  · next isKind =>
      cases reads
      exact ⟨isKind, rfl⟩

/-- Reading on after anything but the end of file. -/
theorem readings_of_more {scanner : Scanner} (more : scanner.next.1.isEnd = false)
    : scanner.readings
      = (scanner.next.1 :: scanner.next.2.readings.1, scanner.next.2.readings.2) := by
  rw [readings]
  split
  next reading after read =>
    rw [read] at more ⊢
    simp [more]

theorem readings_of_isEnd {scanner : Scanner} (isEnd : scanner.next.1.isEnd = true)
    : scanner.readings = ([scanner.next.1], scanner.next.2) := by
  rw [readings]
  split
  next reading after read =>
    rw [read] at isEnd ⊢
    simp [isEnd]

/-- A token right at the start of some bytes. -/
theorem next_ofBytes {first : UInt8} {rest : List UInt8} {kind : TokenKind}
    (begins : BeginsToken first rest)
    (reads : (Lexical.run .start {} .start (first :: rest)).verdict = .ok kind)
    (notBreak : kind ≠ .endOfLine) (notEnd : kind ≠ .endOfFile)
    : (ofBytes (first :: rest)).next.1
        = .ok { kind, afterNewline := false, location := .start }
      ∧ (ofBytes (first :: rest)).next.2.warnings = {} := by
  have notNewline := Lexical.ne_newline_of_run reads notBreak
  have isRun : (ofBytes (first :: rest)).run = Lexical.run .start {} .start (first :: rest) := rfl
  have start := (Lexical.run_start_of_token {} .start begins.notBlank notNewline
    begins.notComment).2
  have noBreak := Lexical.sawNewline_run_start_of_token {} .start begins.notBlank (by
    rintro ⟨isSlash, isStar⟩
    exact (begins.notComment 0x2A isStar isSlash).1 rfl)
  have closed : (ofBytes (first :: rest)).run.leftCommentOpen = false := by
    by_contra leftOpen
    have isEnd := Lexical.verdict_of_leftCommentOpen (Bool.not_eq_false _ ▸ leftOpen)
    exact notEnd (Except.ok.inj (reads.symm.trans isEnd))
  refine ⟨?_, ?_⟩
  · rw [next_fst, isRun, reads, start, noBreak]
    rfl
  · rw [next_warnings, newWarnings, closed]
    rfl

/-- At the end of input the end of file is read, and nothing is warned of. -/
theorem next_of_rest_eq_nil {scanner : Scanner} (nothing : scanner.rest = [])
    : scanner.next.1
        = .ok {
            kind := .endOfFile
            afterNewline := scanner.afterNewline
            location := scanner.location }
      ∧ scanner.next.2.warnings = scanner.warnings := by
  refine ⟨?_, ?_⟩
  · have isRun : scanner.run = Lexical.run .start scanner.lexeme.reset scanner.location [] := by
      rw [run, nothing]
    rw [next_fst, isRun]
    simp [Lexical.run, Lexical.State.atEnd, Lexical.Lexeme.reset]
  · rw [next_warnings, newWarnings_of_rest_eq_nil nothing]
    rfl

/-- A token that takes all bytes comes right before the end of file. -/
theorem readings_ofBytes {bytes : List UInt8} {kind : TokenKind}
    (reads : (ofBytes bytes).next.1 = .ok { kind, afterNewline := false, location := .start })
    (notBreak : kind ≠ .endOfLine) (notEnd : kind ≠ .endOfFile)
    (quiet : (ofBytes bytes).next.2.warnings = {}) (nothing : (ofBytes bytes).next.2.rest = [])
    : (ofBytes bytes).readings.1
        = [.ok { kind, afterNewline := false, location := .start },
            .ok { kind := .endOfFile, afterNewline := false, location := .ofCount bytes }]
      ∧ (ofBytes bytes).readings.2.warnings.kept = [] := by
  have more : (ofBytes bytes).next.1.isEnd = false := by
    rw [reads]
    exact decide_eq_false notEnd
  have unmarked : (ofBytes bytes).next.2.afterNewline = false := by
    rw [next_afterNewline_eq, reads]
    exact decide_eq_false notBreak
  have place : (ofBytes bytes).next.2.location = .ofCount bytes := by
    obtain ⟨read, split, place⟩ := (ofBytes bytes).after_rest_suffix 1
    have whole : bytes = read ++ (ofBytes bytes).next.2.rest := split
    rw [nothing, List.append_nil] at whole
    rw [← whole] at place
    exact place.trans (Location.afterBytes_start bytes)
  obtain ⟨readsEnd, stillQuiet⟩ := next_of_rest_eq_nil nothing
  rw [unmarked, place] at readsEnd
  have isEnd : (ofBytes bytes).next.2.next.1.isEnd = true := by rw [readsEnd]; rfl
  rw [readings_of_more more, readings_of_isEnd isEnd, reads, readsEnd, stillQuiet, quiet]
  exact ⟨rfl, rfl⟩

/-- The bytes that a token takes decide it, whether the input ends after them or goes on. -/
theorem exists_lexeme {first : UInt8} {rest : List UInt8} {kind : TokenKind}
    (begins : BeginsToken first rest)
    (reads : (Lexical.run .start {} .start (first :: rest)).verdict = .ok kind)
    (notBreak : kind ≠ .endOfLine) (notEnd : kind ≠ .endOfFile)
    : ∃ lexeme,
        first :: rest = lexeme ++ (Lexical.run .start {} .start (first :: rest)).rest
        ∧ lexeme ≠ []
        ∧ ∀ more, more <+: (Lexical.run .start {} .start (first :: rest)).rest →
            (ofBytes (lexeme ++ more)).next.1
              = .ok { kind, afterNewline := false, location := .start }
            ∧ (ofBytes (lexeme ++ more)).next.2.warnings = {}
            ∧ (ofBytes (lexeme ++ more)).next.2.rest = more := by
  have shorter := Lexical.run_start_rest_length_lt {} .start first rest
  obtain ⟨lexeme, split, -⟩ := Lexical.run_rest_suffix .start {} .start (first :: rest)
  generalize isLater : (Lexical.run .start {} .start (first :: rest)).rest = later at *
  cases lexeme with
  | nil =>
      rw [split] at shorter
      exact absurd shorter (Nat.lt_irrefl _)
  | cons byte lexeme =>
      obtain ⟨rfl, rfl⟩ := List.cons.inj split
      refine ⟨first :: lexeme, rfl, List.cons_ne_nil _ _, fun more leads => ?_⟩
      have runs : Lexical.run .start {} .start ((first :: lexeme) ++ more)
          = { Lexical.run .start {} .start ((first :: lexeme) ++ later) with rest := more } :=
        Lexical.run_append_of_prefix isLater leads
      have readsAlike : (Lexical.run .start {} .start (first :: (lexeme ++ more))).verdict
          = .ok kind := by
        rw [← List.cons_append, runs]
        exact reads
      obtain ⟨isToken, quiet⟩ := next_ofBytes
        (begins.of_prefix ((List.prefix_append_right_inj lexeme).mpr leads)) readsAlike notBreak
        notEnd
      refine ⟨isToken, quiet, ?_⟩
      rw [next_rest]
      exact congrArg Lexical.Run.rest runs

variable {source : List UInt8} {count : Nat} {token : Token}

/-- A lexeme decides its token. In any scan of any source, take the bytes from where a token stands
up to the next unread byte, unless it is a line break or the end of file. Alone they are read as
one token of that kind, without a fault or a warning. Before any bytes that follow them in the
source they are read as that token too, and nothing more is taken.
-/
theorem next_lexeme (reads : ((ofBytes source).after count).next.1 = .ok token)
    (notBreak : token.kind ≠ .endOfLine) (notEnd : token.kind ≠ .endOfFile)
    : ∃ before lexeme,
        source = before ++ lexeme ++ ((ofBytes source).after (count + 1)).rest
        ∧ token.location = .ofCount before
        ∧ lexeme ≠ []
        ∧ (ofBytes lexeme).readings.1
          = [.ok { kind := token.kind, afterNewline := false, location := .start },
              .ok { kind := .endOfFile, afterNewline := false, location := .ofCount lexeme }]
        ∧ (ofBytes lexeme).readings.2.warnings.kept = []
        ∧ ∀ more, more <+: ((ofBytes source).after (count + 1)).rest →
            (ofBytes (lexeme ++ more)).next.1
              = .ok { kind := token.kind, afterNewline := false, location := .start }
            ∧ (ofBytes (lexeme ++ more)).next.2.rest = more := by
  obtain ⟨passed, split, place⟩ := (ofBytes source).after_rest_suffix count
  have split : source = passed ++ ((ofBytes source).after count).rest := split
  have place : ((ofBytes source).after count).location = .ofCount passed :=
    place.trans (Location.afterBytes_start passed)
  rw [after_succ]
  generalize (ofBytes source).after count = scanner at *
  have verdict := run_of_next_eq_ok reads
  obtain ⟨kept, first, rest, isRest, begins, alike, runs⟩ :=
    Lexical.exists_run_leadingGap (scanner.location.afterBytes (leadingGap scanner.rest))
      scanner.lexeme.reset scanner.location rfl verdict.1 notBreak notEnd
  obtain ⟨sameVerdict, sameRest⟩ := Lexical.run_of_alike_reset alike (first :: rest)
  rw [run, runs] at verdict
  rw [next_rest, runs, sameRest]
  have isKind := sameVerdict.symm.trans verdict.1
  obtain ⟨lexeme, isLexeme, notEmpty, follows⟩ := exists_lexeme begins isKind notBreak notEnd
  have notNewline := Lexical.ne_newline_of_run isKind notBreak
  refine ⟨passed ++ leadingGap scanner.rest, lexeme, ?_, ?_, notEmpty, ?_⟩
  · rw [List.append_assoc, ← isLexeme, List.append_assoc, ← isRest]
    exact split
  · rw [verdict.2, (Lexical.run_start_of_token _ _ begins.notBlank notNewline
      begins.notComment).2, place, Location.afterBytes_ofCount]
  · obtain ⟨isToken, quiet, nothing⟩ := follows [] List.nil_prefix
    rw [List.append_nil] at isToken quiet nothing
    obtain ⟨readings, noWarning⟩ := readings_ofBytes isToken notBreak notEnd quiet nothing
    exact ⟨readings, noWarning, fun more leads =>
      ⟨(follows more leads).1, (follows more leads).2.2⟩⟩

/-- After the fault at the first quote of `1.""Int?`, the two quotes are an empty string with or
without the letters that follow.
-/
theorem next_lexeme_emptyString
    : ((ofBytes (Utf8.encode "1.\"\"Int?")).after 1).next.1
        = .ok { kind := .string "", afterNewline := false, location := ⟨1, 3⟩ }
      ∧ ∃ before lexeme,
          Utf8.encode "1.\"\"Int?" = before ++ lexeme ++ Utf8.encode "Int?"
          ∧ Location.ofCount before = ⟨1, 3⟩
          ∧ (ofBytes lexeme).readings.1
            = [.ok { kind := .string "", afterNewline := false, location := .start },
                .ok { kind := .endOfFile, afterNewline := false, location := .ofCount lexeme }]
          ∧ (ofBytes (lexeme ++ Utf8.encode "I")).next.1
            = .ok { kind := .string "", afterNewline := false, location := .start } := by
  have reads : ((ofBytes (Utf8.encode "1.\"\"Int?")).after 1).next.1
      = .ok { kind := .string "", afterNewline := false, location := ⟨1, 3⟩ } := by
    decide +kernel
  have left : ((ofBytes (Utf8.encode "1.\"\"Int?")).after 2).rest = Utf8.encode "Int?" := by
    decide +kernel
  obtain ⟨before, lexeme, split, place, -, alone, -, follows⟩ :=
    next_lexeme reads (by decide) (by decide)
  rw [left] at split follows
  exact ⟨reads, before, lexeme, split, place.symm, alone,
    (follows (Utf8.encode "I") (by decide)).1⟩

end Scanner

end ExprCompiler

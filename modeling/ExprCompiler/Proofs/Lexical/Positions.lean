import Mathlib.Data.List.Induction
import ExprCompiler.Proofs.Lexical.LineBreaks

/-! Where readings stand. Main statement: every reading but the end of file takes bytes, readings
take all bytes one after the other, and the place of a token or a fault is found by counting the
line breaks before it.
-/

namespace ExprCompiler

namespace Location

/-- The place right after some bytes at the start of a text: one line more than there are line
breaks, and one column more than there are bytes after the last of them.
-/
def ofCount (bytes : List UInt8) : Location where
  line := bytes.count 0x0A + 1
  column := (bytes.reverse.takeWhile (· ≠ 0x0A)).length + 1

theorem ofCount_concat (bytes : List UInt8) (byte : UInt8)
    : ofCount (bytes ++ [byte]) = (ofCount bytes).advance byte := by
  by_cases isNewline : byte = 0x0A
  · subst isNewline
    simp [ofCount, advance]
  · simp [ofCount, advance, isNewline]

/-- Going from byte to byte is counting, by induction on the bytes from the last one. -/
theorem afterBytes_start (bytes : List UInt8) : start.afterBytes bytes = ofCount bytes := by
  induction bytes using List.reverseRecOn with
  | nil => rfl
  | append_singleton bytes byte ih =>
      rw [ofCount_concat, ← ih, afterBytes, List.foldl_append]
      rfl

theorem afterBytes_append (location : Location) (front back : List UInt8)
    : location.afterBytes (front ++ back) = (location.afterBytes front).afterBytes back :=
  List.foldl_append

theorem afterBytes_ofCount (front back : List UInt8)
    : (ofCount front).afterBytes back = ofCount (front ++ back) := by
  rw [← afterBytes_start, ← afterBytes_start, afterBytes_append]

theorem notAfter_advance (location : Location) (byte : UInt8)
    : location.notAfter (location.advance byte) = true := by
  unfold advance
  split <;> simp [notAfter]

/-- More bytes lead no further back, by induction on them. -/
theorem notAfter_afterBytes (location : Location) (bytes : List UInt8)
    : location.notAfter (location.afterBytes bytes) = true := by
  induction bytes generalizing location with
  | nil => simp [afterBytes, notAfter]
  | cons byte bytes ih =>
      have first := notAfter_advance location byte
      have later := ih (location.advance byte)
      simp only [notAfter, Bool.or_eq_true, Bool.and_eq_true, decide_eq_true_eq] at first later ⊢
      rw [show location.afterBytes (byte :: bytes) = (location.advance byte).afterBytes bytes
        from rfl]
      omega

theorem notAfter_ofCount {front bytes : List UInt8} (leads : front <+: bytes)
    : (ofCount front).notAfter (ofCount bytes) = true := by
  obtain ⟨back, rfl⟩ := leads
  rw [← afterBytes_ofCount]
  exact notAfter_afterBytes ..

/-- A place within a text is bounded by its length. -/
theorem ofCount_le (bytes : List UInt8)
    : (ofCount bytes).line ≤ bytes.length + 1 ∧ (ofCount bytes).column ≤ bytes.length + 1 := by
  have lines := bytes.count_le_length (a := 0x0A)
  have columns := (List.takeWhile_sublist (· ≠ 0x0A) (l := bytes.reverse)).length_le
  rw [List.length_reverse] at columns
  exact ⟨Nat.succ_le_succ lines, Nat.succ_le_succ columns⟩

end Location

-----------------------------------------------------------------------------------------
-- What stands before a token
-----------------------------------------------------------------------------------------

namespace Lexical

/-- The blanks and comments that stand before the first token of some bytes. A block comment may
have no end; a comment up to the end of the line leaves its line break, which is a token.
-/
def leadingGap (bytes : List UInt8) : List UInt8 :=
  match bytes with
  | [] => []
  | [byte] => if isBlank byte then [byte] else []
  | first :: second :: rest =>
      if isBlank first then first :: leadingGap (second :: rest)
      else if first = 0x2F ∧ second = 0x2A then
        match _closes : closeComment? 1 rest with
        | some (comment, later) => first :: second :: comment ++ leadingGap later
        | none => first :: second :: rest
      else if first = 0x2F ∧ second = 0x2F then
        first :: second :: rest.takeWhile (· ≠ 0x0A)
      else []
termination_by bytes.length
decreasing_by
  · simp
  · have split := congrArg List.length (append_of_closeComment? _closes)
    simp only [List.length_append, List.length_cons] at split ⊢
    omega

variable {lexeme : Lexeme} {here : Location}

/-- A run that ends in a token which starts after the bytes `gap`: what is left comes after the gap
and the bytes of the token. Only the end of file has none, and a line break has one.
-/
structure Run.TakesAfter (run : Run) (here : Location) (bytes gap : List UInt8) (kind : TokenKind)
    (token : List UInt8) : Prop where
  split : bytes = gap ++ token ++ run.rest
  start : run.lexeme.start = here.afterBytes gap
  endOfFile : kind = .endOfFile → token = [] ∧ run.rest = []
  endOfLine : kind = .endOfLine → token = [0x0A]
  other : kind ≠ .endOfFile → token ≠ []

/-- What stands before a gap belongs to it if the run skips it. -/
theorem Run.TakesAfter.prepend {run : Run} {bytes gap token : List UInt8} {kind : TokenKind}
    (skipped : List UInt8)
    (takes : run.TakesAfter (here.afterBytes skipped) bytes gap kind token)
    : run.TakesAfter here (skipped ++ bytes) (skipped ++ gap) kind token :=
  { takes with
    split := by rw [takes.split]; simp only [List.append_assoc]
    start := by rw [takes.start, Location.afterBytes_append] }

/-- At the end of input there is only the end of file. -/
theorem takesAfter_endOfFile {run : Run} {bytes : List UInt8} {kind : TokenKind}
    (isEnd : run.verdict = .ok .endOfFile) (nothing : run.rest = [])
    (start : run.lexeme.start = here.afterBytes bytes) (reads : run.verdict = .ok kind)
    : run.TakesAfter here bytes bytes kind [] where
  split := by rw [nothing, List.append_nil, List.append_nil]
  start := start
  endOfFile := fun _ => ⟨rfl, nothing⟩
  endOfLine := fun isBreak => by simp [isEnd, isBreak] at reads
  other := fun notEnd => by
    rw [isEnd] at reads
    cases reads
    exact absurd rfl notEnd

/-- A slash that opens no comment is a sign. -/
theorem run_start_slash (lexeme : Lexeme) (here : Location) {second : UInt8}
    (notStar : second ≠ 0x2A) (notSlash : second ≠ 0x2F) (rest : List UInt8)
    : run .start lexeme here (0x2F :: second :: rest)
      = {
          verdict := .ok (.operator .slash)
          lexeme := { lexeme with start := here }
          stoppedAt := here.advance 0x2F
          rest := second :: rest
          next := here.advance 0x2F } := by
  have ends : (State.pending .slash).step { lexeme with start := here } (here.advance 0x2F)
      second = .done (Pending.slash.ending { lexeme with start := here }) := by
    rw [State.step, Pending.step, Pending.continued?, openComment?_eq_none _ notSlash notStar]
    rfl
  have begins : State.start.step lexeme here 0x2F
      = .next (.pending .slash) { lexeme with start := here } :=
    rfl
  rw [run, begins]
  dsimp only
  rw [run, ends]
  rfl

/-- A first byte that is neither blank, a newline nor the start of a comment begins a token. -/
theorem run_start_of_token (lexeme : Lexeme) (here : Location) {first : UInt8} {rest : List UInt8}
    (notBlank : isBlank first = false) (notNewline : first ≠ 0x0A)
    (notComment : ∀ second ∈ rest.head?, first = 0x2F → second ≠ 0x2A ∧ second ≠ 0x2F)
    : EndsInToken (run .start lexeme here (first :: rest)).verdict
      ∧ (run .start lexeme here (first :: rest)).lexeme.start = here := by
  have step := State.step_start lexeme here notBlank
  by_cases isSlash : first = 0x2F
  · subst isSlash
    cases rest with
    | nil => exact ⟨⟨nofun, nofun⟩, rfl⟩
    | cons second rest =>
        obtain ⟨notStar, notSlash⟩ := notComment second rfl rfl
        rw [run_start_slash lexeme here notStar notSlash]
        exact ⟨⟨nofun, nofun⟩, rfl⟩
  · have stays := staysInToken_firstByte { lexeme with start := here } isSlash notNewline
    rw [run, step]
    cases begun : firstByte { lexeme with start := here } first with
    | next state grown =>
        rw [begun] at stays
        obtain ⟨ends, continues⟩ := run_of_isSettled stays.1 grown (here.advance first) rest
        exact ⟨ends, (stays.2.trans continues).start⟩
    | done ending =>
        rw [begun] at stays
        exact ⟨stays.1, stays.2.start⟩

/-- A token without a gap before it starts with the first byte. -/
theorem exists_takesAfter_of_token {first : UInt8} {rest : List UInt8} {kind : TokenKind}
    (notBlank : isBlank first = false)
    (notComment : ∀ second ∈ rest.head?, first = 0x2F → second ≠ 0x2A ∧ second ≠ 0x2F)
    (reads : (run .start lexeme here (first :: rest)).verdict = .ok kind)
    : ∃ token,
        (run .start lexeme here (first :: rest)).TakesAfter here (first :: rest) [] kind token := by
  by_cases isNewline : first = 0x0A
  · subst isNewline
    cases reads
    exact ⟨[0x0A], {
      split := rfl, start := rfl, endOfFile := nofun, endOfLine := fun _ => rfl
      other := fun _ => by simp }⟩
  · obtain ⟨ends, start⟩ := run_start_of_token lexeme here notBlank isNewline notComment
    obtain ⟨token, split, -⟩ := run_rest_suffix .start lexeme here (first :: rest)
    have shorter := run_start_rest_length_lt lexeme here first rest
    rw [reads] at ends
    refine ⟨token, {
      split, start, endOfFile := fun isEnd => absurd isEnd ends.2
      endOfLine := fun isBreak => absurd isBreak ends.1, other := fun _ nothing => ?_ }⟩
    rw [nothing, List.nil_append] at split
    exact absurd (congrArg List.length split) (Nat.ne_of_gt shorter)

/-- A comment up to the end of the line is all of the gap, and the token is the line break or the
end of input after it.
-/
theorem exists_takesAfter_lineComment {rest : List UInt8} {kind : TokenKind}
    (reads : (run .lineComment lexeme here rest).verdict = .ok kind)
    : ∃ token,
        (run .lineComment lexeme here rest).TakesAfter here rest (rest.takeWhile (· ≠ 0x0A)) kind
          token := by
  have split := rest.takeWhile_append_dropWhile (p := (· ≠ 0x0A))
  have isNewline := rest.head?_dropWhile_not (· ≠ 0x0A)
  rw [run_lineComment] at reads ⊢
  cases after : rest.dropWhile (· ≠ 0x0A) with
  | nil =>
      rw [after, List.append_nil] at split
      simp only [after] at reads ⊢
      rw [split]
      exact ⟨[], takesAfter_endOfFile rfl rfl rfl reads⟩
  | cons newline later =>
      rw [after] at split isNewline
      obtain rfl : newline = 0x0A := by simpa using isNewline
      simp only [after] at reads ⊢
      cases reads
      refine ⟨[0x0A], {
        split := ?_, start := rfl, endOfFile := nofun, endOfLine := fun _ => rfl
        other := fun _ => by simp }⟩
      rw [List.append_assoc]
      exact split.symm

/-- The automaton skips the gap before a token and takes the token. By induction on the comments
in the gap.
-/
theorem exists_takesAfter_leadingGap (lexeme : Lexeme) (here : Location) {bytes : List UInt8}
    {kind : TokenKind} (reads : (run .start lexeme here bytes).verdict = .ok kind)
    : ∃ token,
        (run .start lexeme here bytes).TakesAfter here bytes (leadingGap bytes) kind token := by
  fun_induction leadingGap bytes generalizing lexeme here with
  | case1 => exact ⟨[], takesAfter_endOfFile rfl rfl rfl reads⟩
  | case2 byte blank =>
      have skips := run_start_blank lexeme here blank []
      exact ⟨[], takesAfter_endOfFile (by rw [skips]; rfl) (by rw [skips]; rfl) (by rw [skips]; rfl)
        reads⟩
  | case3 byte notBlank =>
      exact exists_takesAfter_of_token (by simpa using notBlank) (by simp) reads
  | case4 first second rest blank ih =>
      rw [run_start_blank _ _ blank] at reads ⊢
      obtain ⟨token, takes⟩ := ih lexeme (here.advance first) reads
      exact ⟨token, takes.prepend [first]⟩
  | case5 first second rest notBlank isOpen comment later closes ih =>
      obtain ⟨rfl, rfl⟩ := isOpen
      rw [run_start_openComment, run_body_of_closes closes rfl,
        ← Location.afterBytes_append] at reads ⊢
      obtain ⟨token, takes⟩ := ih _ _ reads
      have split : 0x2F :: 0x2A :: rest = ([0x2F, 0x2A] ++ comment) ++ later := by
        rw [← append_of_closeComment? closes]
        rfl
      rw [split]
      exact ⟨token, takes.prepend _⟩
  | case6 first second rest notBlank isOpen unclosed =>
      obtain ⟨rfl, rfl⟩ := isOpen
      rw [run_start_openComment] at reads ⊢
      obtain ⟨lastDepth, ends⟩ :=
        run_body_of_open { lexeme with start := here, depth := 1, commentStart := here }
          (here.afterBytes [0x2F, 0x2A]) unclosed rfl
      rw [ends] at reads ⊢
      exact ⟨[], takesAfter_endOfFile rfl rfl rfl reads⟩
  | case7 first second rest notBlank notOpen isLine =>
      obtain ⟨rfl, rfl⟩ := isLine
      obtain ⟨token, takes⟩ := exists_takesAfter_lineComment reads
      exact ⟨token, takes.prepend [0x2F, 0x2F]⟩
  | case8 first second rest notBlank notOpen notLine =>
      refine exists_takesAfter_of_token (by simpa using notBlank) ?_ reads
      rintro _ ⟨⟩ isSlash
      exact ⟨fun isStar => notOpen ⟨isSlash, isStar⟩, fun again => notLine ⟨isSlash, again⟩⟩

-----------------------------------------------------------------------------------------
-- One reading
-----------------------------------------------------------------------------------------

/-- The automaton goes on over the bytes `read` and ends with `ending` on what comes after them, the
next byte or the end of input.
-/
inductive Stops : State → Lexeme → Location → List UInt8 → List UInt8 → Ending → Prop
  | atEnd {state : State} {lexeme : Lexeme} {here : Location}
    : Stops state lexeme here [] [] (state.atEnd lexeme here)
  | atByte {state : State} {lexeme : Lexeme} {here : Location} {byte : UInt8} {rest : List UInt8}
    {ending : Ending} (ends : state.step lexeme here byte = .done ending)
    : Stops state lexeme here (byte :: rest) [] ending
  | next {state following : State} {lexeme grown : Lexeme} {here : Location} {byte : UInt8}
    {rest read : List UInt8} {ending : Ending}
    (goesOn : state.step lexeme here byte = .next following grown)
    (later : Stops following grown (here.advance byte) rest read ending)
    : Stops state lexeme here (byte :: rest) (byte :: read) ending

/-- Every run stops somewhere, and takes the bytes up to there, with or without the one on which it
stops. By induction on the bytes.
-/
theorem exists_stops (state : State) (lexeme : Lexeme) (here : Location) (bytes : List UInt8)
    : ∃ read taken ending,
        Stops state lexeme here bytes read ending
        ∧ read <+: taken
        ∧ bytes = taken ++ (run state lexeme here bytes).rest
        ∧ (run state lexeme here bytes).verdict = ending.verdict
        ∧ (run state lexeme here bytes).stoppedAt = here.afterBytes read := by
  induction bytes generalizing state lexeme here with
  | nil => exact ⟨[], [], _, .atEnd, List.prefix_refl _, rfl, rfl, rfl⟩
  | cons byte rest ih =>
      rw [run]
      cases step : state.step lexeme here byte with
      | next following grown =>
          obtain ⟨read, taken, ending, stops, leads, split, verdict, place⟩ :=
            ih following grown (here.advance byte)
          exact ⟨byte :: read, byte :: taken, ending, .next step stops,
            List.cons_prefix_cons.mpr ⟨rfl, leads⟩, congrArg (byte :: ·) split, verdict, place⟩
      | done ending =>
          cases unread : ending.unread with
          | true =>
              exact ⟨[], [], ending, .atByte step, List.prefix_refl _, by simp [unread], rfl, rfl⟩
          | false =>
              exact ⟨[], [byte], ending, .atByte step, List.nil_prefix, by simp [unread], rfl, rfl⟩

end Lexical

/-- The place of a token or a fault. -/
def Reading.location : Reading → Location
  | .ok token => token.location
  | .error error => error.location

namespace Scanner

open Lexical (leadingGap)

/-- One reading of a scanner that stands after the bytes `before` and takes the bytes `taken`. A
fault stands at the byte, or the end of input, on which the automaton rejects. A token stands at
its first byte after the gap: a line break at its newline, and the end of file at the end.
-/
structure Takes (scanner : Scanner) (before taken : List UInt8) : Prop where
  location : scanner.location = .ofCount before
  split : scanner.rest = taken ++ scanner.next.2.rest
  progress : scanner.next.1.isEnd = false → taken ≠ []
  fault
    : ∀ error, scanner.next.1 = .error error →
        ∃ read ending,
          read <+: taken
          ∧ Lexical.Stops .start scanner.lexeme.reset scanner.location scanner.rest read ending
          ∧ ending.verdict = .error error.fault
          ∧ error.location = .ofCount (before ++ read)
  token
    : ∀ token, scanner.next.1 = .ok token →
        ∃ bytes,
          taken = leadingGap scanner.rest ++ bytes
          ∧ token.location = .ofCount (before ++ leadingGap scanner.rest)
          ∧ (token.kind = .endOfFile → bytes = [] ∧ scanner.next.2.rest = [])
          ∧ (token.kind = .endOfLine → bytes = [0x0A])
          ∧ (token.kind ≠ .endOfFile → bytes ≠ [])

variable {scanner : Scanner} {before taken : List UInt8}

theorem exists_takes (place : scanner.location = .ofCount before)
    : ∃ taken, scanner.Takes before taken := by
  obtain ⟨read, taken, ending, stops, leads, split, verdict, stoppedAt⟩ :=
    Lexical.exists_stops .start scanner.lexeme.reset scanner.location scanner.rest
  have split : scanner.rest = taken ++ scanner.next.2.rest := by
    rw [next_rest]
    exact split
  refine ⟨taken, { location := place, split, progress := ?_, fault := ?_, token := ?_ }⟩
  · intro more nothing
    have shorter := scanner.next_rest_length_lt more
    rw [nothing, List.nil_append] at split
    exact absurd (congrArg List.length split) (Nat.ne_of_gt shorter)
  · intro error reads
    rw [next_fst] at reads
    split at reads
    · next fault isFault =>
        cases reads
        refine ⟨read, ending, leads, stops, verdict ▸ isFault, ?_⟩
        exact stoppedAt.trans (by rw [place, Location.afterBytes_ofCount])
    · cases reads
  · intro token reads
    rw [next_fst] at reads
    split at reads
    · cases reads
    · next kind isKind =>
        cases reads
        obtain ⟨bytes, takes⟩ := Lexical.exists_takesAfter_leadingGap _ _ isKind
        have sameSplit := takes.split
        have left := scanner.next_rest
        rw [← left] at sameSplit
        refine ⟨bytes, List.append_cancel_right (split.symm.trans sameSplit), ?_,
          left ▸ takes.endOfFile, takes.endOfLine, takes.other⟩
        exact takes.start.trans (by rw [place, Location.afterBytes_ofCount])

theorem Takes.exists_location (takes : scanner.Takes before taken)
    : ∃ front, front <+: taken ∧ scanner.next.1.location = .ofCount (before ++ front) := by
  cases reads : scanner.next.1 with
  | error error =>
      obtain ⟨read, ending, leads, -, -, place⟩ := takes.fault error reads
      exact ⟨read, leads, place⟩
  | ok token =>
      obtain ⟨bytes, isTaken, place, -⟩ := takes.token token reads
      exact ⟨_, ⟨bytes, isTaken.symm⟩, place⟩

/-- The end of file stands at the end of input, and nothing is left after it. -/
theorem Takes.of_isEnd (takes : scanner.Takes before taken) (isEnd : scanner.next.1.isEnd = true)
    : scanner.next.1.location = .ofCount (before ++ scanner.rest) ∧ scanner.next.2.rest = [] := by
  cases reads : scanner.next.1 with
  | error error => simp [reads, Reading.isEnd] at isEnd
  | ok token =>
      obtain ⟨bytes, isTaken, place, atEnd, -⟩ := takes.token token reads
      rw [reads] at isEnd
      obtain ⟨rfl, nothing⟩ := atEnd (of_decide_eq_true isEnd)
      refine ⟨?_, nothing⟩
      rw [takes.split, nothing, List.append_nil, isTaken, List.append_nil]
      exact place

-----------------------------------------------------------------------------------------
-- A whole scan
-----------------------------------------------------------------------------------------

theorem after_add (scanner : Scanner) (first second : Nat)
    : scanner.after (first + second) = (scanner.after first).after second := by
  induction second with
  | zero => rfl
  | succ second ih => rw [after_succ, ← ih, ← after_succ, Nat.add_assoc]

/-- After any number of readings a scanner stands after the bytes that are no longer unread. -/
theorem exists_takes_after (place : scanner.location = .ofCount before) (count : Nat)
    : ∃ read taken,
        scanner.rest = read ++ (scanner.after count).rest
        ∧ (scanner.after count).Takes (before ++ read) taken := by
  obtain ⟨read, split, place'⟩ := scanner.after_rest_suffix count
  rw [place, Location.afterBytes_ofCount] at place'
  obtain ⟨taken, takes⟩ := exists_takes place'
  exact ⟨read, taken, split, takes⟩

/-- After the end of file there is only the end of file, at the same place. -/
theorem isEnd_after_add (place : scanner.location = .ofCount before) {count : Nat}
    (isEnd : (scanner.after count).next.1.isEnd = true) (more : Nat)
    : (scanner.after (count + more)).next.1.isEnd = true
      ∧ (scanner.after (count + more)).next.1.location = .ofCount (before ++ scanner.rest) := by
  have again : (scanner.after (count + more)).next.1.isEnd = true := by
    cases more with
    | zero => exact isEnd
    | succ more =>
        obtain ⟨read, taken, -, takes⟩ := exists_takes_after place count
        have nothing : (scanner.after (count + 1)).rest = [] := by
          rw [after_succ]
          exact (takes.of_isEnd isEnd).2
        obtain ⟨later, split, -⟩ := (scanner.after (count + 1)).after_rest_suffix more
        rw [nothing, List.nil_eq_append_iff] at split
        rw [Nat.add_comm more 1, ← Nat.add_assoc, after_add]
        exact next_isEnd_of_rest_eq_nil split.2
  refine ⟨again, ?_⟩
  obtain ⟨read, taken, split, takes⟩ := exists_takes_after place (count + more)
  rw [(takes.of_isEnd again).1, List.append_assoc, ← split]

/-- Readings never go back: what a reading takes comes after its place and before the place of any
later one.
-/
theorem notAfter_after (place : scanner.location = .ofCount before) {first second : Nat}
    (inOrder : first ≤ second)
    : (scanner.after first).next.1.location.notAfter (scanner.after second).next.1.location
      = true := by
  obtain ⟨read, taken, -, takes⟩ := exists_takes_after place first
  obtain ⟨front, leads, isFirst⟩ := takes.exists_location
  obtain ⟨more, rfl⟩ := Nat.exists_eq_add_of_le inOrder
  cases more with
  | zero => simp [Location.notAfter]
  | succ more =>
      have placeAfter : (scanner.after first).next.2.location
          = .ofCount (before ++ read ++ taken) := by
        obtain ⟨passed, splitAfter, reached⟩ := (scanner.after first).after_rest_suffix 1
        rw [← Location.afterBytes_ofCount, ← takes.location]
        rw [takes.split] at splitAfter
        rw [List.append_cancel_right splitAfter]
        exact reached
      obtain ⟨later, takenLater, -, takesLater⟩ := exists_takes_after placeAfter more
      obtain ⟨frontLater, -, isSecond⟩ := takesLater.exists_location
      have sameScanner : (scanner.after first).next.2.after more
          = scanner.after (first + (more + 1)) := by
        rw [after_add]
        rfl
      rw [isFirst, ← sameScanner, isSecond]
      refine Location.notAfter_ofCount ?_
      simp only [List.append_assoc]
      refine (List.prefix_append_right_inj _).mpr ((List.prefix_append_right_inj _).mpr ?_)
      exact leads.trans (List.prefix_append ..)

/-- Reading to the end is reading a number of times, at most once for each byte and once more. By
induction on the readings.
-/
theorem exists_readings_eq (scanner : Scanner)
    : ∃ calls, calls ≤ scanner.rest.length
        ∧ scanner.readings = (scanner.firstReadings (calls + 1), scanner.after (calls + 1))
        ∧ (∀ earlier < calls, (scanner.after earlier).next.1.isEnd = false)
        ∧ (scanner.after calls).next.1.isEnd = true := by
  fun_induction readings scanner with
  | case1 scanner reading after result more later last following ih =>
      obtain ⟨calls, bound, same, goesOn, ends⟩ := ih
      have isReading : scanner.next.1 = reading := by rw [result]
      have isAfter : scanner.next.2 = after := by rw [result]
      have shorter := scanner.next_rest_length_lt (isReading ▸ more)
      rw [isAfter] at shorter
      refine ⟨calls + 1, by omega, ?_, ?_, ?_⟩
      · rw [same] at following
        cases following
        simp only [firstReadings, Scanner.after, isReading, isAfter]
      · intro earlier isEarlier
        cases earlier with
        | zero => exact isReading ▸ more
        | succ earlier =>
            have goesOn := goesOn earlier (by omega)
            rw [← isAfter] at goesOn
            exact goesOn
      · rw [← isAfter] at ends
        exact ends
  | case2 scanner reading after result ended =>
      have isReading : scanner.next.1 = reading := by rw [result]
      have isAfter : scanner.next.2 = after := by rw [result]
      refine ⟨0, Nat.zero_le _, ?_, fun _ negative => absurd negative (Nat.not_lt_zero _), ?_⟩
      · simp only [firstReadings, Scanner.after, isReading, isAfter]
      · rw [Scanner.after, isReading]
        simpa using ended

/-- The readings of an iteration over tokens, which a fault or the end of file ends. -/
def tokens (scanner : Scanner) : List Reading :=
  match _result : scanner.next with
  | (.error error, _) => [.error error]
  | (.ok token, after) =>
      if _ends : token.kind = .endOfFile then [.ok token] else .ok token :: tokens after
termination_by scanner.rest.length
decreasing_by
  have shorter := scanner.next_rest_length_lt (by rw [_result]; exact decide_eq_false _ends)
  rwa [_result] at shorter

/-- Iterating over tokens makes some of the readings up to the end, by induction on them. -/
theorem tokens_prefix_readings (scanner : Scanner) : scanner.tokens <+: scanner.readings.1 := by
  fun_induction tokens scanner with
  | case1 scanner error after result =>
      rw [readings_fst, result]
      exact List.cons_prefix_cons.mpr ⟨rfl, List.nil_prefix⟩
  | case2 scanner token after result ends =>
      rw [readings_fst, result]
      exact List.cons_prefix_cons.mpr ⟨rfl, List.nil_prefix⟩
  | case3 scanner token after result goesOn ih =>
      have more : Reading.isEnd (.ok token) = false := decide_eq_false goesOn
      rw [readings_fst, result]
      dsimp only
      rw [more]
      exact List.cons_prefix_cons.mpr ⟨rfl, ih⟩

/-- A scanner at the start of some bytes. -/
def ofBytes (source : List UInt8) : Scanner where
  rest := source

/-- A scan of any source, whatever the readings give. A scanner stands after the bytes that are no
longer unread; each reading takes the next of them, at least one unless it is the end of file, and
stands at the place that counting gives. The end of file comes when nothing is left, and stays. So
a scan to the end, past all faults or up to the first one, takes at most one reading for each byte
and one more. The places of the readings never go back, nor further than the source is long.
-/
theorem scan_in_order (source : List UInt8)
    : (∀ count, ∃ before taken,
        source = before ++ ((ofBytes source).after count).rest
        ∧ ((ofBytes source).after count).Takes before taken)
      ∧ (∀ count, ((ofBytes source).after count).next.1.isEnd = true →
          ((ofBytes source).after (count + 1)).rest = []
          ∧ ∀ more,
              ((ofBytes source).after (count + more)).next.1.isEnd = true
              ∧ ((ofBytes source).after (count + more)).next.1.location = .ofCount source)
      ∧ (∃ calls, calls ≤ source.length
          ∧ (ofBytes source).readings
            = ((ofBytes source).firstReadings (calls + 1), (ofBytes source).after (calls + 1))
          ∧ ((ofBytes source).after calls).next.1.isEnd = true
          ∧ (ofBytes source).tokens <+: (ofBytes source).readings.1)
      ∧ (∀ first second, first ≤ second →
          ((ofBytes source).after first).next.1.location.notAfter
            ((ofBytes source).after second).next.1.location = true)
      ∧ ∀ count,
          ((ofBytes source).after count).next.1.location.line ≤ source.length + 1
          ∧ ((ofBytes source).after count).next.1.location.column ≤ source.length + 1 := by
  have place : (ofBytes source).location = .ofCount [] := rfl
  refine ⟨fun count => exists_takes_after place count, fun count isEnd => ?_, ?_,
    fun first second => notAfter_after place, fun count => ?_⟩
  · obtain ⟨before, taken, -, takes⟩ := exists_takes_after place count
    refine ⟨?_, isEnd_after_add place isEnd⟩
    rw [after_succ]
    exact (takes.of_isEnd isEnd).2
  · obtain ⟨calls, bound, reads, -, isEnd⟩ := (ofBytes source).exists_readings_eq
    exact ⟨calls, bound, reads, isEnd, tokens_prefix_readings _⟩
  · obtain ⟨before, taken, split, takes⟩ := exists_takes_after place count
    obtain ⟨front, ⟨back, isTaken⟩, isPlace⟩ := takes.exists_location
    have bounded := Location.ofCount_le (before ++ front)
    have noLonger : (before ++ front).length ≤ source.length := by
      have whole : source = before ++ ((ofBytes source).after count).rest := split
      rw [whole, takes.split, ← isTaken]
      simp
    rw [isPlace, List.nil_append]
    omega

end Scanner

end ExprCompiler

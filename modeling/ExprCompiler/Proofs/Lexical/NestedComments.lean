import ExprCompiler.Proofs.Lexical.Positions

/-! Block comments at the place of a token. Main statement: a comment that is closed is skipped as
if it were not there, except that its line breaks mark the next token; one that is not closed takes
the rest of the input and leaves one warning.
-/

namespace ExprCompiler

namespace Lexical

/-- Splits bytes inside of `depth` open block comments after the end of the outermost one, if it has
one. Read from left to right, a slash and a star open one more comment, a star and a slash close
one, and each byte is used once.
-/
def matchingClose? (depth : Nat) : List UInt8 → Option (List UInt8 × List UInt8)
  | [] => none
  | [_] => none
  | first :: second :: rest =>
      if first = 0x2A ∧ second = 0x2F then
        if depth = 1 then some ([first, second], rest)
        else
          (matchingClose? (depth - 1) rest).map fun split => (first :: second :: split.1, split.2)
      else if first = 0x2F ∧ second = 0x2A then
        (matchingClose? (depth + 1) rest).map fun split => (first :: second :: split.1, split.2)
      else (matchingClose? depth (second :: rest)).map fun split => (first :: split.1, split.2)

/-- A machine word counts open comments as long as there are fewer bytes than it has values. By
induction on the bytes, of which every comment takes two to be opened.
-/
theorem closeComment?_ofNat {depth : Nat} {bytes : List UInt8} (isOpen : 0 < depth)
    (small : depth + bytes.length < UInt32.size)
    : closeComment? (.ofNat depth) bytes = matchingClose? depth bytes := by
  have value {number : Nat} (fits : number < UInt32.size) : (UInt32.ofNat number).toNat = number :=
    UInt32.toNat_ofNat_of_lt fits
  fun_induction matchingClose? depth bytes with
  | case1 | case2 => rfl
  | case3 first second rest isClose =>
      rw [closeComment?, if_pos isClose]
      rfl
  | case4 depth first second rest isClose inner ih =>
      rw [List.length_cons, List.length_cons] at small
      have stillInner : UInt32.ofNat depth ≠ 1 := by
        intro outermost
        have same := congrArg UInt32.toNat outermost
        rw [value (by omega)] at same
        exact inner same
      have oneLess : UInt32.ofNat depth - 1 = .ofNat (depth - 1) := by
        apply UInt32.toNat_inj.mp
        rw [UInt32.toNat_sub_of_le, value (by omega), value (by omega)]
        · rfl
        · rw [UInt32.le_iff_toNat_le, value (by omega)]
          exact isOpen
      rw [closeComment?, if_pos isClose, if_neg stillInner, oneLess, ih (by omega) (by omega)]
      rfl
  | case5 depth first second rest notClose opens ih =>
      rw [List.length_cons, List.length_cons] at small
      have oneMore : UInt32.ofNat depth + 1 = .ofNat (depth + 1) := (UInt32.ofNat_add ..).symm
      rw [closeComment?, if_neg notClose, if_pos opens, oneMore, ih (by omega) (by omega)]
      rfl
  | case6 depth first second rest notClose notOpen ih =>
      rw [List.length_cons] at small
      rw [closeComment?, if_neg notClose, if_neg notOpen, ih isOpen (by omega)]
      rfl

-----------------------------------------------------------------------------------------
-- Line breaks that were seen before
-----------------------------------------------------------------------------------------

/-- Notes whether a comment before held a line break, for what a step leads to. -/
def Step.sawComment (comment : List UInt8) : Step → Step
  | .next state lexeme => .next state (lexeme.sawComment comment)
  | .done ending => .done { ending with lexeme := ending.lexeme.sawComment comment }

/-- Notes whether a comment before held a line break, for the end of a run. -/
def Run.sawComment (run : Run) (comment : List UInt8) : Run :=
  { run with lexeme := run.lexeme.sawComment comment }

section SawComment

variable (comment : List UInt8) (lexeme : Lexeme) (here : Location) (byte : UInt8)

theorem nameToken_sawComment
    : nameToken (lexeme.sawComment comment)
      = ((nameToken lexeme).1, (nameToken lexeme).2.sawComment comment) := by
  have sameText : (lexeme.sawComment comment).text = lexeme.text := rfl
  unfold nameToken
  rw [sameText]
  cases Keyword.ofBytes? lexeme.text.toList with
  | some word => rfl
  | none => cases BaseType.ofBytes? lexeme.text.toList <;> rfl

theorem Pending.ending_sawComment (pending : Pending)
    : Step.done (pending.ending (lexeme.sawComment comment))
      = (Step.done (pending.ending lexeme)).sawComment comment := by
  cases pending with
  | name =>
      have named := nameToken_sawComment comment lexeme
      simp only [Pending.ending, Pending.verdict, Step.sawComment, named, if_true]
  | less | greater | bang | question | assign | minus | slash | underscore | integer | point
  | fraction | exponentMark | exponentSign | exponent | emptyString => rfl

theorem singleText_sawComment
    : singleText (lexeme.sawComment comment) byte
      = (singleText lexeme byte).sawComment comment := by
  unfold singleText
  split
  · rfl
  · rfl
  · split <;> rfl

theorem multiText_sawComment
    : multiText (lexeme.sawComment comment) byte
      = (multiText lexeme byte).sawComment comment := by
  unfold multiText
  split <;> rfl

theorem escapeStep_sawComment (form : StringForm)
    : escapeStep form (lexeme.sawComment comment) byte
      = (escapeStep form lexeme byte).sawComment comment := by
  unfold escapeStep
  split <;> rfl

theorem hexStep_sawComment (form : StringForm)
    : hexStep form (lexeme.sawComment comment) byte
      = (hexStep form lexeme byte).sawComment comment := by
  have sameHex : (lexeme.sawComment comment).hex = lexeme.hex := rfl
  unfold hexStep
  rw [sameHex]
  split
  · split <;> rfl
  · split
    · split <;> rfl
    · rfl

theorem StringPhase.step_sawComment (phase : StringPhase)
    : phase.step (lexeme.sawComment comment) byte
      = (phase.step lexeme byte).sawComment comment := by
  have single := singleText_sawComment comment lexeme byte
  have multi := multiText_sawComment comment lexeme byte
  cases phase with
  | body => exact single
  | multiBody => exact multi
  | escape form => exact escapeStep_sawComment comment lexeme byte form
  | hex form => exact hexStep_sawComment comment lexeme byte form
  | opened =>
      simp only [StringPhase.step]
      split
      · rfl
      · exact single
  | delimiter | hexOpen form =>
      simp only [StringPhase.step]
      split <;> rfl
  | lineStart | lineQuote | lineQuotes =>
      simp only [StringPhase.step]
      split
      · rfl
      · exact multi

theorem commentBody_sawComment
    : commentBody (lexeme.sawComment comment) byte
      = (commentBody lexeme byte).sawComment comment := by
  unfold commentBody
  split <;> rfl

theorem CommentPhase.step_sawComment (phase : CommentPhase)
    : phase.step (lexeme.sawComment comment) byte
      = (phase.step lexeme byte).sawComment comment := by
  unfold CommentPhase.step
  split
  · rfl
  · rfl
  · exact commentBody_sawComment comment lexeme byte

theorem firstByte_sawComment
    : firstByte (lexeme.sawComment comment) byte
      = (firstByte lexeme byte).sawComment comment := by
  unfold firstByte
  dsimp only
  split
  · rfl
  · split
    · rfl
    · split
      · rfl
      · split
        · rfl
        · split
          · rfl
          · split <;> rfl

theorem nilableType?_sawComment
    : nilableType? (lexeme.sawComment comment) byte
      = (nilableType? lexeme byte).map (·.sawComment comment) := by
  have sameKind : (nameToken (lexeme.sawComment comment)).1 = (nameToken lexeme).1 := by
    rw [nameToken_sawComment]
  unfold nilableType?
  rw [sameKind]
  split
  · cases (nameToken lexeme).1 <;> rfl
  · rfl

theorem Pending.continued?_sawComment (pending : Pending)
    : pending.continued? (lexeme.sawComment comment) byte
      = (pending.continued? lexeme byte).map (·.sawComment comment) := by
  cases pending with
  | less | greater | bang | question | assign | minus =>
      simp only [Pending.continued?, extendSign?]
      split <;> rfl
  | slash =>
      simp only [Pending.continued?, openComment?]
      split <;> rfl
  | underscore | point | exponentSign | exponent | emptyString =>
      simp only [Pending.continued?]
      split <;> rfl
  | fraction | exponentMark =>
      simp only [Pending.continued?]
      split
      · rfl
      · split <;> rfl
  | integer =>
      simp only [Pending.continued?]
      split
      · rfl
      · split
        · rfl
        · split <;> rfl
  | name =>
      simp only [Pending.continued?]
      split
      · rfl
      · exact nilableType?_sawComment comment lexeme byte

theorem Pending.step_sawComment (pending : Pending)
    : pending.step (lexeme.sawComment comment) byte
      = (pending.step lexeme byte).sawComment comment := by
  unfold Pending.step
  rw [Pending.continued?_sawComment, Pending.ending_sawComment]
  cases pending.continued? lexeme byte <;> rfl

theorem State.step_sawComment (state : State)
    : state.step (lexeme.sawComment comment) here byte
      = (state.step lexeme here byte).sawComment comment := by
  cases state with
  | start =>
      simp only [State.step]
      split
      · rfl
      · exact firstByte_sawComment comment { lexeme with start := here } byte
  | pending unfinished => exact Pending.step_sawComment comment lexeme byte unfinished
  | lineComment =>
      simp only [State.step]
      split <;> rfl
  | blockComment phase => exact CommentPhase.step_sawComment comment lexeme byte phase
  | string phase => exact StringPhase.step_sawComment comment lexeme byte phase

theorem State.atEnd_sawComment (state : State)
    : Step.done (state.atEnd (lexeme.sawComment comment) here)
      = (Step.done (state.atEnd lexeme here)).sawComment comment := by
  cases state with
  | pending unfinished => exact Pending.ending_sawComment comment lexeme unfinished
  | start | lineComment | blockComment _ | string _ => rfl

/-- A line break that was seen before makes no difference to a run, by induction on the bytes. -/
theorem run_sawComment (state : State) (bytes : List UInt8)
    : run state (lexeme.sawComment comment) here bytes
      = (run state lexeme here bytes).sawComment comment := by
  induction bytes generalizing state lexeme here with
  | nil =>
      have ends := State.atEnd_sawComment comment lexeme here state
      injection ends with ends
      rw [run, ends]
      rfl
  | cons byte rest ih =>
      rw [run, run, State.step_sawComment]
      cases state.step lexeme here byte with
      | next following grown => exact ih grown (here.advance byte) following
      | done ending => rfl

end SawComment

-----------------------------------------------------------------------------------------
-- A comment before a token
-----------------------------------------------------------------------------------------

/-- Bytes before a token that give none: blanks and closed comments. -/
inductive Gap : List UInt8 → Prop
  | nil : Gap []
  | blank {byte : UInt8} {rest : List UInt8} (isBlank : isBlank byte = true) (isGap : Gap rest)
    : Gap (byte :: rest)
  | comment {comment rest : List UInt8} (closes : matchingClose? 1 comment = some (comment, []))
    (isGap : Gap rest)
    : Gap (0x2F :: 0x2A :: comment ++ rest)

/-- A closed comment splits the bytes, and is closed whatever comes after it. By induction on the
bytes.
-/
theorem append_of_matchingClose? {depth : Nat} {bytes comment later : List UInt8}
    (closes : matchingClose? depth bytes = some (comment, later))
    : comment ++ later = bytes
      ∧ ∀ other, matchingClose? depth (comment ++ other) = some (comment, other) := by
  fun_induction matchingClose? depth bytes generalizing comment with
  | case1 | case2 => cases closes
  | case3 first second rest isClose =>
      cases closes
      exact ⟨rfl, fun other => by simp [matchingClose?, isClose]⟩
  | case4 depth first second rest isClose inner ih =>
      obtain ⟨⟨nested, _⟩, closesLater, same⟩ := Option.map_eq_some_iff.mp closes
      cases same
      obtain ⟨split, closesNested⟩ := ih closesLater
      refine ⟨congrArg (first :: second :: ·) split, fun other => ?_⟩
      simp [matchingClose?, isClose, inner, closesNested other]
  | case5 depth first second rest notClose opens ih =>
      obtain ⟨⟨nested, _⟩, closesLater, same⟩ := Option.map_eq_some_iff.mp closes
      cases same
      obtain ⟨split, closesNested⟩ := ih closesLater
      refine ⟨congrArg (first :: second :: ·) split, fun other => ?_⟩
      simp [matchingClose?, opens, closesNested other]
  | case6 depth first second rest notClose notOpen ih =>
      obtain ⟨⟨nested, _⟩, closesLater, same⟩ := Option.map_eq_some_iff.mp closes
      cases same
      obtain ⟨split, closesNested⟩ := ih closesLater
      refine ⟨congrArg (first :: ·) split, fun other => ?_⟩
      cases nested with
      | nil => cases closesNested []
      | cons next nested =>
          obtain rfl : next = second := List.head_eq_of_cons_eq split
          have goesOn := closesNested other
          rw [List.cons_append] at goesOn
          simp [matchingClose?, notClose, notOpen, goesOn]

theorem closeComment?_one {bytes : List UInt8} (small : 1 + bytes.length < UInt32.size)
    : closeComment? 1 bytes = matchingClose? 1 bytes :=
  closeComment?_ofNat Nat.one_pos small

/-- Blanks and closed comments before a closed comment. -/
theorem Gap.concat {gap comment : List UInt8} (isGap : Gap gap)
    (closes : matchingClose? 1 comment = some (comment, []))
    : Gap (gap ++ 0x2F :: 0x2A :: comment) := by
  induction isGap with
  | nil =>
      rw [List.nil_append, ← List.append_nil (0x2F :: 0x2A :: comment)]
      exact .comment closes .nil
  | blank isBlank isGap ih => exact .blank isBlank ih
  | comment closesFirst isGap ih =>
      rw [List.append_assoc]
      exact .comment closesFirst ih

/-- The automaton passes over a gap and keeps only whether there was a line break in it. By
induction on the gap.
-/
theorem exists_run_start_gap {gap bytes : List UInt8} (isGap : Gap gap)
    (small : (gap ++ bytes).length < UInt32.size) (lexeme : Lexeme) (here : Location)
    (outside : lexeme.depth = 0)
    : ∃ passed : Lexeme,
        passed.Alike .start .start (lexeme.sawComment gap)
        ∧ run .start lexeme here (gap ++ bytes)
          = run .start passed (here.afterBytes gap) bytes := by
  have atStart {passed fresh : Lexeme} (text : passed.text.bytes = fresh.text.bytes)
      (hex : passed.hex.bytes = fresh.hex.bytes) (depth : passed.depth = fresh.depth)
      (sawNewline : passed.sawNewline = fresh.sawNewline)
      : passed.Alike .start .start fresh :=
    { text, hex, depth, sawNewline
      start := fun entered => by cases entered
      commentStart := fun entered => by cases entered }
  induction isGap generalizing lexeme here with
  | nil => exact ⟨lexeme, atStart rfl rfl rfl (Bool.or_false _).symm, rfl⟩
  | @blank byte rest blank isGap ih =>
      have noBreak : 0x0A ∉ [byte] := by
        intro isBreak
        obtain rfl := List.mem_singleton.mp isBreak
        cases blank
      rw [List.cons_append, List.length_cons] at small
      obtain ⟨passed, alike, passes⟩ := ih (by omega) lexeme (here.advance byte) outside
      refine ⟨passed, ?_, ?_⟩
      · rw [← List.singleton_append, lexeme.sawComment_skip _ _ noBreak]
        exact alike
      · rw [List.cons_append, run_start_blank _ _ blank, passes]
        rfl
  | @comment comment rest closes isGap ih =>
      have shorter : 1 + (comment ++ (rest ++ bytes)).length < UInt32.size := by
        simp only [List.cons_append, List.length_cons, List.append_assoc] at small
        omega
      have closesHere : closeComment? 1 (comment ++ (rest ++ bytes))
          = some (comment, rest ++ bytes) := by
        rw [closeComment?_one shorter]
        exact (append_of_matchingClose? closes).2 _
      obtain ⟨passed, alike, passes⟩ :=
        ih (by rw [List.length_append] at shorter; omega)
          { lexeme.sawComment comment with depth := 0, start := here, commentStart := here }
          ((here.afterBytes [0x2F, 0x2A]).afterBytes comment) rfl
      refine ⟨passed, atStart alike.text alike.hex (alike.depth.trans outside.symm) ?_, ?_⟩
      · rw [alike.sawNewline]
        simp [Lexeme.sawComment, Bool.or_assoc]
      · rw [List.append_assoc]
        have opened := run_start_openComment lexeme here (comment ++ (rest ++ bytes))
        rw [run_body_of_closes closesHere rfl] at opened
        rw [← Location.afterBytes_append, ← Location.afterBytes_append] at passes
        exact opened.trans passes

end Lexical

theorem Location.movedTo_start (location : Location) : location.movedTo .start = location := by
  obtain ⟨line, column⟩ := location
  unfold movedTo
  split
  · next first =>
      rw [show line = 1 from first]
      simp [Location.start]
  · simp [Location.start]

theorem Location.isCounted_ofCount (bytes : List UInt8) : (ofCount bytes).IsCounted :=
  ⟨Nat.succ_le_succ (Nat.zero_le _), Nat.succ_le_succ (Nat.zero_le _)⟩

theorem Reading.movedTo_start (reading : Reading) : reading.movedTo .start = reading := by
  cases reading <;> simp [movedTo, Location.movedTo_start]

/-- A reading that comes after a comment: line breaks of the comment mark a token. -/
def Reading.afterComment (comment : List UInt8) : Reading → Reading
  | .ok token =>
      .ok { token with afterNewline := token.afterNewline || comment.contains 0x0A }
  | .error error => .error error

namespace Scanner

open Lexical (Gap matchingClose? closeComment?)

/-- A scanner that has passed over some bytes and read nothing from them. -/
def skip (scanner : Scanner) (passed : List UInt8) : Scanner :=
  { scanner with
    rest := scanner.rest.drop passed.length
    location := scanner.location.afterBytes passed }

variable {scanner : Scanner} {before gap bytes comment later : List UInt8}

/-- Passing over a gap is reading it, but for its line breaks. -/
theorem run_of_gap (isGap : Gap gap) (place : scanner.location = .ofCount before)
    (begins : scanner.rest = gap ++ bytes) (small : scanner.rest.length < UInt32.size)
    : scanner.run.Alike .start ((scanner.skip gap).run.sawComment gap) := by
  have restAfter : (scanner.skip gap).rest = bytes := by
    rw [skip, begins]
    exact List.drop_left
  have counted : (scanner.skip gap).location.IsCounted := by
    rw [skip, place, Location.afterBytes_ofCount]
    exact Location.isCounted_ofCount _
  rw [begins] at small
  obtain ⟨passed, alike, passes⟩ :=
    Lexical.exists_run_start_gap isGap small scanner.lexeme.reset scanner.location rfl
  have alikeRun := Lexical.run_alike alike counted bytes
  rw [Location.movedTo_start, Lexical.run_sawComment] at alikeRun
  rw [run, begins, passes, run, restAfter]
  exact alikeRun

/-- An open comment takes the rest of the input, and is warned of where it is opened. -/
theorem next_of_open (opens : scanner.rest = 0x2F :: 0x2A :: bytes)
    (unclosed : closeComment? 1 bytes = none)
    : scanner.next.1
        = .ok {
            kind := .endOfFile
            afterNewline := scanner.afterNewline || bytes.contains 0x0A
            location := scanner.location.afterBytes scanner.rest }
      ∧ scanner.next.2.rest = []
      ∧ scanner.newWarnings = [openCommentWarning scanner.location] := by
  obtain ⟨lastDepth, ends⟩ := Lexical.run_body_of_open
    { scanner.lexeme.reset with
      start := scanner.location, depth := 1, commentStart := scanner.location }
    (scanner.location.afterBytes [0x2F, 0x2A]) unclosed rfl
  have isRun := congrArg (Lexical.run .start scanner.lexeme.reset scanner.location) opens
  rw [Lexical.run_start_openComment, ends] at isRun
  refine ⟨?_, ?_, ?_⟩
  · rw [next_fst, run, isRun, opens]
    rfl
  · rw [next_rest, isRun]
  · rw [newWarnings, run, isRun]
    rfl

/-- Scanners at one place on the same bytes warn alike, by induction on the number of readings. -/
theorem Resumes.warnings_after {fresh : Scanner} (resumes : scanner.Resumes .start fresh)
    (same : scanner.warnings = fresh.warnings) (count : Nat)
    : (scanner.after count).warnings = (fresh.after count).warnings := by
  induction count generalizing scanner fresh with
  | zero => exact same
  | succ count ih =>
      refine ih resumes.next ?_
      have sameNew : fresh.newWarnings.map (·.movedTo .start) = fresh.newWarnings := by
        refine List.map_id'' (fun warning => ?_) _
        cases warning
        simp [Diagnostic.movedTo, Location.movedTo_start]
      rw [next_warnings, next_warnings, same, resumes.newWarnings, sameNew]

theorem Resumes.firstReadings_eq {fresh : Scanner} (resumes : scanner.Resumes .start fresh)
    (sameBreak : scanner.afterNewline = fresh.afterNewline) (count : Nat)
    : scanner.firstReadings count = fresh.firstReadings count := by
  rw [resumes.firstReadings sameBreak]
  exact List.map_id'' Reading.movedTo_start _

/-- Scanning goes on right after a gap, as if it had started there. -/
theorem next_of_gap (isGap : Gap gap) (place : scanner.location = .ofCount before)
    (begins : scanner.rest = gap ++ bytes) (small : scanner.rest.length < UInt32.size)
    : scanner.next.1 = (scanner.skip gap).next.1.afterComment gap
      ∧ scanner.next.2.Resumes .start (scanner.skip gap).next.2
      ∧ scanner.next.2.afterNewline = (scanner.skip gap).next.2.afterNewline
      ∧ scanner.newWarnings = (scanner.skip gap).newWarnings := by
  have alike := run_of_gap isGap place begins small
  have sameVerdict : scanner.run.verdict = (scanner.skip gap).run.verdict := alike.verdict
  refine ⟨?_, ?_, ?_, ?_⟩
  · rw [next_fst, next_fst, sameVerdict]
    cases reads : (scanner.skip gap).run.verdict with
    | error fault =>
        rw [alike.stoppedAt, Location.movedTo_start]
        rfl
    | ok kind =>
        rw [alike.start kind reads, alike.sawNewline, Location.movedTo_start]
        simp only [Lexical.Run.sawComment, Lexical.Lexeme.sawComment, Reading.afterComment,
          Bool.or_assoc]
        rfl
  · refine { rest := ?_, location := ?_, counted := ?_ }
    · rw [next_rest, next_rest]
      exact alike.rest
    · rw [next_location, next_location]
      exact alike.next
    · rw [next_location]
      exact alike.counted
  · rw [next_afterNewline, next_afterNewline, sameVerdict]
    rfl
  · have sameOpen : scanner.run.leftCommentOpen = (scanner.skip gap).run.leftCommentOpen :=
      alike.leftCommentOpen
    unfold newWarnings
    rw [sameOpen]
    cases leftOpen : (scanner.skip gap).run.leftCommentOpen with
    | true =>
        rw [alike.commentStart leftOpen, Location.movedTo_start]
        rfl
    | false => rfl

/-- Nothing is warned of at the end of input, by induction on the number of readings. -/
theorem warnings_after_of_rest_eq_nil (empty : scanner.rest = []) (count : Nat)
    : (scanner.after count).warnings = scanner.warnings := by
  induction count with
  | zero => rfl
  | succ count ih =>
      obtain ⟨read, split, -⟩ := scanner.after_rest_suffix count
      rw [empty, List.nil_eq_append_iff] at split
      rw [after_succ, next_warnings, newWarnings_of_rest_eq_nil split.2]
      exact ih

/-- Only a scanner at the end of input has warned of something. -/
theorem WarnsAtEnd.quiet (warnsAtEnd : scanner.WarnsAtEnd) (more : scanner.rest ≠ [])
    : scanner.warnings = {} := by
  rcases warnsAtEnd with quiet | ⟨empty, -⟩
  · exact quiet
  · exact absurd empty more

/-- Block comments nest. Take any place in a source of less than `2 ^ 32` bytes where a token may
start, after some readings and then blanks and closed comments, and let a comment be opened there.
The pairs of bytes that open and close comments decide. If they close the comment, it is skipped:
the reading is the one right after it, with its token marked if there was a line break before, and
all that is read or warned of later is the same. If they do not, the reading is the end of file at
the end of the source, and there is one warning in all, at the opening and no error, however often
one reads on.
-/
theorem next_of_openComment {source : List UInt8} (small : source.length < UInt32.size)
    (count : Nat) {gap bytes : List UInt8} (isGap : Gap gap)
    (opens : ((ofBytes source).after count).rest = gap ++ 0x2F :: 0x2A :: bytes)
    : ∃ before, source = before ++ gap ++ 0x2F :: 0x2A :: bytes
      ∧ (∀ comment later, matchingClose? 1 bytes = some (comment, later) →
          let scanner := (ofBytes source).after count
          let skipped := scanner.skip (gap ++ 0x2F :: 0x2A :: comment)
          bytes = comment ++ later
          ∧ skipped.rest = later
          ∧ skipped.location = .ofCount (before ++ gap ++ 0x2F :: 0x2A :: comment)
          ∧ scanner.next.1 = skipped.next.1.afterComment (gap ++ 0x2F :: 0x2A :: comment)
          ∧ ∀ more,
              scanner.next.2.firstReadings more = skipped.next.2.firstReadings more
              ∧ (scanner.after more).warnings = (skipped.after more).warnings)
      ∧ (matchingClose? 1 bytes = none →
          let scanner := (ofBytes source).after count
          scanner.next.1
            = .ok {
                kind := .endOfFile
                afterNewline := scanner.afterNewline || (gap ++ bytes).contains 0x0A
                location := .ofCount source }
          ∧ scanner.next.2.rest = []
          ∧ scanner.warnings.kept = []
          ∧ ∀ more,
              (scanner.after (more + 1)).warnings.kept
                = [openCommentWarning (.ofCount (before ++ gap))]
              ∧ (scanner.after (more + 1)).warnings.hasErrors = false) := by
  obtain ⟨before, split, place⟩ := (ofBytes source).after_rest_suffix count
  have split : source = before ++ ((ofBytes source).after count).rest := split
  have place : ((ofBytes source).after count).location = .ofCount before :=
    place.trans (Location.afterBytes_start before)
  have warnsAtEnd : ((ofBytes source).after count).WarnsAtEnd := WarnsAtEnd.after (.inl rfl) count
  generalize (ofBytes source).after count = scanner at *
  have fits : scanner.rest.length < UInt32.size := by
    rw [split, List.length_append] at small
    omega
  refine ⟨before, by rw [split, opens, List.append_assoc], ?_, ?_⟩
  · intro comment later closes
    obtain ⟨rfl, closesAnywhere⟩ := Lexical.append_of_matchingClose? closes
    have isLonger : Gap (gap ++ 0x2F :: 0x2A :: comment) := by
      refine isGap.concat ?_
      have closesAlone := closesAnywhere []
      rwa [List.append_nil] at closesAlone
    have begins : scanner.rest = (gap ++ 0x2F :: 0x2A :: comment) ++ later := by
      rw [opens, List.append_assoc]
      rfl
    obtain ⟨reads, resumes, sameBreak, sameNew⟩ := next_of_gap isLonger place begins fits
    refine ⟨rfl, ?_, ?_, reads, fun more => ⟨?_, ?_⟩⟩
    · rw [skip, begins]
      exact List.drop_left
    · rw [List.append_assoc, ← Location.afterBytes_ofCount, ← place]
      rfl
    · exact resumes.firstReadings_eq sameBreak more
    · cases more with
      | zero => rfl
      | succ more =>
          refine resumes.warnings_after ?_ more
          rw [next_warnings, next_warnings, sameNew]
          rfl
  · intro unclosed
    obtain ⟨reads, resumes, -, sameNew⟩ := next_of_gap isGap place opens fits
    have opensAfter : (scanner.skip gap).rest = 0x2F :: 0x2A :: bytes := by
      rw [skip, opens]
      exact List.drop_left
    have placeAfter : (scanner.skip gap).location = .ofCount (before ++ gap) := by
      rw [← Location.afterBytes_ofCount, ← place]
      rfl
    have shorter : 1 + bytes.length < UInt32.size := by
      rw [opens, List.length_append, List.length_cons, List.length_cons] at fits
      omega
    rw [← Lexical.closeComment?_one shorter] at unclosed
    obtain ⟨readsAfter, nothing, warns⟩ := next_of_open opensAfter unclosed
    have quiet : scanner.warnings = {} := warnsAtEnd.quiet (by simp [opens])
    have atEnd : scanner.next.2.rest = [] := resumes.rest.trans nothing
    rw [readsAfter, placeAfter, Location.afterBytes_ofCount, opensAfter] at reads
    refine ⟨?_, atEnd, by rw [quiet], fun more => ?_⟩
    · rw [reads, split, opens]
      simp only [Reading.afterComment, skip, Bool.or_assoc, List.contains_append,
        List.append_assoc, Bool.or_comm (bytes.contains 0x0A)]
    · have warned : (scanner.after (more + 1)).warnings
          = ({} : DiagnosticQueue).add (openCommentWarning (.ofCount (before ++ gap))) := by
        rw [Scanner.after, warnings_after_of_rest_eq_nil atEnd, next_warnings, quiet, sameNew,
          warns, placeAfter]
        rfl
      rw [warned]
      exact ⟨rfl, rfl⟩

/-- A comment is skipped with one in it that ends one star before it, and its line break marks the
name after it. In the other source a closed comment comes first, and the slash after the second
opening closes nothing.
-/
theorem next_of_openComment_nested
    : ((ofBytes (Utf8.encode "a /*/**/\n**/b")).after 1).next.1
        = .ok { kind := .identifier "b", afterNewline := true, location := ⟨2, 4⟩ }
      ∧ ∀ more,
          (((ofBytes (Utf8.encode "a/**//*/")).after 1).after (more + 1)).warnings.kept
            = [openCommentWarning ⟨1, 6⟩] := by
  obtain ⟨_, -, closed, -⟩ :=
    @next_of_openComment (Utf8.encode "a /*/**/\n**/b") (by decide) 1 [0x20]
      (Utf8.encode "/**/\n**/b") (.blank rfl .nil) (by decide +kernel)
  obtain ⟨-, -, -, reads, -⟩ :=
    closed (Utf8.encode "/**/\n**/") (Utf8.encode "b") (by decide +kernel)
  obtain ⟨before, split, -, unclosed⟩ :=
    @next_of_openComment (Utf8.encode "a/**//*/") (by decide) 1 (Utf8.encode "/**/")
      (Utf8.encode "/") (@Gap.comment (Utf8.encode "*/") [] (by decide +kernel) .nil)
      (by decide +kernel)
  obtain ⟨-, -, -, warns⟩ := unclosed (by decide)
  obtain rfl : before = Utf8.encode "a" :=
    (List.append_cancel_right
      (show Utf8.encode "a" ++ (Utf8.encode "/**/" ++ 0x2F :: 0x2A :: Utf8.encode "/") = _
        from split.trans (List.append_assoc ..))).symm
  exact ⟨reads.trans (by decide +kernel), fun more => (warns more).1⟩

end Scanner

end ExprCompiler

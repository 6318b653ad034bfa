import ExprCompiler.Lexical.Scanner

/-! Scanning forgets what it has read. Main statement: after any number of readings, whether
they gave tokens or faults, a scanner reads the unread bytes as a new scanner would, only that
its places are moved and that a line break just read still marks the next token.
-/

namespace ExprCompiler

namespace Location

/-- A place in a text that itself starts at `origin`: on its first line the column moves, and
everywhere the line.
-/
def movedTo (location origin : Location) : Location :=
  if location.line = 1 then ⟨origin.line, origin.column + location.column - 1⟩
  else ⟨origin.line + location.line - 1, location.column⟩

/-- The place after some bytes. -/
def afterBytes (location : Location) (bytes : List UInt8) : Location :=
  bytes.foldl advance location

/-- Lines and columns are counted from one. -/
def IsCounted (location : Location) : Prop :=
  1 ≤ location.line ∧ 1 ≤ location.column

theorem isCounted_start : start.IsCounted := ⟨Nat.le_refl _, Nat.le_refl _⟩

theorem IsCounted.advance {location : Location} (counted : location.IsCounted) (byte : UInt8)
    : (location.advance byte).IsCounted := by
  unfold Location.advance
  split
  · exact ⟨Nat.le_succ_of_le counted.1, Nat.le_refl 1⟩
  · exact ⟨counted.1, Nat.le_succ_of_le counted.2⟩

theorem advance_movedTo {location : Location} (counted : location.IsCounted) (origin : Location)
    (byte : UInt8)
    : (location.advance byte).movedTo origin = (location.movedTo origin).advance byte := by
  obtain ⟨line, column⟩ := location
  obtain ⟨lineCounted, columnCounted⟩ := counted
  simp only at lineCounted columnCounted
  by_cases isBreak : byte = 0x0A <;> by_cases first : line = 1 <;>
    simp [advance, movedTo, isBreak, first, Nat.ne_of_gt lineCounted] <;> omega

end Location

namespace Lexical

-----------------------------------------------------------------------------------------
-- Lexemes that are alike
-----------------------------------------------------------------------------------------

/-- Whether a token has started. -/
def State.inToken : State → Bool
  | .pending _ | .string _ => true
  | .start | .lineComment | .blockComment _ => false

/-- A lexeme and one of a text that starts at `origin`, which hold the same as far as the state
can see: what the buffers could hold does not count, and a place only once it is set.
-/
structure Lexeme.Alike (origin : Location) (state : State) (lexeme fresh : Lexeme) : Prop where
  text : lexeme.text.bytes = fresh.text.bytes
  hex : lexeme.hex.bytes = fresh.hex.bytes
  depth : lexeme.depth = fresh.depth
  sawNewline : lexeme.sawNewline = fresh.sawNewline
  start : state.inToken = true → lexeme.start = fresh.start.movedTo origin
  commentStart
    : state.inBlockComment = true → lexeme.commentStart = fresh.commentStart.movedTo origin

/-- Two endings of a token give the same verdict, and the place of a token is moved. -/
structure Ending.Alike (origin : Location) (ending fresh : Ending) : Prop where
  verdict : ending.verdict = fresh.verdict
  unread : ending.unread = fresh.unread
  sawNewline : ending.lexeme.sawNewline = fresh.lexeme.sawNewline
  start
    : ∀ kind, fresh.verdict = .ok kind → ending.lexeme.start = fresh.lexeme.start.movedTo origin

/-- Two effects of a byte go on alike or end alike. -/
inductive Step.Alike (origin : Location) : Step → Step → Prop
  | next {state : State} {lexeme fresh : Lexeme} (alike : lexeme.Alike origin state fresh)
    : Step.Alike origin (.next state lexeme) (.next state fresh)
  | done {ending fresh : Ending} (alike : ending.Alike origin fresh)
    : Step.Alike origin (.done ending) (.done fresh)

variable {origin : Location} {state : State} {lexeme fresh : Lexeme}

namespace Lexeme.Alike

theorem push (alike : lexeme.Alike origin state fresh) (byte : UInt8)
    : (lexeme.push byte).Alike origin state (fresh.push byte) :=
  { alike with text := by simp [Lexeme.push, ByteBuffer.push, alike.text] }

theorem retract (alike : lexeme.Alike origin state fresh) (count : Nat)
    : ({ lexeme with text := lexeme.text.retract count } : Lexeme).Alike origin state
        { fresh with text := fresh.text.retract count } :=
  { alike with text := by simp [ByteBuffer.retract, ByteBuffer.size, alike.text] }

/-- Another state sees no more of the places than this one. -/
theorem goto (alike : lexeme.Alike origin state fresh) {next : State}
    (inToken : next.inToken = true → state.inToken = true)
    (inBlockComment : next.inBlockComment = true → state.inBlockComment = true)
    : lexeme.Alike origin next fresh :=
  { alike with
    start := fun entered => alike.start (inToken entered)
    commentStart := fun entered => alike.commentStart (inBlockComment entered) }

theorem toList_text (alike : lexeme.Alike origin state fresh)
    : lexeme.text.toList = fresh.text.toList :=
  congrArg Array.toList alike.text

theorem take_fst (alike : lexeme.Alike origin state fresh) (kind : String → TokenKind)
    : (lexeme.take kind).1 = (fresh.take kind).1 := by
  simp only [take, ByteBuffer.takeText, ByteBuffer.text, alike.toList_text]

/-- An ending that only takes the kind or the fault from the text. -/
theorem ending {phase : State} (alike : lexeme.Alike origin phase fresh)
    (inToken : phase.inToken = true) {verdict : Except LexicalFault TokenKind} {unread : Bool}
    : Ending.Alike origin { verdict, unread, lexeme } { verdict, unread, lexeme := fresh } where
  verdict := rfl
  unread := rfl
  sawNewline := alike.sawNewline
  start := fun _ _ => alike.start inToken

end Lexeme.Alike

-----------------------------------------------------------------------------------------
-- One byte
-----------------------------------------------------------------------------------------

theorem nameToken_fst_alike (alike : lexeme.Alike origin state fresh)
    : (nameToken lexeme).1 = (nameToken fresh).1 := by
  unfold nameToken
  rw [alike.toList_text]
  cases Keyword.ofBytes? fresh.text.toList with
  | some word => rfl
  | none =>
      cases BaseType.ofBytes? fresh.text.toList with
      | some base => rfl
      | none => exact alike.take_fst _

theorem nameToken_snd_start (lexeme : Lexeme)
    : (nameToken lexeme).2.start = lexeme.start := by
  unfold nameToken
  split
  · rfl
  · split <;> rfl

theorem nameToken_snd_sawNewline (lexeme : Lexeme)
    : (nameToken lexeme).2.sawNewline = lexeme.sawNewline := by
  unfold nameToken
  split
  · rfl
  · split <;> rfl

theorem Pending.verdict_alike (pending : Pending) (alike : lexeme.Alike origin state fresh)
    : pending.verdict lexeme = pending.verdict fresh := by
  cases pending <;>
    simp only [Pending.verdict, integerVerdict, doubleVerdict, alike.toList_text,
      nameToken_fst_alike alike]

theorem Pending.ending_alike (pending : Pending)
    (alike : lexeme.Alike origin (.pending pending) fresh)
    : (pending.ending lexeme).Alike origin (pending.ending fresh) where
  verdict := pending.verdict_alike alike
  unread := rfl
  sawNewline := by
    simp only [Pending.ending]
    split
    · simp only [nameToken_snd_sawNewline, alike.sawNewline]
    · exact alike.sawNewline
  start := by
    intro kind _
    simp only [Pending.ending]
    split
    · simp only [nameToken_snd_start, alike.start rfl]
    · exact alike.start rfl

/-- Two optional effects of a byte: both are missing, or both are there and alike. -/
inductive Step.AlikeIfAny (origin : Location) : Option Step → Option Step → Prop
  | none : Step.AlikeIfAny origin none none
  | some {step fresh : Step} (alike : step.Alike origin fresh)
    : Step.AlikeIfAny origin (some step) (some fresh)

theorem Step.AlikeIfAny.getD {step? fresh? : Option Step} {step fresh : Step}
    (continued : Step.AlikeIfAny origin step? fresh?) (otherwise : step.Alike origin fresh)
    : (step?.getD step).Alike origin (fresh?.getD fresh) := by
  cases continued with
  | none => exact otherwise
  | some alike => exact alike

section Pending

variable {pending : Pending} (alike : lexeme.Alike origin (.pending pending) fresh)

include alike

theorem Pending.grow_alike (grown : Pending) (byte : UInt8)
    : Step.AlikeIfAny origin (grown.grow lexeme byte) (grown.grow fresh byte) :=
  .some (.next ((alike.push byte).goto (fun _ => rfl) (fun entered => by cases entered)))

theorem extendSign_alike (expected : Char) (sign : Operator) (byte : UInt8)
    : Step.AlikeIfAny origin (extendSign? expected sign lexeme byte)
        (extendSign? expected sign fresh byte) := by
  unfold extendSign?
  split
  · exact .some (.done (alike.ending rfl))
  · exact .none

theorem openComment_alike (byte : UInt8)
    : Step.AlikeIfAny origin (openComment? lexeme byte) (openComment? fresh byte) := by
  unfold openComment?
  split
  · exact .some (.next (alike.goto (fun _ => rfl) (fun entered => by cases entered)))
  · -- the comment takes the place of the slash, which the pending state has seen
    refine .some (.next { alike with depth := rfl, start := ?_, commentStart := ?_ })
    · intro entered
      cases entered
    · intro _
      exact alike.start rfl
  · exact .none

theorem nilableType_alike (byte : UInt8)
    : Step.AlikeIfAny origin (nilableType? lexeme byte) (nilableType? fresh byte) := by
  unfold nilableType?
  rw [nameToken_fst_alike alike]
  split
  · split
    · exact .some (.done (alike.ending rfl))
    · exact .none
  · exact .none

theorem Pending.continued_alike (byte : UInt8)
    : Step.AlikeIfAny origin (pending.continued? lexeme byte) (pending.continued? fresh byte) := by
  have grows := fun grown => Pending.grow_alike alike grown byte
  cases pending with
  | less | greater | bang | question | assign | minus => exact extendSign_alike alike ..
  | slash => exact openComment_alike alike byte
  | underscore | point | exponentSign | exponent =>
      simp only [Pending.continued?]
      split
      · exact grows _
      · exact .none
  | name =>
      simp only [Pending.continued?]
      split
      · exact grows _
      · exact nilableType_alike alike byte
  | integer =>
      simp only [Pending.continued?]
      split
      · exact grows _
      · split
        · exact grows _
        · split
          · exact grows _
          · exact .none
  | fraction | exponentMark =>
      simp only [Pending.continued?]
      split
      · exact grows _
      · split
        · exact grows _
        · exact .none
  | emptyString =>
      simp only [Pending.continued?]
      split
      · exact .some (.next (alike.goto (fun _ => rfl) (fun entered => by cases entered)))
      · exact .none

theorem Pending.step_alike (byte : UInt8)
    : (pending.step lexeme byte).Alike origin (pending.step fresh byte) :=
  (Pending.continued_alike alike byte).getD (.done (pending.ending_alike alike))

end Pending

section BlockComment

variable {phase : CommentPhase} (alike : lexeme.Alike origin (.blockComment phase) fresh)

include alike

theorem commentBody_alike (byte : UInt8)
    : (commentBody lexeme byte).Alike origin (commentBody fresh byte) := by
  have stays : ∀ next : CommentPhase, lexeme.Alike origin (.blockComment next) fresh :=
    fun next => alike.goto (fun entered => by cases entered) (fun _ => rfl)
  unfold commentBody
  split
  · exact .next (stays _)
  · exact .next (stays _)
  · exact .next { stays _ with sawNewline := rfl }
  · exact .next (stays _)

theorem CommentPhase.step_alike (byte : UInt8)
    : (phase.step lexeme byte).Alike origin (phase.step fresh byte) := by
  unfold CommentPhase.step
  split
  · rw [alike.depth]
    refine .next { alike with
      depth := rfl, start := ?_, commentStart := fun _ => alike.commentStart rfl }
    split
    · exact fun entered => by cases entered
    · exact fun entered => by cases entered
  · exact .next { alike with
      depth := by rw [alike.depth], start := fun entered => by cases entered }
  · exact commentBody_alike alike byte

end BlockComment

section String

variable {phase : StringPhase} (alike : lexeme.Alike origin (.string phase) fresh)

include alike

theorem Lexeme.Alike.toString (next : StringPhase) : lexeme.Alike origin (.string next) fresh :=
  alike.goto (fun _ => rfl) (fun entered => by cases entered)

theorem Lexeme.Alike.toBody (form : StringForm) : lexeme.Alike origin form.body fresh := by
  cases form with
  | single => exact alike.toString _
  | multi => exact alike.toString _

theorem take_alike (kind : String → TokenKind)
    : (Step.accept (lexeme.take kind).1 (lexeme.take kind).2).Alike origin
        (.accept (fresh.take kind).1 (fresh.take kind).2) := by
  rw [alike.take_fst]
  exact .done
    { verdict := rfl, unread := rfl, sawNewline := alike.sawNewline,
      start := fun _ _ => alike.start rfl }

theorem singleText_alike (byte : UInt8)
    : (singleText lexeme byte).Alike origin (singleText fresh byte) := by
  unfold singleText
  split
  · exact take_alike alike _
  · exact .next (alike.toString _)
  · split
    · exact .done (alike.ending rfl)
    · exact .next ((alike.toString _).push byte)

theorem multiText_alike (byte : UInt8)
    : (multiText lexeme byte).Alike origin (multiText fresh byte) := by
  unfold multiText
  split
  · exact .next (alike.toString _)
  · exact .next ((alike.toString _).push byte)
  · exact .next ((alike.toString _).push byte)

theorem escapeStep_alike (form : StringForm) (byte : UInt8)
    : (escapeStep form lexeme byte).Alike origin (escapeStep form fresh byte) := by
  unfold escapeStep
  split
  · exact .next (alike.toString _)
  · exact .next ((alike.toBody form).push _)
  · exact .done (alike.ending rfl)

theorem hexStep_alike (form : StringForm) (byte : UInt8)
    : (hexStep form lexeme byte).Alike origin (hexStep form fresh byte) := by
  unfold hexStep
  have sameHex : lexeme.hex.toList = fresh.hex.toList := congrArg Array.toList alike.hex
  have sameSize : lexeme.hex.size = fresh.hex.size := congrArg Array.size alike.hex
  rw [sameHex, sameSize]
  split
  · split
    · exact .done (alike.ending rfl)
    · exact .next { alike.toString _ with hex := by simp [ByteBuffer.push, alike.hex] }
  · split
    · split
      · exact .next { alike.toBody form with
          text := by simp [ByteBuffer.pushChar, ByteBuffer.append, alike.text] }
      · exact .done (alike.ending rfl)
    · exact .done (alike.ending rfl)

theorem StringPhase.step_alike (byte : UInt8)
    : (phase.step lexeme byte).Alike origin (phase.step fresh byte) := by
  have pushed : ∀ next : StringPhase,
      (lexeme.push byte).Alike origin (.string next) (fresh.push byte) :=
    fun next => (alike.toString next).push byte
  cases phase with
  | opened =>
      simp only [StringPhase.step]
      split
      · exact .next (alike.goto (fun _ => rfl) (fun entered => by cases entered))
      · exact singleText_alike alike byte
  | body => exact singleText_alike alike byte
  | delimiter =>
      simp only [StringPhase.step]
      split
      · exact .next (alike.toString _)
      · exact .done (alike.ending rfl)
  | lineStart | lineQuote =>
      simp only [StringPhase.step]
      split
      · exact .next (pushed _)
      · exact multiText_alike alike byte
  | lineQuotes =>
      simp only [StringPhase.step]
      split
      · exact take_alike ((pushed .body).retract 4) _
      · exact multiText_alike alike byte
  | multiBody => exact multiText_alike alike byte
  | escape form => exact escapeStep_alike alike form byte
  | hexOpen form =>
      simp only [StringPhase.step]
      split
      · exact .next { alike.toString _ with hex := rfl }
      · exact .done (alike.ending rfl)
  | hex form => exact hexStep_alike alike form byte

end String

/-- The first byte of a token sets the place that the states of a token see. -/
theorem firstByte_alike (byte : UInt8) (alike : lexeme.Alike origin (.string .opened) fresh)
    : (firstByte lexeme byte).Alike origin (firstByte fresh byte) := by
  have begins : ∀ pending : Pending, lexeme.Alike origin (.pending pending) fresh :=
    fun pending => alike.goto (fun _ => rfl) (fun entered => by cases entered)
  unfold firstByte
  dsimp only
  split
  · exact .done (alike.ending rfl)
  · split
    · exact .next ((begins _).push byte)
    · split
      · exact .next ((begins _).push byte)
      · split
        · exact .next ((begins _).push byte)
        · split
          · exact .next alike
          · split
            · exact .next (begins _)
            · exact .done (alike.ending rfl)
            · exact .done (alike.ending rfl)

theorem State.step_alike (alike : lexeme.Alike origin state fresh) (here : Location)
    (byte : UInt8)
    : (state.step lexeme (here.movedTo origin) byte).Alike origin
        (state.step fresh here byte) := by
  have placed : ({ lexeme with start := here.movedTo origin } : Lexeme).Alike origin
      (.string .opened) { fresh with start := here } :=
    { alike with start := fun _ => rfl, commentStart := fun entered => by cases entered }
  cases state with
  | start =>
      simp only [State.step]
      split
      · exact .next alike
      · exact firstByte_alike byte placed
  | pending unfinished => exact unfinished.step_alike alike byte
  | lineComment =>
      simp only [State.step]
      split
      · exact .done (placed.ending rfl)
      · exact .next alike
  | blockComment phase => exact CommentPhase.step_alike alike byte
  | string phase => exact StringPhase.step_alike alike byte

theorem State.atEnd_alike (alike : lexeme.Alike origin state fresh) (here : Location)
    : (state.atEnd lexeme (here.movedTo origin)).Alike origin (state.atEnd fresh here) := by
  cases state with
  | pending unfinished => exact unfinished.ending_alike alike
  | string phase => exact alike.ending rfl
  | start | lineComment | blockComment phase =>
      exact { verdict := rfl, unread := rfl, sawNewline := alike.sawNewline,
              start := fun _ _ => rfl }

-----------------------------------------------------------------------------------------
-- One token
-----------------------------------------------------------------------------------------

/-- Two runs that end alike, with the same bytes left. -/
structure Run.Alike (origin : Location) (run fresh : Run) : Prop where
  verdict : run.verdict = fresh.verdict
  rest : run.rest = fresh.rest
  stoppedAt : run.stoppedAt = fresh.stoppedAt.movedTo origin
  next : run.next = fresh.next.movedTo origin
  counted : fresh.next.IsCounted
  sawNewline : run.lexeme.sawNewline = fresh.lexeme.sawNewline
  start : ∀ kind, fresh.verdict = .ok kind → run.lexeme.start = fresh.lexeme.start.movedTo origin
  leftCommentOpen : run.leftCommentOpen = fresh.leftCommentOpen
  commentStart
    : fresh.leftCommentOpen = true
      → run.lexeme.commentStart = fresh.lexeme.commentStart.movedTo origin

/-- Alike lexemes run alike, by induction over the bytes: each byte keeps them alike or ends
both tokens.
-/
theorem run_alike (alike : lexeme.Alike origin state fresh) {here : Location}
    (counted : here.IsCounted) (bytes : List UInt8)
    : (run state lexeme (here.movedTo origin) bytes).Alike origin
        (run state fresh here bytes) := by
  induction bytes generalizing state lexeme fresh here with
  | nil =>
      have ends := State.atEnd_alike alike here
      exact {
        verdict := ends.verdict, rest := rfl, stoppedAt := rfl, next := rfl, counted
        sawNewline := ends.sawNewline, start := ends.start, leftCommentOpen := rfl
        commentStart := by
          intro inComment
          cases state with
          | blockComment phase => exact alike.commentStart rfl
          | start | pending _ | lineComment | string _ => cases inComment }
  | cons byte rest ih =>
      have stepped := State.step_alike alike here byte
      have moves := Location.advance_movedTo counted origin byte
      unfold run
      -- only that the two steps are alike matters from here on
      generalize state.step lexeme (here.movedTo origin) byte = step,
        state.step fresh here byte = freshStep at stepped ⊢
      cases stepped with
      | next alike =>
          rw [← moves]
          exact ih alike (counted.advance byte)
      | @done ending fresh ends =>
          have unread := ends.unread
          refine {
            verdict := ends.verdict, rest := ?_, stoppedAt := rfl, next := ?_, counted := ?_
            sawNewline := ends.sawNewline, start := ends.start, leftCommentOpen := rfl
            commentStart := fun inComment => by cases inComment }
          · dsimp only
            rw [unread]
          · dsimp only
            rw [unread, ← moves]
            split <;> rfl
          · dsimp only
            split
            · exact counted
            · exact counted.advance byte

/-- What a run leaves is the end of its bytes, and it stands where they end. -/
theorem run_rest_suffix (state : State) (lexeme : Lexeme) (here : Location) (bytes : List UInt8)
    : ∃ read, bytes = read ++ (run state lexeme here bytes).rest
      ∧ (run state lexeme here bytes).next = here.afterBytes read := by
  induction bytes generalizing state lexeme here with
  | nil => exact ⟨[], rfl, rfl⟩
  | cons byte rest ih =>
      unfold run
      split
      · next state lexeme _ =>
          obtain ⟨read, split, place⟩ := ih state lexeme (here.advance byte)
          exact ⟨byte :: read, congrArg (byte :: ·) split, place⟩
      · next ending _ =>
          cases unread : ending.unread with
          | true => exact ⟨[], by simp [Location.afterBytes]⟩
          | false => exact ⟨[byte], by simp [Location.afterBytes]⟩

/-- Only the end of the bytes leaves a comment open. -/
theorem run_rest_of_leftCommentOpen {here : Location} {bytes : List UInt8}
    (leftOpen : (run state lexeme here bytes).leftCommentOpen = true)
    : (run state lexeme here bytes).rest = [] := by
  induction bytes generalizing state lexeme here with
  | nil => rfl
  | cons byte rest ih =>
      unfold run at leftOpen ⊢
      split at leftOpen
      · exact ih leftOpen
      · cases leftOpen

theorem Lexeme.reset_alike (lexeme fresh : Lexeme)
    : lexeme.reset.Alike origin .start fresh.reset where
  text := rfl
  hex := rfl
  depth := rfl
  sawNewline := rfl
  start := fun entered => by cases entered
  commentStart := fun entered => by cases entered

end Lexical

-----------------------------------------------------------------------------------------
-- Many tokens
-----------------------------------------------------------------------------------------

/-- The warning about a comment that starts at `location` and has no end. -/
def openCommentWarning (location : Location) : Diagnostic where
  code := .lexical
  severity := .warning
  message := "unterminated block comment"
  location? := some location

/-- A diagnostic of a text that starts at `origin`. -/
def Diagnostic.movedTo (diagnostic : Diagnostic) (origin : Location) : Diagnostic :=
  { diagnostic with location? := diagnostic.location?.map (·.movedTo origin) }

/-- A reading of a text that starts at `origin`. -/
def Reading.movedTo (origin : Location) : Reading → Reading
  | .ok token => .ok { token with location := token.location.movedTo origin }
  | .error error => .error { error with location := error.location.movedTo origin }

/-- Marks the first token as standing after a line break if `carried` says so. -/
def Reading.markFirst (carried : Bool) : List Reading → List Reading
  | [] => []
  | .error error :: later => .error error :: markFirst carried later
  | .ok token :: later =>
      .ok { token with afterNewline := carried || token.afterNewline } :: later

namespace Scanner

/-- The scanner after a number of readings. -/
def after (scanner : Scanner) : Nat → Scanner
  | 0 => scanner
  | count + 1 => after scanner.next.2 count

/-- What a number of readings give. -/
def firstReadings (scanner : Scanner) : Nat → List Reading
  | 0 => []
  | count + 1 => scanner.next.1 :: firstReadings scanner.next.2 count

theorem readings_fst (scanner : Scanner)
    : scanner.readings.1
      = scanner.next.1 :: if scanner.next.1.isEnd then [] else scanner.next.2.readings.1 := by
  rw [readings]
  split
  next reading after read =>
    rw [read]
    cases reading.isEnd <;> simp

/-- A scanner and one on the same bytes that takes them to start at `origin`. -/
structure Resumes (origin : Location) (scanner fresh : Scanner) : Prop where
  rest : scanner.rest = fresh.rest
  location : scanner.location = fresh.location.movedTo origin
  counted : fresh.location.IsCounted

variable {origin : Location} {scanner fresh : Scanner}

/-- The run that reads the next token. -/
def run (scanner : Scanner) : Lexical.Run :=
  Lexical.run .start scanner.lexeme.reset scanner.location scanner.rest

theorem Resumes.run (resumes : scanner.Resumes origin fresh)
    : scanner.run.Alike origin fresh.run := by
  unfold Scanner.run
  rw [resumes.rest, resumes.location]
  exact Lexical.run_alike (Lexical.Lexeme.reset_alike ..) resumes.counted _

theorem next_location (scanner : Scanner) : scanner.next.2.location = scanner.run.next := by
  unfold next
  dsimp only
  split <;> rfl

theorem Resumes.next (resumes : scanner.Resumes origin fresh)
    : scanner.next.2.Resumes origin fresh.next.2 where
  rest := by rw [next_rest, next_rest]; exact resumes.run.rest
  location := by rw [next_location, next_location]; exact resumes.run.next
  counted := by rw [next_location]; exact resumes.run.counted

theorem next_fst (scanner : Scanner)
    : scanner.next.1
      = match scanner.run.verdict with
        | .error fault => .error { fault, location := scanner.run.stoppedAt }
        | .ok kind =>
            .ok {
              kind
              afterNewline := scanner.afterNewline || scanner.run.lexeme.sawNewline
              location := scanner.run.lexeme.start } := by
  unfold next
  dsimp only [run]
  split <;> simp_all

theorem next_afterNewline (scanner : Scanner)
    : scanner.next.2.afterNewline
      = match scanner.run.verdict with
        | .error _ => scanner.afterNewline
        | .ok kind => decide (kind = .endOfLine) := by
  unfold next
  dsimp only [run]
  split <;> simp_all

/-- With the same line break behind them, two scanners read alike. By induction on the number
of readings.
-/
theorem Resumes.firstReadings (resumes : scanner.Resumes origin fresh)
    (sameBreak : scanner.afterNewline = fresh.afterNewline) (count : Nat)
    : scanner.firstReadings count
      = (fresh.firstReadings count).map (Reading.movedTo origin) := by
  induction count generalizing scanner fresh with
  | zero => rfl
  | succ count ih =>
      have later := ih resumes.next (by
        rw [next_afterNewline, next_afterNewline, resumes.run.verdict, sameBreak])
      simp only [Scanner.firstReadings, List.map_cons, later]
      congr 1
      rw [next_fst, next_fst, resumes.run.verdict]
      cases read : fresh.run.verdict with
      | error fault => simp only [Reading.movedTo, resumes.run.stoppedAt]
      | ok kind =>
          simp only [Reading.movedTo, resumes.run.start kind read, resumes.run.sawNewline,
            sameBreak]

/-- A line break that only one scanner has behind it marks its first token. Faults before that
token keep the line break, so the induction goes on; the token uses it up.
-/
theorem Resumes.firstReadings_markFirst (resumes : scanner.Resumes origin fresh)
    (noBreak : fresh.afterNewline = false) (count : Nat)
    : scanner.firstReadings count
      = Reading.markFirst scanner.afterNewline
          ((fresh.firstReadings count).map (Reading.movedTo origin)) := by
  induction count generalizing scanner fresh with
  | zero => rfl
  | succ count ih =>
      have nextBreak := next_afterNewline scanner
      have nextFreshBreak := next_afterNewline fresh
      simp only [Scanner.firstReadings, List.map_cons]
      rw [next_fst, next_fst]
      rw [resumes.run.verdict] at nextBreak ⊢
      cases read : fresh.run.verdict with
      | error fault =>
          simp only [read] at nextBreak nextFreshBreak
          simp only [Reading.movedTo, Reading.markFirst, resumes.run.stoppedAt]
          rw [ih resumes.next (nextFreshBreak.trans noBreak), nextBreak]
      | ok kind =>
          simp only [read] at nextBreak nextFreshBreak
          simp only [Reading.movedTo, Reading.markFirst, resumes.run.start kind read,
            resumes.run.sawNewline, noBreak, Bool.false_or]
          rw [resumes.next.firstReadings (nextBreak.trans nextFreshBreak.symm)]

/-- The warning that reading the next token adds, if it does. -/
def newWarnings (scanner : Scanner) : List Diagnostic :=
  if scanner.run.leftCommentOpen then [openCommentWarning scanner.run.lexeme.commentStart]
  else []

/-- A comment is left open once: then there are no bytes left. -/
def WarnsAtEnd (scanner : Scanner) : Prop :=
  scanner.warnings = {}
    ∨ scanner.rest = []
      ∧ ∃ location, scanner.warnings = ({} : DiagnosticQueue).add (openCommentWarning location)

theorem next_warnings (scanner : Scanner)
    : scanner.next.2.warnings = scanner.warnings.addAll scanner.newWarnings := by
  unfold next newWarnings run
  generalize Lexical.run .start scanner.lexeme.reset scanner.location scanner.rest = ended
  dsimp only
  cases ended.leftCommentOpen with
  | true => cases ended.verdict <;> rfl
  | false => cases ended.verdict <;> rfl

theorem newWarnings_of_rest_eq_nil (empty : scanner.rest = []) : scanner.newWarnings = [] := by
  simp [newWarnings, run, empty, Lexical.run, Lexical.State.inBlockComment]

theorem WarnsAtEnd.next (warnsAtEnd : scanner.WarnsAtEnd) : scanner.next.2.WarnsAtEnd := by
  unfold WarnsAtEnd
  rw [next_warnings, next_rest]
  rcases warnsAtEnd with quiet | ⟨empty, location, warned⟩
  · rw [quiet]
    unfold newWarnings
    split
    · next leftOpen =>
        exact .inr ⟨Lexical.run_rest_of_leftCommentOpen leftOpen, _, rfl⟩
    · exact .inl rfl
  · rw [newWarnings_of_rest_eq_nil empty, empty]
    exact .inr ⟨rfl, location, warned⟩

/-- Reading keeps every warning that it adds. -/
theorem WarnsAtEnd.kept_next (warnsAtEnd : scanner.WarnsAtEnd)
    : scanner.next.2.warnings.kept = scanner.warnings.kept ++ scanner.newWarnings := by
  rw [next_warnings]
  rcases warnsAtEnd with quiet | ⟨empty, -⟩
  · rw [quiet]
    unfold newWarnings
    split <;> rfl
  · rw [newWarnings_of_rest_eq_nil empty, List.append_nil]
    rfl

theorem Resumes.newWarnings (resumes : scanner.Resumes origin fresh)
    : scanner.newWarnings = fresh.newWarnings.map (·.movedTo origin) := by
  unfold Scanner.newWarnings
  rw [resumes.run.leftCommentOpen]
  split
  · next leftOpen =>
      rw [resumes.run.commentStart leftOpen]
      rfl
  · rfl

theorem Resumes.kept_after (resumes : scanner.Resumes origin fresh)
    (warnsAtEnd : scanner.WarnsAtEnd) (freshWarnsAtEnd : fresh.WarnsAtEnd)
    {earlier : List Diagnostic}
    (kept : scanner.warnings.kept
      = earlier ++ fresh.warnings.kept.map (·.movedTo origin)) (count : Nat)
    : (scanner.after count).warnings.kept
      = earlier ++ (fresh.after count).warnings.kept.map (·.movedTo origin) := by
  induction count generalizing scanner fresh with
  | zero => exact kept
  | succ count ih =>
      refine ih resumes.next warnsAtEnd.next freshWarnsAtEnd.next ?_
      rw [warnsAtEnd.kept_next, freshWarnsAtEnd.kept_next, kept, resumes.newWarnings,
        List.map_append, List.append_assoc]

theorem WarnsAtEnd.after (warnsAtEnd : scanner.WarnsAtEnd) (count : Nat)
    : (scanner.after count).WarnsAtEnd := by
  induction count generalizing scanner with
  | zero => exact warnsAtEnd
  | succ count ih => exact ih warnsAtEnd.next

/-- What is unread after some readings is the end of what was unread, and stands where the
bytes before it end.
-/
theorem after_rest_suffix (scanner : Scanner) (count : Nat)
    : ∃ read, scanner.rest = read ++ (scanner.after count).rest
      ∧ (scanner.after count).location = scanner.location.afterBytes read := by
  induction count generalizing scanner with
  | zero => exact ⟨[], rfl, rfl⟩
  | succ count ih =>
      obtain ⟨read, split, place⟩ :=
        Lexical.run_rest_suffix .start scanner.lexeme.reset scanner.location scanner.rest
      obtain ⟨later, splitLater, placeLater⟩ := ih scanner.next.2
      rw [next_rest] at splitLater
      rw [next_location] at placeLater
      refine ⟨read ++ later, ?_, ?_⟩
      · rw [split, splitLater, List.append_assoc]
        rfl
      · rw [Scanner.after, placeLater]
        simp only [run, place, Location.afterBytes, List.foldl_append]

/-- Nothing but the place and a line break just read carries over from one reading to the next.
After any number of readings of `source`, whatever they gave, the unread bytes are its end, and
all further readings and warnings are those of a new scanner on these bytes, with their places
moved to where the bytes stand and the first token marked if a line break was just read.
-/
theorem firstReadings_after (source : List UInt8) (count : Nat)
    : let scanner := ({ rest := source } : Scanner).after count
      let fresh : Scanner := { rest := scanner.rest }
      ∃ read,
        source = read ++ scanner.rest
        ∧ ∀ more,
            scanner.firstReadings more
              = Reading.markFirst scanner.afterNewline
                  ((fresh.firstReadings more).map
                    (Reading.movedTo (Location.start.afterBytes read)))
            ∧ (scanner.after more).warnings.kept
              = scanner.warnings.kept
                ++ (fresh.after more).warnings.kept.map
                    (·.movedTo (Location.start.afterBytes read)) := by
  intro scanner fresh
  obtain ⟨read, split, place⟩ := after_rest_suffix { rest := source } count
  have resumes : scanner.Resumes (Location.start.afterBytes read) fresh :=
    { rest := rfl, location := place, counted := Location.isCounted_start }
  have warnsAtEnd : scanner.WarnsAtEnd := WarnsAtEnd.after (.inl rfl) count
  refine ⟨read, split, fun more => ⟨resumes.firstReadings_markFirst rfl more, ?_⟩⟩
  exact resumes.kept_after warnsAtEnd (.inl rfl) (List.append_nil _).symm more

end Scanner

end ExprCompiler

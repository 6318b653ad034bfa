import ExprCompiler.Lexical.ByteReader
import ExprCompiler.Proofs.Lexical.Positions

/-! Reading byte by byte. A byte that is given back is the first of the unread bytes again, at its
old place; the counters of 32 bits do not wrap in a source of fewer than `2 ^ 32 - 1` bytes; and the
count of digits is the number of digits collected. Main statement: call by call, the scanner over a
reader gives the readings, and stands at the places, of the scanner over the unread bytes.
-/

namespace ExprCompiler

namespace PlaceCounter

theorem toNat_add_one {word : UInt32} (fits : word.toNat + 1 < UInt32.size)
    : (word + 1).toNat = word.toNat + 1 := by
  rw [UInt32.toNat_add]
  exact Nat.mod_eq_of_lt fits

/-- A counter that is not at its end counts as positions do. -/
theorem location_count (counter : PlaceCounter) (byte : UInt8)
    (line : counter.line.toNat + 1 < UInt32.size) (column : counter.column.toNat + 1 < UInt32.size)
    : (counter.count byte).location = counter.location.advance byte := by
  unfold count Location.advance
  split
  · simp only [location, toNat_add_one line]
    rfl
  · simp only [location, toNat_add_one column]

theorem count_le (counter : PlaceCounter) (byte : UInt8)
    : (counter.count byte).line.toNat ≤ counter.line.toNat + 1
      ∧ (counter.count byte).column.toNat ≤ counter.column.toNat + 1 := by
  have one : (1 : UInt32).toNat = 1 := rfl
  unfold count
  split
  · simp only [UInt32.toNat_add, one]
    exact ⟨Nat.mod_le .., Nat.succ_le_succ (Nat.zero_le _)⟩
  · simp only [UInt32.toNat_add, one]
    exact ⟨Nat.le_succ _, Nat.mod_le ..⟩

end PlaceCounter

namespace ByteReader

/-- The counters of a reader are no further than its position, and the source ends before they
could wrap. A byte that was given back stands right before the next one.
-/
structure Sound (reader : ByteReader) : Prop where
  bounded : reader.source.length + 1 < UInt32.size
  within : reader.position ≤ reader.source.length
  line : reader.next.line.toNat ≤ reader.position + 1
  column : reader.next.column.toNat ≤ reader.position + 1
  given
    : ∀ byte place, reader.pushback? = some (byte, place) →
        reader.next.location = place.location.advance byte

theorem sound_start {source : List UInt8} (bounded : source.length + 1 < UInt32.size)
    : ({ source } : ByteReader).Sound where
  bounded := bounded
  within := Nat.zero_le _
  line := Nat.le_refl 1
  column := Nat.le_refl 1
  given := by simp

namespace Sound

variable {reader after : ByteReader} {byte : UInt8}

/-- If there is no byte to read, none is unread, and the reader stays where it is. -/
theorem read_none (sound : reader.Sound) (reads : reader.read = (none, after))
    : after.Sound ∧ reader.unreadBytes = [] ∧ after.unreadBytes = []
      ∧ after.current.location = reader.location ∧ after.location = reader.location := by
  unfold read at reads
  cases pushed : reader.pushback? with
  | some given => simp [pushed] at reads
  | none =>
      simp only [pushed] at reads
      split at reads
      · next atEnd =>
          cases reads
          have nothing : reader.source.drop reader.position = [] := by simpa using atEnd
          refine ⟨{ sound with given := ?_ }, ?_, ?_, ?_, ?_⟩ <;>
            simp [unreadBytes, location, pushed, nothing]
      · cases reads

/-- A byte is read where the reader stands, and then the reader stands after it. -/
theorem read_some (sound : reader.Sound) (reads : reader.read = (some byte, after))
    : after.Sound ∧ after.pushback? = none ∧ after.current.location = reader.location
      ∧ after.location = reader.location.advance byte := by
  unfold read at reads
  cases pushed : reader.pushback? with
  | some given =>
      simp only [pushed] at reads
      cases reads
      refine ⟨{ sound with given := by simp }, rfl, ?_, ?_⟩
      · simp [location, pushed]
      · simpa [location, pushed] using sound.given _ _ pushed
  | none =>
      simp only [pushed] at reads
      split at reads
      · cases reads
      · next found =>
          cases reads
          have inside := (List.getElem?_eq_some_iff.mp found).1
          have bounded := sound.bounded
          have line := sound.line
          have column := sound.column
          have counted := reader.next.location_count byte (by omega) (by omega)
          have atMost := reader.next.count_le byte
          refine ⟨⟨bounded, inside, ?_, ?_, by simp⟩, rfl, ?_, ?_⟩
          · exact Nat.le_trans atMost.1 (Nat.succ_le_succ line)
          · exact Nat.le_trans atMost.2 (Nat.succ_le_succ column)
          · simp [location, pushed]
          · simpa [location, pushed] using counted

/-- A byte that is given back is unread again, at the place where it was read. -/
theorem unread (sound : reader.Sound) (reads : reader.read = (some byte, after))
    : (after.unread (some byte)).Sound
      ∧ (after.unread (some byte)).unreadBytes = reader.unreadBytes
      ∧ (after.unread (some byte)).location = reader.location := by
  obtain ⟨soundAfter, empty, current, moved⟩ := sound.read_some reads
  have next : after.next.location = after.current.location.advance byte := by
    rw [current, ← moved, location, empty]
  refine ⟨{ soundAfter with given := ?_ }, ?_, current⟩
  · rintro _ _ ⟨⟩
    exact next
  · rw [unreadBytes_read reads]
    simp [ByteReader.unread, unreadBytes, empty]

end Sound

end ByteReader

-----------------------------------------------------------------------------------------
-- Digits of a code escape
-----------------------------------------------------------------------------------------

namespace Lexical

/-- The lexeme after a step. -/
def Step.lexeme : Step → Lexeme
  | .next _ lexeme => lexeme
  | .done ending => ending.lexeme

section Digits

variable (lexeme : Lexeme) (here : Location) (byte : UInt8)

theorem hex_nameToken : (nameToken lexeme).2.hex = lexeme.hex := by
  unfold nameToken
  split
  · rfl
  · split <;> rfl

theorem Pending.hex_ending (pending : Pending)
    : (pending.ending lexeme).lexeme.hex = lexeme.hex := by
  unfold Pending.ending
  dsimp only
  split
  · exact hex_nameToken lexeme
  · rfl

theorem Pending.hex_step (pending : Pending)
    : (pending.step lexeme byte).lexeme.hex = lexeme.hex := by
  unfold Pending.step
  cases continued : pending.continued? lexeme byte with
  | none => exact pending.hex_ending lexeme
  | some step =>
      cases pending <;>
        simp only [continued?, extendSign?, openComment?, nilableType?, grow] at continued <;>
        grind [Step.lexeme, Step.accept, Lexeme.push]

theorem hex_singleText : (singleText lexeme byte).lexeme.hex = lexeme.hex := by
  unfold singleText
  split
  · rfl
  · rfl
  · split <;> rfl

theorem hex_multiText : (multiText lexeme byte).lexeme.hex = lexeme.hex := by
  unfold multiText
  split <;> rfl

theorem hex_escapeStep (form : StringForm)
    : (escapeStep form lexeme byte).lexeme.hex = lexeme.hex := by
  unfold escapeStep
  split <;> rfl

theorem CommentPhase.hex_step (phase : CommentPhase)
    : (phase.step lexeme byte).lexeme.hex = lexeme.hex := by
  unfold CommentPhase.step commentBody
  split
  · rfl
  · rfl
  · split <;> rfl

theorem hex_firstByte : (firstByte lexeme byte).lexeme.hex = lexeme.hex := by
  unfold firstByte
  grind [Step.lexeme, Step.accept, Step.reject, Lexeme.push]

end Digits

/-- The digits that were collected are counted, and there are at most eight. -/
def Counts (digits : UInt8) (lexeme : Lexeme) : Prop :=
  digits.toNat = lexeme.hex.size ∧ lexeme.hex.size ≤ 8

theorem Counts.of_hex_eq {digits : UInt8} {lexeme later : Lexeme} (counts : Counts digits lexeme)
    (same : later.hex = lexeme.hex)
    : Counts digits later := by
  rwa [Counts, same]

/-- A digit more is counted unless there are eight. -/
theorem Counts.push {digits byte : UInt8} {lexeme : Lexeme} (counts : Counts digits lexeme)
    (notFull : lexeme.hex.size ≠ 8)
    : Counts (digits + 1) { lexeme with hex := lexeme.hex.push byte } := by
  obtain ⟨same, atMost⟩ := counts
  have one : (1 : UInt8).toNat = 1 := rfl
  have grown : (lexeme.hex.push byte).size = lexeme.hex.size + 1 := Array.size_push _
  simp only [Counts, UInt8.toNat_add, one, same, grown]
  omega

/-- With a right count a step is what it is without one, and the count stays right. Only the states
of a code escape change it.
-/
theorem countedStep_eq {digits : UInt8} {lexeme : Lexeme} (counts : Counts digits lexeme)
    (state : State) (here : Location) (byte : UInt8)
    : (state.countedStep lexeme digits here byte).1 = state.step lexeme here byte
      ∧ Counts (state.countedStep lexeme digits here byte).2
          (state.step lexeme here byte).lexeme := by
  cases state with
  | start =>
      refine ⟨rfl, counts.of_hex_eq ?_⟩
      simp only [State.step]
      split
      · rfl
      · exact hex_firstByte _ byte
  | pending unfinished => exact ⟨rfl, counts.of_hex_eq (unfinished.hex_step lexeme byte)⟩
  | lineComment =>
      refine ⟨rfl, counts.of_hex_eq ?_⟩
      simp only [State.step]
      split <;> rfl
  | blockComment phase => exact ⟨rfl, counts.of_hex_eq (phase.hex_step lexeme byte)⟩
  | string phase =>
      cases phase with
      | opened =>
          refine ⟨rfl, counts.of_hex_eq ?_⟩
          simp only [State.step, StringPhase.step]
          split
          · rfl
          · exact hex_singleText lexeme byte
      | body => exact ⟨rfl, counts.of_hex_eq (hex_singleText lexeme byte)⟩
      | delimiter =>
          refine ⟨rfl, counts.of_hex_eq ?_⟩
          simp only [State.step, StringPhase.step]
          split <;> rfl
      | lineStart | lineQuote | lineQuotes =>
          refine ⟨rfl, counts.of_hex_eq ?_⟩
          simp only [State.step, StringPhase.step]
          split
          · rfl
          · exact hex_multiText lexeme byte
      | multiBody => exact ⟨rfl, counts.of_hex_eq (hex_multiText lexeme byte)⟩
      | escape form => exact ⟨rfl, counts.of_hex_eq (hex_escapeStep lexeme byte form)⟩
      | hexOpen form =>
          refine ⟨rfl, ?_⟩
          simp only [State.countedStep, State.step, StringPhase.step]
          split
          · exact ⟨rfl, Nat.zero_le _⟩
          · exact counts
      | hex form =>
          have full : digits = 8 ↔ lexeme.hex.size = 8 := by
            rw [← counts.1, ← UInt8.toNat_inj]
            rfl
          simp only [State.countedStep, State.step, StringPhase.step, hexStep, full]
          split
          · split
            · exact ⟨rfl, counts⟩
            · next notFull => exact ⟨rfl, counts.push notFull⟩
          · refine ⟨rfl, counts.of_hex_eq ?_⟩
            split
            · split <;> rfl
            · rfl

theorem State.hex_atEnd (state : State) (lexeme : Lexeme) (here : Location)
    : (state.atEnd lexeme here).lexeme.hex = lexeme.hex := by
  unfold State.atEnd
  split
  · exact Pending.hex_ending lexeme _
  all_goals rfl

-----------------------------------------------------------------------------------------
-- Tokens
-----------------------------------------------------------------------------------------

/-- The token of a reader is the one of its unread bytes, and the reader stands where their run
does.
-/
structure ByteRun.Matches (readRun : ByteRun) (run : Run) : Prop where
  verdict : readRun.verdict = run.verdict
  lexeme : readRun.lexeme = run.lexeme
  leftCommentOpen : readRun.leftCommentOpen = run.leftCommentOpen
  rest : readRun.reader.unreadBytes = run.rest
  next : readRun.reader.location = run.next
  stoppedAt : readRun.reader.current.location = run.stoppedAt
  sound : readRun.reader.Sound
  counts : Counts readRun.digits readRun.lexeme

/-- The step at a byte that was read is the step at the place where the reader stood before. -/
theorem step_of_read {state : State} {lexeme : Lexeme} {digits laterDigits byte : UInt8}
    {reader after : ByteReader} {step : Step} (sound : reader.Sound) (counts : Counts digits lexeme)
    (reads : reader.read = (some byte, after))
    (steps : state.countedStep lexeme digits after.current.location byte = (step, laterDigits))
    : state.step lexeme reader.location byte = step ∧ Counts laterDigits step.lexeme := by
  obtain ⟨-, -, current, -⟩ := sound.read_some reads
  obtain ⟨same, countsAfter⟩ := countedStep_eq counts state after.current.location byte
  rw [steps] at same countsAfter
  rw [← same] at countsAfter
  exact ⟨by rw [← current, ← same], countsAfter⟩

/-- Reading a token goes through the same states as the run over the unread bytes, by induction on
them.
-/
theorem readToken_matches (state : State) (lexeme : Lexeme) (digits : UInt8)
    (reader : ByteReader) (sound : reader.Sound) (counts : Counts digits lexeme)
    : (readToken state lexeme digits reader).Matches
        (run state lexeme reader.location reader.unreadBytes) := by
  fun_induction readToken state lexeme digits reader with
  | case1 state lexeme digits reader after reads ending =>
      obtain ⟨soundAfter, nothing, nothingAfter, current, stays⟩ := sound.read_none reads
      have same : ending = state.atEnd lexeme reader.location := by rw [← current]
      simp only [nothing, run, ByteReader.unread, ite_self, same]
      exact {
        verdict := rfl
        lexeme := rfl
        leftCommentOpen := rfl
        rest := nothingAfter
        next := stays
        stoppedAt := current
        sound := soundAfter
        counts := counts.of_hex_eq (state.hex_atEnd lexeme reader.location)
      }
  | case2 state lexeme digits reader byte after reads later laterLexeme laterDigits steps ih =>
      obtain ⟨soundAfter, -, -, moved⟩ := sound.read_some reads
      obtain ⟨sameStep, countsAfter⟩ := step_of_read sound counts reads steps
      rw [ByteReader.unreadBytes_read reads, run, sameStep, ← moved]
      exact ih soundAfter countsAfter
  | case3 state lexeme digits reader byte after reads ending laterDigits steps =>
      obtain ⟨soundAfter, -, current, moved⟩ := sound.read_some reads
      obtain ⟨soundBack, unreadBack, placeBack⟩ := sound.unread reads
      obtain ⟨sameStep, countsAfter⟩ := step_of_read sound counts reads steps
      have takes := ByteReader.unreadBytes_read reads
      rw [takes, run, sameStep, ← moved]
      -- The byte that ends the token is given back, or it is the last one of the token.
      by_cases back : ending.unread = true
      · simp only [back, if_true]
        exact {
          verdict := rfl
          lexeme := rfl
          leftCommentOpen := rfl
          rest := unreadBack.trans takes
          next := placeBack
          stoppedAt := current
          sound := soundBack
          counts := countsAfter
        }
      · simp only [back, Bool.false_eq_true, if_false]
        exact {
          verdict := rfl
          lexeme := rfl
          leftCommentOpen := rfl
          rest := rfl
          next := rfl
          stoppedAt := current
          sound := soundAfter
          counts := countsAfter
        }

end Lexical

namespace ByteScanner

/-- The scanner over the bytes that are not read yet. -/
def view (scanner : ByteScanner) : Scanner where
  rest := scanner.reader.unreadBytes
  location := scanner.reader.location
  afterNewline := scanner.afterNewline
  lexeme := scanner.lexeme
  warnings := scanner.warnings

/-- Its reader is sound, and the digits are counted. -/
structure Sound (scanner : ByteScanner) : Prop where
  reader : scanner.reader.Sound
  digits : Lexical.Counts scanner.digits scanner.lexeme

/-- The scanner after a number of tokens. -/
def after (scanner : ByteScanner) : Nat → ByteScanner
  | 0 => scanner
  | count + 1 => after scanner.scan.2 count

/-- One token is read as the scanner over the unread bytes reads it. -/
theorem scan_eq {scanner : ByteScanner} (sound : scanner.Sound)
    : scanner.scan.1 = scanner.view.next.1 ∧ scanner.scan.2.view = scanner.view.next.2
      ∧ scanner.scan.2.Sound := by
  have empty : Lexical.Counts 0 scanner.lexeme.reset := ⟨rfl, Nat.zero_le _⟩
  have matched :=
    Lexical.readToken_matches .start scanner.lexeme.reset 0 scanner.reader sound.reader empty
  have counts := matched.lexeme ▸ matched.counts
  unfold scan Scanner.next view
  simp only [matched.lexeme, matched.leftCommentOpen, matched.stoppedAt, matched.verdict]
  cases (Lexical.run .start scanner.lexeme.reset scanner.reader.location
    scanner.reader.unreadBytes).verdict with
  | error fault =>
      exact ⟨rfl, by simp only [matched.rest, matched.next], ⟨matched.sound, counts⟩⟩
  | ok kind => exact ⟨rfl, by simp only [matched.rest, matched.next], ⟨matched.sound, counts⟩⟩

/-- Token after token, by induction on their number. -/
theorem after_eq {scanner : ByteScanner} (sound : scanner.Sound) (count : Nat)
    : (scanner.after count).view = scanner.view.after count ∧ (scanner.after count).Sound := by
  induction count generalizing scanner with
  | zero => exact ⟨rfl, sound⟩
  | succ count ih =>
      obtain ⟨-, same, soundNext⟩ := scan_eq sound
      obtain ⟨sameLater, soundLater⟩ := ih soundNext
      exact ⟨by rw [after, Scanner.after, sameLater, same], soundLater⟩

/-- Every reading of a source that is read byte by byte is the reading of its bytes. Before it the
same bytes are left at the same place, and the digits are counted. A source of `2 ^ 32 - 1` bytes is
the first in which a counter may wrap.
-/
theorem scan_after_eq {source : List UInt8} (bounded : source.length + 1 < UInt32.size)
    (count : Nat)
    : ((ofBytes source).after count).scan.1 = ((Scanner.ofBytes source).after count).next.1
      ∧ ((ofBytes source).after count).view = (Scanner.ofBytes source).after count
      ∧ ((ofBytes source).after count).Sound := by
  have start : (ofBytes source).Sound := ⟨ByteReader.sound_start bounded, rfl, Nat.zero_le _⟩
  obtain ⟨same, sound⟩ := after_eq start count
  exact ⟨by rw [(scan_eq sound).1, same]; rfl, same, sound⟩

end ByteScanner

end ExprCompiler

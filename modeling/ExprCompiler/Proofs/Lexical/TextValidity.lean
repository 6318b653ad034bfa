import ExprCompiler.Proofs.Lexical.Lexemes
import ExprCompiler.Proofs.Lexical.StringItems
import ExprCompiler.Proofs.Text.Utf8Slices

/-! The texts of names and strings. Main statement: what is collected for the text of a token is
UTF-8 throughout, and a replacement character in it stands in the source of the token.
-/

namespace ExprCompiler

/-- Tokens that carry a text: names and strings. -/
def TokenKind.HasText (kind : TokenKind) (text : String) : Prop :=
  kind = .identifier text ∨ kind = .string text

theorem TokenKind.hasText_identifier {name text : String}
    : (TokenKind.identifier name).HasText text ↔ name = text := by
  simp [HasText]

theorem TokenKind.hasText_string {value text : String}
    : (TokenKind.string value).HasText text ↔ value = text := by
  simp [HasText]

namespace Lexical

open Utf8 (EndsAscii KeepsText endsAscii_concat)

/-- What a state hands over as the text of a token that ends in it. The third quote that closes a
literal on several lines is collected, and then taken back with what it closes.
-/
def State.collected (state : State) (lexeme : Lexeme) : ByteBuffer :=
  match state with
  | .string .lineQuotes => (lexeme.text.push 0x22).retract 4
  | _ => lexeme.text

/-- The buffer that a run hands over as the text of its token. -/
def collected (state : State) (lexeme : Lexeme) (here : Location) : List UInt8 → ByteBuffer
  | [] => state.collected lexeme
  | byte :: rest =>
      match state.step lexeme here byte with
      | .next state lexeme => collected state lexeme (here.advance byte) rest
      | .done _ => state.collected lexeme

/-- What is collected where a line of a literal starts: nothing, or lines that have ended. -/
def WholeLines (made : List UInt8) : Prop :=
  made = [] ∨ ∃ front, made = front ++ [0x0A]

/-- What is known in a state of the bytes that were read for a token, and of those that were
collected from them.
-/
def State.Holds (state : State) (read made : List UInt8) : Prop :=
  match state with
  | .pending .emptyString => EndsAscii read ∧ made = []
  | .pending _ => EndsAscii read
  | .string .opened | .string .delimiter => made = []
  | .string .lineStart => WholeLines made
  | .string .lineQuote => ∃ lines, WholeLines lines ∧ made = lines ++ [0x22]
  | .string .lineQuotes => ∃ lines, WholeLines lines ∧ made = lines ++ [0x22, 0x22]
  | _ => True

/-- A state in a token, after the bytes `read` of it. -/
structure Collects (state : State) (read : List UInt8) (lexeme : Lexeme) : Prop where
  settled : state.isSettled = true
  keeps : KeepsText read lexeme.text.toList
  holds : state.Holds read lexeme.text.toList

/-- A token of the bytes `read` hands a buffer over. -/
structure Yields (read : List UInt8) (buffer : ByteBuffer) (text : String) : Prop where
  ends : EndsAscii read
  keeps : KeepsText read buffer.toList
  isText : buffer.text = text

/-- A step on a byte after the bytes `read` of a token. -/
def Step.Collects (step : Step) (read : List UInt8) (byte : UInt8) (buffer : ByteBuffer) : Prop :=
  match step with
  | .next following grown => Lexical.Collects following (read ++ [byte]) grown
  | .done ending =>
      ∀ kind text,
        ending.verdict = .ok kind → kind.HasText text →
          Yields (if ending.unread then read else read ++ [byte]) buffer text

variable {byte : UInt8}

theorem ascii_of_ofUInt8 {char : Char} (isChar : Char.ofUInt8 byte = char)
    (ascii : char.toNat < 128)
    : byte < 0x80 := by
  subst isChar
  exact ascii

theorem ascii_of_isDigit (digit : Decimal.isDigit byte = true) : byte < 0x80 := by
  simp only [Decimal.isDigit] at digit
  grind

theorem ascii_of_isExponentMark (mark : isExponentMark byte = true) : byte < 0x80 := by
  simp only [isExponentMark] at mark
  grind

theorem ascii_of_isSign (sign : isSign byte = true) : byte < 0x80 := by
  simp only [isSign] at sign
  grind

theorem ascii_of_isNameByte (inName : isNameByte byte = true) : byte < 0x80 := by
  simp only [isNameByte, isLetter, Decimal.isDigit] at inName
  grind

theorem ascii_of_hexValue? (digit : (hexValue? byte).isSome = true) : byte < 0x80 := by
  simp only [hexValue?, Decimal.isDigit] at digit
  grind

-----------------------------------------------------------------------------------------
-- Pending lexemes
-----------------------------------------------------------------------------------------

variable {read : List UInt8} {lexeme : Lexeme} {here : Location}

theorem keepsText_push (keeps : KeepsText read lexeme.text.toList) (byte : UInt8)
    : KeepsText (read ++ [byte]) (lexeme.push byte).text.toList := by
  rw [toList_push]
  exact keeps.copy byte

theorem Pending.collects {pending : Pending}
    (isOther : pending ≠ .slash ∧ pending ≠ .emptyString) (ends : EndsAscii read)
    (keeps : KeepsText read lexeme.text.toList)
    : Collects (.pending pending) read lexeme where
  settled := by cases pending <;> first | rfl | exact absurd rfl isOther.1
  keeps := keeps
  holds := by cases pending <;> first | exact ends | exact absurd rfl isOther.2

/-- A pending lexeme may grow by a byte that is a character. -/
theorem Pending.collects_grow {pending : Pending} {step : Step}
    (grows : pending.grow lexeme byte = some step) (ascii : byte < 0x80)
    (keeps : KeepsText read lexeme.text.toList)
    (isOther : pending ≠ .slash ∧ pending ≠ .emptyString)
    : step.Collects read byte lexeme.text := by
  cases grows
  exact Pending.collects isOther (endsAscii_concat read ascii) (keepsText_push keeps byte)

/-- A sign or the name of a type has no text. -/
theorem Step.collects_accept {kind : TokenKind} (noText : ∀ text, ¬ kind.HasText text)
    (last : Lexeme) (buffer : ByteBuffer)
    : (Step.accept kind last).Collects read byte buffer := by
  intro other text isKind hasText
  cases isKind
  exact absurd hasText (noText text)

theorem Step.collects_reject (fault : LexicalFault) (last : Lexeme) (buffer : ByteBuffer)
    : (Step.reject fault last).Collects read byte buffer := by
  intro kind text isKind
  cases isKind

/-- By inspection of what continues a pending lexeme, all of it in characters of one byte. -/
theorem Pending.collects_continued? {pending : Pending}
    (collects : Collects (.pending pending) read lexeme) {step : Step}
    (continues : pending.continued? lexeme byte = some step)
    : step.Collects read byte lexeme.text := by
  have keeps := collects.keeps
  cases pending with
  | slash => cases collects.settled
  | less | greater | bang | question | assign | minus =>
      simp only [Pending.continued?, extendSign?] at continues
      split at continues
      · cases continues
        exact Step.collects_accept (by simp [TokenKind.HasText]) lexeme lexeme.text
      · cases continues
  | underscore =>
      simp only [Pending.continued?] at continues
      split at continues
      · next inName =>
          exact collects_grow continues (ascii_of_isNameByte inName) keeps (by decide)
      · cases continues
  | name =>
      simp only [Pending.continued?, nilableType?] at continues
      split at continues
      · next inName =>
          exact collects_grow continues (ascii_of_isNameByte inName) keeps (by decide)
      · split at continues
        · split at continues
          · cases continues
            exact Step.collects_accept (by simp [TokenKind.HasText]) lexeme lexeme.text
          · cases continues
        · cases continues
  | point | exponentSign | exponent =>
      simp only [Pending.continued?] at continues
      split at continues
      · next digit => exact collects_grow continues (ascii_of_isDigit digit) keeps (by decide)
      · cases continues
  | integer =>
      simp only [Pending.continued?] at continues
      split at continues
      · next digit => exact collects_grow continues (ascii_of_isDigit digit) keeps (by decide)
      · split at continues
        · next isPoint =>
            subst isPoint
            exact collects_grow continues (by decide) keeps (by decide)
        · split at continues
          · next isMark =>
              exact collects_grow continues (ascii_of_isExponentMark isMark) keeps (by decide)
          · cases continues
  | fraction =>
      simp only [Pending.continued?] at continues
      split at continues
      · next digit => exact collects_grow continues (ascii_of_isDigit digit) keeps (by decide)
      · split at continues
        · next isMark =>
            exact collects_grow continues (ascii_of_isExponentMark isMark) keeps (by decide)
        · cases continues
  | exponentMark =>
      simp only [Pending.continued?] at continues
      split at continues
      · next sign => exact collects_grow continues (ascii_of_isSign sign) keeps (by decide)
      · split at continues
        · next digit => exact collects_grow continues (ascii_of_isDigit digit) keeps (by decide)
        · cases continues
  | emptyString =>
      simp only [Pending.continued?] at continues
      split at continues
      · next isQuote =>
          cases continues
          exact ⟨rfl, keeps.drop (ascii_of_ofUInt8 isQuote (by decide)), collects.holds.2⟩
      · cases continues

/-- Of the lexemes that nothing continues, names and two quotes have a text. -/
theorem Pending.text_of_verdict {pending : Pending}
    (collects : Collects (.pending pending) read lexeme) {kind : TokenKind} {text : String}
    (isKind : pending.verdict lexeme = .ok kind) (hasText : kind.HasText text)
    : lexeme.text.text = text := by
  cases pending with
  | name =>
      simp only [Pending.verdict, nameToken, Lexeme.take] at isKind
      split at isKind
      · cases isKind
        simp [TokenKind.HasText] at hasText
      · split at isKind
        · cases isKind
          simp [TokenKind.HasText] at hasText
        · cases isKind
          exact TokenKind.hasText_identifier.mp hasText
  | emptyString =>
      cases isKind
      rw [ByteBuffer.text, collects.holds.2]
      exact (Utf8.decodeLossy_encode "").trans (TokenKind.hasText_string.mp hasText)
  | integer =>
      simp only [Pending.verdict, integerVerdict] at isKind
      split at isKind
      · cases isKind
        simp [TokenKind.HasText] at hasText
      · cases isKind
  | fraction | exponent =>
      simp only [Pending.verdict, doubleVerdict] at isKind
      split at isKind
      · cases isKind
        simp [TokenKind.HasText] at hasText
      · cases isKind
  | less | greater | bang | assign | minus | slash | underscore =>
      cases isKind
      simp [TokenKind.HasText] at hasText
  | question | point | exponentMark | exponentSign => cases isKind

theorem Pending.yields_ending {pending : Pending}
    (collects : Collects (.pending pending) read lexeme) {kind : TokenKind} {text : String}
    (isKind : pending.verdict lexeme = .ok kind) (hasText : kind.HasText text)
    : Yields read lexeme.text text where
  ends := by
    cases pending with
    | emptyString => exact collects.holds.1
    | slash => cases collects.settled
    | less | greater | bang | question | assign | minus | underscore | name | integer | point
    | fraction | exponentMark | exponentSign | exponent => exact collects.holds
  keeps := collects.keeps
  isText := Pending.text_of_verdict collects isKind hasText

theorem Pending.collects_step {pending : Pending}
    (collects : Collects (.pending pending) read lexeme) (byte : UInt8)
    : (pending.step lexeme byte).Collects read byte lexeme.text := by
  rw [Pending.step]
  cases continues : pending.continued? lexeme byte with
  | none =>
      intro kind text isKind hasText
      exact Pending.yields_ending collects isKind hasText
  | some step => exact Pending.collects_continued? collects continues

-----------------------------------------------------------------------------------------
-- Strings
-----------------------------------------------------------------------------------------

/-- A closing quote hands over what was collected. -/
theorem Step.collects_take {buffer : ByteBuffer} (ascii : byte < 0x80)
    (keeps : KeepsText (read ++ [byte]) buffer.toList) (last : Lexeme)
    : (Step.accept (.string buffer.text) last).Collects read byte buffer := by
  intro kind text isKind hasText
  cases isKind
  exact ⟨endsAscii_concat read ascii, keeps, TokenKind.hasText_string.mp hasText⟩

theorem collects_singleText (keeps : KeepsText read lexeme.text.toList) (byte : UInt8)
    : (singleText lexeme byte).Collects read byte lexeme.text := by
  unfold singleText
  split
  · next isQuote =>
      have ascii := ascii_of_ofUInt8 isQuote (by decide)
      exact Step.collects_take ascii (keeps.drop ascii) _
  · next isBackslash =>
      exact ⟨rfl, keeps.drop (ascii_of_ofUInt8 isBackslash (by decide)), trivial⟩
  · split
    · exact Step.collects_reject _ _ _
    · exact ⟨rfl, keepsText_push keeps byte, trivial⟩

theorem collects_multiText (keeps : KeepsText read lexeme.text.toList) (byte : UInt8)
    (buffer : ByteBuffer)
    : (multiText lexeme byte).Collects read byte buffer := by
  have copied := keepsText_push keeps byte
  unfold multiText
  split
  · next isBackslash =>
      exact ⟨rfl, keeps.drop (ascii_of_ofUInt8 isBackslash (by decide)), trivial⟩
  · next isNewline =>
      obtain rfl := (ofUInt8_eq_newline byte).mp isNewline
      exact ⟨rfl, copied, .inr ⟨_, toList_push lexeme 0x0A⟩⟩
  · exact ⟨rfl, copied, trivial⟩

/-- The value of an escape, at most U+00FF, is put for its last byte. -/
theorem collects_body (form : StringForm) (keeps : KeepsText read lexeme.text.toList)
    (ascii : byte < 0x80) (value : UInt8) {grown : Lexeme}
    (made : grown.text.toList
      = lexeme.text.toList ++ String.utf8EncodeChar (Char.ofUInt8 value))
    : Collects form.body (read ++ [byte]) grown := by
  refine ⟨form.isSettled_body, ?_, ?_⟩
  · rw [made, ← Utf8.encode_singleton]
    refine keeps.replace ascii _ ?_
    rw [String.toList_singleton, List.mem_singleton]
    intro isValue
    have code : 0xFFFD = value.toNat := congrArg Char.toNat isValue
    have small := value.toNat_lt
    omega
  · cases form <;> trivial

theorem SimpleEscape.value_of_sign (escape : SimpleEscape)
    : simpleEscape? escape.sign = some escape.value := by
  cases escape <;> rfl

theorem collects_escapeStep (form : StringForm) (keeps : KeepsText read lexeme.text.toList)
    (byte : UInt8) (buffer : ByteBuffer)
    : (escapeStep form lexeme byte).Collects read byte buffer := by
  unfold escapeStep
  split
  · next isCode => exact ⟨rfl, keeps.drop (ascii_of_ofUInt8 isCode (by decide)), trivial⟩
  · next value escapes _ =>
      obtain ⟨escape, rfl⟩ := SimpleEscape.exists_sign_eq escapes
      obtain rfl := Option.some.inj (escape.value_of_sign.symm.trans escapes)
      refine collects_body form keeps (by cases escape <;> decide) escape.value ?_
      rw [toList_push]
      cases escape <;> rfl
  · exact Step.collects_reject _ _ _

theorem hexEscape?_eq_ofUInt8 {digits : List UInt8} {char : Char}
    (escapes : hexEscape? digits = some char)
    : ∃ value, char = Char.ofUInt8 value := by
  simp only [hexEscape?] at escapes
  split at escapes
  · cases escapes
  · obtain ⟨values, -, isChar⟩ := Option.bind_eq_some_iff.mp escapes
    exact ⟨_, (Option.some.inj isChar).symm⟩

theorem collects_hexStep (form : StringForm) (keeps : KeepsText read lexeme.text.toList)
    (byte : UInt8) (buffer : ByteBuffer)
    : (hexStep form lexeme byte).Collects read byte buffer := by
  unfold hexStep
  split
  · next digit =>
      split
      · exact Step.collects_reject _ _ _
      · exact ⟨rfl, keeps.drop (ascii_of_hexValue? digit), trivial⟩
  · split
    · next isBrace =>
        split
        · next escapes =>
            obtain ⟨value, rfl⟩ := hexEscape?_eq_ofUInt8 escapes
            exact collects_body form keeps (ascii_of_ofUInt8 isBrace (by decide)) value
              Array.toList_appendList
        · exact Step.collects_reject _ _ _
    · exact Step.collects_reject _ _ _

/-- The quote that closes a literal on several lines takes back the line break before it. -/
theorem keepsText_closing (collects : Collects (.string .lineQuotes) read lexeme)
    : KeepsText (read ++ [0x22]) ((State.string .lineQuotes).collected lexeme).toList := by
  have keeps := collects.keeps
  have closed : ((State.string .lineQuotes).collected lexeme).toList
      = lexeme.text.toList.take (lexeme.text.toList.length - 3) := by
    simp [State.collected, ByteBuffer.retract, ByteBuffer.push, ByteBuffer.toList,
      ByteBuffer.size]
  obtain ⟨lines, whole, made⟩ := collects.holds
  rw [closed, made]
  rw [made] at keeps
  rcases whole with rfl | ⟨front, rfl⟩
  · exact keeps.retract (by decide) (by decide)
  · have keeps : KeepsText read (front ++ 0x0A :: [0x22, 0x22]) := by
      simpa using keeps
    simpa using keeps.retract (by decide) (by decide)

theorem StringPhase.collects_step {phase : StringPhase}
    (collects : Collects (.string phase) read lexeme) (byte : UInt8)
    : (phase.step lexeme byte).Collects read byte ((State.string phase).collected lexeme) := by
  have keeps := collects.keeps
  have copied := keepsText_push keeps byte
  unfold StringPhase.step
  cases phase with
  | opened =>
      dsimp only
      split
      · next isQuote =>
          have ascii := ascii_of_ofUInt8 isQuote (by decide)
          exact ⟨rfl, keeps.drop ascii, endsAscii_concat read ascii, collects.holds⟩
      · exact collects_singleText keeps byte
  | body => exact collects_singleText keeps byte
  | delimiter =>
      dsimp only
      split
      · next isNewline =>
          exact ⟨rfl, keeps.drop (ascii_of_ofUInt8 isNewline (by decide)), .inl collects.holds⟩
      · exact Step.collects_reject _ _ _
  | lineStart =>
      dsimp only
      split
      · next isQuote =>
          obtain rfl := (ofUInt8_eq_quote byte).mp isQuote
          exact ⟨rfl, copied, _, collects.holds, toList_push lexeme 0x22⟩
      · exact collects_multiText keeps byte _
  | lineQuote =>
      dsimp only
      split
      · next isQuote =>
          obtain rfl := (ofUInt8_eq_quote byte).mp isQuote
          obtain ⟨lines, whole, made⟩ := collects.holds
          refine ⟨rfl, copied, lines, whole, ?_⟩
          rw [toList_push, made, List.append_assoc]
          rfl
      · exact collects_multiText keeps byte _
  | lineQuotes =>
      dsimp only
      split
      · next isQuote =>
          obtain rfl := (ofUInt8_eq_quote byte).mp isQuote
          exact Step.collects_take (by decide) (keepsText_closing collects) _
      · exact collects_multiText keeps byte _
  | multiBody => exact collects_multiText keeps byte _
  | escape form => exact collects_escapeStep form keeps byte _
  | hexOpen form =>
      dsimp only
      split
      · next isBrace => exact ⟨rfl, keeps.drop (ascii_of_ofUInt8 isBrace (by decide)), trivial⟩
      · exact Step.collects_reject _ _ _
  | hex form => exact collects_hexStep form keeps byte _

-----------------------------------------------------------------------------------------
-- Whole tokens
-----------------------------------------------------------------------------------------

variable {state : State} {bytes : List UInt8} {kind : TokenKind} {text : String}

theorem State.collects_step (collects : Collects state read lexeme) (here : Location)
    (byte : UInt8)
    : (state.step lexeme here byte).Collects read byte (state.collected lexeme) := by
  cases state with
  | start | lineComment | blockComment _ => cases collects.settled
  | pending unfinished => exact Pending.collects_step collects byte
  | string phase => exact StringPhase.collects_step collects byte

/-- A run within a token takes the rest of it, by induction on the bytes. -/
theorem exists_yields_of_collects (collects : Collects state read lexeme)
    (reads : (run state lexeme here bytes).verdict = .ok kind) (hasText : kind.HasText text)
    : ∃ taken,
        bytes = taken ++ (run state lexeme here bytes).rest
        ∧ Yields (read ++ taken) (collected state lexeme here bytes) text := by
  induction bytes generalizing state read lexeme here with
  | nil =>
      refine ⟨[], rfl, ?_⟩
      rw [List.append_nil]
      cases state with
      | start | lineComment | blockComment _ => cases collects.settled
      | pending unfinished => exact Pending.yields_ending collects reads hasText
      | string phase => cases reads
  | cons byte bytes ih =>
      have steps := State.collects_step collects here byte
      rw [run] at reads ⊢
      rw [collected]
      cases step : state.step lexeme here byte with
      | next following grown =>
          rw [step] at steps reads
          obtain ⟨taken, split, yields⟩ := ih steps reads
          rw [List.append_assoc] at yields
          exact ⟨byte :: taken, congrArg (byte :: ·) split, yields⟩
      | done ending =>
          rw [step] at steps reads
          have yields := steps kind text reads hasText
          cases unread : ending.unread with
          | true =>
              rw [unread] at yields
              exact ⟨[], by simp [unread], by simpa using yields⟩
          | false =>
              rw [unread] at yields
              exact ⟨[byte], by simp [unread], by simpa using yields⟩

/-- A step outside of tokens, on a byte that stands at `here`: it stays outside, or begins a token
with a character of one byte, or ends with a token that has no text.
-/
def Step.StaysOutside (step : Step) (here : Location) (byte : UInt8) : Prop :=
  match step with
  | .next following grown =>
      following.isSettled = false ∧ grown.text.toList = []
      ∨ byte < 0x80 ∧ grown.start = here ∧ Lexical.Collects following [byte] grown
  | .done ending => ∀ kind text, ending.verdict = .ok kind → ¬ kind.HasText text

theorem pendingSign?_cases {char : Char} {pending : Pending}
    (begins : pendingSign? char = some pending)
    : char.toNat < 128
      ∧ (pending = .slash ∨ pending ≠ .slash ∧ pending ≠ .emptyString) := by
  unfold pendingSign? at begins
  split at begins <;> cases begins <;> decide

theorem staysOutside_firstByte (empty : lexeme.text.toList = []) (byte : UInt8)
    : (firstByte lexeme byte).StaysOutside lexeme.start byte := by
  have grows {pending : Pending} (ascii : byte < 0x80)
      (isOther : pending ≠ .slash ∧ pending ≠ .emptyString)
      : (Step.next (.pending pending) (lexeme.push byte)).StaysOutside lexeme.start byte := by
    refine .inr ⟨ascii, rfl, Pending.collects isOther (endsAscii_concat [] ascii) ?_⟩
    rw [toList_push, empty]
    exact KeepsText.nil.copy byte
  have dropped (ascii : byte < 0x80) : KeepsText [byte] lexeme.text.toList := by
    rw [empty]
    exact KeepsText.nil.drop ascii
  unfold firstByte
  dsimp only
  split
  · rintro _ text ⟨⟩
    simp [TokenKind.HasText]
  · split
    · next letter => exact grows (ascii_of_isNameByte (by simp [isNameByte, letter])) (by decide)
    · split
      · next isUnderscore =>
          exact grows (ascii_of_ofUInt8 isUnderscore (by decide)) (by decide)
      · split
        · next digit => exact grows (ascii_of_isDigit digit) (by decide)
        · split
          · next isQuote =>
              have ascii := ascii_of_ofUInt8 isQuote (by decide)
              exact .inr ⟨ascii, rfl, rfl, dropped ascii, empty⟩
          · split
            · next begins =>
                obtain ⟨small, isSlash | isOther⟩ := pendingSign?_cases begins
                · subst isSlash
                  exact .inl ⟨rfl, empty⟩
                · have ascii := ascii_of_ofUInt8 rfl small
                  exact .inr ⟨ascii, rfl,
                    Pending.collects isOther (endsAscii_concat [] ascii) (dropped ascii)⟩
            · rintro _ text ⟨⟩
              simp [TokenKind.HasText]
            · rintro _ text ⟨⟩

theorem Pending.eq_slash_of_outside {pending : Pending}
    (outside : (State.pending pending).isSettled = false)
    : pending = .slash := by
  cases pending <;> first | rfl | cases outside

theorem State.staysOutside_step (outside : state.isSettled = false)
    (empty : lexeme.text.toList = []) (here : Location) (byte : UInt8)
    : (state.step lexeme here byte).StaysOutside here byte := by
  cases state with
  | start =>
      rw [State.step]
      split
      · exact .inl ⟨rfl, empty⟩
      · have begins : ({ lexeme with start := here } : Lexeme).text.toList = [] := empty
        exact staysOutside_firstByte begins byte
  | pending unfinished =>
      obtain rfl := Pending.eq_slash_of_outside outside
      simp only [State.step, Pending.step, Pending.continued?, openComment?]
      split
      · exact .inl ⟨rfl, empty⟩
      · exact .inl ⟨rfl, empty⟩
      · rintro _ text ⟨⟩
        simp [TokenKind.HasText]
  | lineComment =>
      rw [State.step]
      split
      · rintro _ text ⟨⟩
        simp [TokenKind.HasText]
      · exact .inl ⟨rfl, empty⟩
  | blockComment phase =>
      rw [State.step, CommentPhase.step.eq_def]
      split
      · dsimp only
        split <;> exact .inl ⟨rfl, empty⟩
      · exact .inl ⟨rfl, empty⟩
      · rw [commentBody_eq]
        exact .inl ⟨rfl, empty⟩
  | string _ => cases outside

/-- A run from outside of tokens skips what stands before a token and takes the token, by induction
on the bytes.
-/
theorem exists_yields_of_outside (outside : state.isSettled = false)
    (empty : lexeme.text.toList = [])
    (reads : (run state lexeme here bytes).verdict = .ok kind) (hasText : kind.HasText text)
    : ∃ gap first taken,
        bytes = gap ++ (first :: taken) ++ (run state lexeme here bytes).rest
        ∧ (run state lexeme here bytes).lexeme.start = here.afterBytes gap
        ∧ first < 0x80
        ∧ Yields (first :: taken) (collected state lexeme here bytes) text := by
  induction bytes generalizing state lexeme here with
  | nil =>
      cases state with
      | start | lineComment | blockComment _ =>
          cases reads
          simp [TokenKind.HasText] at hasText
      | pending unfinished =>
          obtain rfl := Pending.eq_slash_of_outside outside
          cases reads
          simp [TokenKind.HasText] at hasText
      | string _ => cases outside
  | cons byte bytes ih =>
      have steps := State.staysOutside_step outside empty here byte
      rw [run] at reads ⊢
      rw [collected]
      cases step : state.step lexeme here byte with
      | next following grown =>
          rw [step] at steps reads
          rcases steps with ⟨stillOutside, stillEmpty⟩ | ⟨ascii, start, collects⟩
          · obtain ⟨gap, first, taken, split, place, isAscii, yields⟩ :=
              ih stillOutside stillEmpty reads
            exact ⟨byte :: gap, first, taken, congrArg (byte :: ·) split, place, isAscii, yields⟩
          · obtain ⟨taken, split, yields⟩ := exists_yields_of_collects collects reads hasText
            have continues := (run_of_isSettled collects.settled grown (here.advance byte) bytes).2
            exact ⟨[], byte, taken, congrArg (byte :: ·) split, continues.start.trans start, ascii,
              yields⟩
      | done ending =>
          rw [step] at steps reads
          exact absurd hasText (steps kind text reads)

end Lexical

namespace Scanner

/-- The buffer that the next reading hands over as the text of its token. -/
def collected (scanner : Scanner) : ByteBuffer :=
  Lexical.collected .start scanner.lexeme.reset scanner.location scanner.rest

/-- No text is decoded with losses. In any scan of any source text, also after faults in the middle
of a character, what is collected for a name or a string is UTF-8 throughout, and it is the text of
the token. The token has a part of the source text to itself, and only if that holds a replacement
character can the token hold one.
-/
theorem text_of_next {source : String} {count : Nat} {token : Token} {text : String}
    (reads : ((ofText source).after count).next.1 = .ok token)
    (hasText : token.kind = .identifier text ∨ token.kind = .string text)
    : Utf8.decode? ((ofText source).after count).collected.toList = some text
      ∧ ((ofText source).after count).collected.takeText.1 = text
      ∧ ∃ before lexeme later,
          source = before ++ lexeme ++ later
          ∧ token.location = .ofCount (Utf8.encode before)
          ∧ ((ofText source).after (count + 1)).rest = Utf8.encode later
          ∧ (Utf8.replacement ∈ text.toList → Utf8.replacement ∈ lexeme.toList) := by
  obtain ⟨passed, split, place⟩ := (ofText source).after_rest_suffix count
  have split : Utf8.encode source = passed ++ ((ofText source).after count).rest := split
  have place : ((ofText source).after count).location = .ofCount passed :=
    place.trans (Location.afterBytes_start passed)
  rw [after_succ]
  generalize (ofText source).after count = scanner at *
  have verdict := run_of_next_eq_ok reads
  obtain ⟨gap, first, taken, isRest, start, ascii, yields⟩ :=
    Lexical.exists_yields_of_outside rfl rfl verdict.1 hasText
  rw [isRest, ← List.append_assoc, ← List.append_assoc] at split
  obtain ⟨before, lexeme, later, isSource, encodesBefore, encodesLexeme, encodesLater⟩ :=
    Utf8.exists_slice split ascii yields.ends
  obtain ⟨value, encodesValue, replaced⟩ := yields.keeps.exists_text encodesLexeme
  obtain rfl : value = text := by
    rw [← yields.isText, ByteBuffer.text, ← encodesValue, Utf8.decodeLossy_encode]
  refine ⟨?_, yields.isText, before, lexeme, later, isSource, ?_, ?_, replaced⟩
  · rw [collected, ← encodesValue, Utf8.decode?_encode]
  · rw [verdict.2, run, start, place, Location.afterBytes_ofCount, encodesBefore]
  · rw [next_rest, encodesLater]

/-- After two faults within the first character, the third reading is a literal on several lines. It
holds a replacement character, next to another character that an escape stands for.
-/
theorem text_of_next_replacement
    : ((ofText "\u00e9 \"\"\"\n\\u\x7be9\x7d\ufffd\n\"\"\"").after 2).next.1
        = .ok { kind := .string "\u00e9\ufffd", afterNewline := false, location := ⟨1, 4⟩ }
      ∧ Utf8.decode?
          ((ofText "\u00e9 \"\"\"\n\\u\x7be9\x7d\ufffd\n\"\"\"").after 2).collected.toList
        = some "\u00e9\ufffd"
      ∧ ∃ before lexeme later,
          "\u00e9 \"\"\"\n\\u\x7be9\x7d\ufffd\n\"\"\"" = before ++ lexeme ++ later
          ∧ ⟨1, 4⟩ = Location.ofCount (Utf8.encode before)
          ∧ Utf8.replacement ∈ lexeme.toList := by
  have reads : ((ofText "\u00e9 \"\"\"\n\\u\x7be9\x7d\ufffd\n\"\"\"").after 2).next.1
      = .ok { kind := .string "\u00e9\ufffd", afterNewline := false, location := ⟨1, 4⟩ } := by
    decide +kernel
  obtain ⟨valid, -, before, lexeme, later, split, place, -, replaced⟩ :=
    text_of_next reads (.inr rfl)
  exact ⟨reads, valid, before, lexeme, later, split, place, replaced (by decide)⟩

end Scanner

end ExprCompiler

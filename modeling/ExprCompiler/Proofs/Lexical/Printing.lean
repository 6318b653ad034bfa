import ExprCompiler.Proofs.Lexical.SpelledTokens

/-! Reading undoes printing. String literals are read back like signs, names and numbers, and so is
every list of tokens. Main statement: the tokens of a printed list are the tokens of the list and
the end of file.
-/

namespace ExprCompiler

namespace Lexical

/-- The bytes of a character between the quotes of a literal. -/
def literalBytes (char : Char) : List UInt8 :=
  (literalChars char).flatMap String.utf8EncodeChar

theorem ofUInt8_eq_quote (byte : UInt8) : Char.ofUInt8 byte = '"' ↔ byte = 0x22 :=
  ofUInt8_injective.eq_iff' rfl

/-- Whether a byte in a literal stands for itself. -/
def isPlain (byte : UInt8) : Prop :=
  0x20 ≤ byte ∧ byte ≠ 0x22 ∧ byte ≠ 0x5C

theorem singleText_plain (lexeme : Lexeme) {byte : UInt8} (plain : isPlain byte)
    : singleText lexeme byte = .next (.string .body) (lexeme.push byte) := by
  obtain ⟨printable, notQuote, notBackslash⟩ := plain
  have backslash : Char.ofUInt8 byte = '\\' ↔ byte = 0x5C := ofUInt8_injective.eq_iff' rfl
  unfold singleText
  split
  · next isQuote => exact absurd ((ofUInt8_eq_quote byte).mp isQuote) notQuote
  · next isBackslash => exact absurd (backslash.mp isBackslash) notBackslash
  · rw [if_neg (UInt8.not_lt.mpr printable)]

/-- The bytes of a character that needs no escape stand for themselves. -/
theorem isPlain_of_mem_encodeChar {char : Char} (notEscaped : ¬(char = '"' ∨ char = '\\'))
    (printable : ¬char < ' ') {byte : UInt8} (member : byte ∈ String.utf8EncodeChar char)
    : isPlain byte := by
  rcases Nat.lt_or_ge char.toNat 128 with ascii | notAscii
  · have all : ∀ code < 128,
        ¬(Char.ofNat code = '"' ∨ Char.ofNat code = '\\') → ¬Char.ofNat code < ' '
        → 0x20 ≤ UInt8.ofNat code ∧ UInt8.ofNat code ≠ 0x22 ∧ UInt8.ofNat code ≠ 0x5C := by
      decide
    have plain := all char.toNat ascii
    rw [Char.ofNat_toNat] at plain
    rw [Utf8.encodeChar_of_lt ascii, List.mem_singleton] at member
    exact member ▸ plain notEscaped printable
  · have large := UInt8.le_iff_toNat_le.mp (Utf8.le_of_mem_encodeChar notAscii member)
    refine ⟨UInt8.le_iff_toNat_le.mpr (Nat.le_trans (by decide) large), ?_, ?_⟩
    · rintro rfl
      exact absurd large (by decide)
    · rintro rfl
      exact absurd large (by decide)

/-- Bytes that stand for themselves are collected, by induction on them. -/
theorem completes_plain {front bytes text : List UInt8} {kind : TokenKind}
    (plain : ∀ byte ∈ front, isPlain byte)
    (later : (State.string .body).Completes (text ++ front) bytes kind)
    : (State.string .body).Completes text (front ++ bytes) kind := by
  induction front generalizing text with
  | nil =>
      rw [List.append_nil] at later
      exact later
  | cons byte front ih =>
      obtain ⟨first, others⟩ := List.forall_mem_cons.mp plain
      rw [List.append_cons] at later
      refine .cons (fun lexeme here isText => ⟨lexeme.push byte, ?_, ?_⟩) (ih others later)
      · exact singleText_plain lexeme first
      · rw [toList_push, isText]

/-- Digits of a code escape are noted, by induction on them. -/
theorem exists_run_hex {form : StringForm} {digits : List UInt8}
    (all : ∀ byte ∈ digits, (hexValue? byte).isSome = true) (lexeme : Lexeme) (here : Location)
    (fits : lexeme.hex.size + digits.length ≤ 8) (rest : List UInt8)
    : ∃ (noted : Lexeme) (there : Location),
        run (.string (.hex form)) lexeme here (digits ++ rest)
          = run (.string (.hex form)) noted there rest
        ∧ noted.hex.toList = lexeme.hex.toList ++ digits
        ∧ noted.text = lexeme.text := by
  induction digits generalizing lexeme here with
  | nil => exact ⟨lexeme, here, rfl, (List.append_nil _).symm, rfl⟩
  | cons byte digits ih =>
      obtain ⟨isDigit, others⟩ := List.forall_mem_cons.mp all
      rw [List.length_cons] at fits
      let longer : Lexeme := { lexeme with hex := lexeme.hex.push byte }
      have step : (State.string (.hex form)).step lexeme here byte
          = .next (.string (.hex form)) longer := by
        rw [State.step, StringPhase.step, hexStep, if_pos isDigit, if_neg (by omega)]
      have size : longer.hex.size = lexeme.hex.size + 1 := Array.size_push _
      obtain ⟨noted, there, runs, isHex, isText⟩ := ih others longer (here.advance byte) (by omega)
      refine ⟨noted, there, ?_, ?_, isText⟩
      · rw [List.cons_append, run, step]
        exact runs
      · have pushed : longer.hex.toList = lexeme.hex.toList ++ [byte] := Array.toList_push
        rw [isHex, pushed, List.append_assoc]
        rfl

/-- A code escape adds the character that its digits stand for. -/
theorem completes_codeEscape {digits bytes text : List UInt8} {char : Char} {kind : TokenKind}
    (all : ∀ byte ∈ digits, (hexValue? byte).isSome = true) (fits : digits.length ≤ 8)
    (standsFor : hexEscape? digits = some char)
    (later : (State.string .body).Completes (text ++ String.utf8EncodeChar char) bytes kind)
    : (State.string .body).Completes text (0x5C :: 0x75 :: 0x7B :: (digits ++ 0x7D :: bytes))
        kind := by
  have braces : (State.string (.hexOpen .single)).Completes text
      (0x7B :: (digits ++ 0x7D :: bytes)) kind := by
    intro lexeme here rest isText ends
    obtain ⟨noted, there, runs, isHex, sameText⟩ :=
      exists_run_hex all { lexeme with hex := lexeme.hex.clear } (here.advance 0x7B)
        (by simpa [ByteBuffer.size, ByteBuffer.clear] using fits) (0x7D :: (bytes ++ rest))
    have opens (more : List UInt8)
        : run (.string (.hexOpen .single)) lexeme here (0x7B :: more)
          = run (.string (.hex .single)) { lexeme with hex := lexeme.hex.clear }
              (here.advance 0x7B) more :=
      rfl
    have isDigits : noted.hex.toList = digits := isHex
    have closes : (State.string (.hex .single)).step noted there 0x7D
        = .next (.string .body) { noted with text := noted.text.pushChar char } := by
      rw [State.step, StringPhase.step, hexStep, if_neg (by decide), if_pos (by decide), isDigits,
        standsFor]
      rfl
    rw [List.cons_append, List.append_assoc, List.cons_append, opens, runs, run, closes]
    refine later _ _ rest ?_ ends
    rw [← isText, ← congrArg ByteBuffer.toList sameText]
    exact Array.toList_appendList
  refine .cons (fun lexeme here isText => ⟨lexeme, rfl, isText⟩) ?_
  exact .cons (fun lexeme here isText => ⟨lexeme, rfl, isText⟩) braces

/-- The quote and the backslash are written after a backslash. -/
theorem completes_simpleEscape {byte : UInt8} {bytes text : List UInt8} {kind : TokenKind}
    (escaped : byte = 0x22 ∨ byte = 0x5C)
    (later : (State.string .body).Completes (text ++ [byte]) bytes kind)
    : (State.string .body).Completes text (0x5C :: byte :: bytes) kind := by
  have escape : (State.string (.escape .single)).Completes text (byte :: bytes) kind := by
    refine .cons (fun lexeme here isText => ⟨lexeme.push byte, ?_, ?_⟩) later
    · rcases escaped with rfl | rfl <;> rfl
    · rw [toList_push, isText]
  exact .cons (fun lexeme here isText => ⟨lexeme, rfl, isText⟩) escape

/-- The code of a control character stands for that character. -/
theorem hexEscape?_hexDigits
    : ∀ code < 32,
        (∀ byte ∈ Utf8.encode (Text.hexDigits code), (hexValue? byte).isSome = true)
        ∧ (Utf8.encode (Text.hexDigits code)).length ≤ 8
        ∧ hexEscape? (Utf8.encode (Text.hexDigits code)) = some (Char.ofNat code) := by
  decide +kernel

/-- However a character is written in a literal, it is added to the text. -/
theorem completes_literalBytes (char : Char) {bytes text : List UInt8} {kind : TokenKind}
    (later : (State.string .body).Completes (text ++ String.utf8EncodeChar char) bytes kind)
    : (State.string .body).Completes text (literalBytes char ++ bytes) kind := by
  unfold literalBytes literalChars
  split
  · next escaped =>
      rcases escaped with rfl | rfl
      · exact completes_simpleEscape (.inl rfl) later
      · exact completes_simpleEscape (.inr rfl) later
  · next notEscaped =>
      split
      · next control =>
          obtain ⟨isHex, fits, standsFor⟩ := hexEscape?_hexDigits char.toNat control
          rw [Char.ofNat_toNat] at standsFor
          have opening
              : ['\\', 'u', '\x7b'].flatMap String.utf8EncodeChar = [0x5C, 0x75, 0x7B] := by
            decide
          have closing : ['\x7d'].flatMap String.utf8EncodeChar = [0x7D] := by decide
          rw [List.flatMap_append, List.flatMap_append, opening, closing, ← Utf8.encode,
            List.append_assoc, List.append_assoc]
          generalize Utf8.encode (Text.hexDigits char.toNat) = digits at isHex fits standsFor ⊢
          exact completes_codeEscape isHex fits standsFor later
      · next printable =>
          rw [List.flatMap_singleton]
          refine completes_plain ?_ later
          exact fun _ => isPlain_of_mem_encodeChar notEscaped printable

/-- The text of a literal is read up to its closing quote, by induction on its characters. -/
theorem completes_body (chars : List Char) (text : List UInt8)
    : (State.string .body).Completes text (chars.flatMap literalBytes ++ [0x22])
        (.string (Utf8.decodeLossy (text ++ chars.flatMap String.utf8EncodeChar))) := by
  induction chars generalizing text with
  | nil =>
      refine .accept fun lexeme here isText => ⟨{ lexeme with text := {} }, ?_⟩
      rw [List.flatMap_nil, List.append_nil, ← isText]
      rfl
  | cons char chars ih =>
      rw [List.flatMap_cons, List.append_assoc]
      refine completes_literalBytes char ?_
      rw [List.flatMap_cons, ← List.append_assoc]
      exact ih _

/-- What is written for a character does not start with a quote. -/
theorem exists_literalBytes_eq (char : Char)
    : ∃ first rest, literalBytes char = first :: rest ∧ first ≠ 0x22 := by
  unfold literalBytes literalChars
  split
  · exact ⟨0x5C, _, rfl, by decide⟩
  · next notEscaped =>
      split
      · exact ⟨0x5C, _, rfl, by decide⟩
      · next printable =>
          have notEmpty : String.utf8EncodeChar char ≠ [] := String.utf8EncodeChar_ne_nil
          obtain ⟨first, rest, bytes⟩ := List.exists_cons_of_ne_nil notEmpty
          have member : first ∈ String.utf8EncodeChar char := bytes ▸ List.mem_cons_self
          rw [List.flatMap_singleton]
          exact ⟨first, rest, bytes, (isPlain_of_mem_encodeChar notEscaped printable member).2.1⟩

/-- A literal on one line goes on with anything but a quote. -/
theorem completes_opened {first : UInt8} {rest text : List UInt8} {kind : TokenKind}
    (notQuote : first ≠ 0x22) (body : (State.string .body).Completes text (first :: rest) kind)
    : (State.string .opened).Completes text (first :: rest) kind := by
  intro lexeme here more isText ends
  have same : (State.string .opened).step lexeme here first
      = (State.string .body).step lexeme here first :=
    if_neg (mt (ofUInt8_eq_quote first).mp notQuote)
  have completes := body lexeme here more isText ends
  rw [List.cons_append, run] at completes ⊢
  rw [same]
  exact completes

theorem completes_string (text : String)
    : State.start.Completes []
        (Utf8.encode (.ofList ('"' :: text.toList.flatMap literalChars ++ ['"'])))
        (.string text) := by
  have written : Utf8.encode (.ofList ('"' :: text.toList.flatMap literalChars ++ ['"']))
      = 0x22 :: (text.toList.flatMap literalBytes ++ [0x22]) := by
    rw [Utf8.encode, String.toList_ofList, List.flatMap_append, List.flatMap_cons,
      List.flatMap_assoc]
    rfl
  have opened : (State.string .opened).Completes [] (text.toList.flatMap literalBytes ++ [0x22])
      (.string text) := by
    have body := completes_body text.toList []
    rw [List.nil_append, ← Utf8.encode, Utf8.decodeLossy_encode] at body
    cases isText : text.toList with
    | nil =>
        obtain rfl : text = "" := String.toList_eq_nil_iff.mp isText
        exact .cons (fun lexeme here isText => ⟨lexeme, rfl, isText⟩) (.pending fun _ _ => rfl)
    | cons char chars =>
        obtain ⟨first, rest, split, notQuote⟩ := exists_literalBytes_eq char
        rw [isText, List.flatMap_cons, split] at body
        rw [List.flatMap_cons, split]
        exact completes_opened notQuote body
  rw [written]
  exact .cons (fun lexeme here isText => ⟨{ lexeme with start := here }, rfl, isText⟩) opened

/-- Whatever its spelling, a token before a space or the end of input is read back. -/
theorem completes_spelling (token : Spelling)
    : State.start.Completes [] (Utf8.encode token.text) token.kind := by
  cases token with
  | endOfLine =>
      have written : Utf8.encode "\n" = [0x0A] := by decide
      rw [Spelling.text, written]
      exact .accept fun lexeme here _ => ⟨{ lexeme with start := here }, rfl⟩
  | underscore =>
      have written : Utf8.encode "_" = [0x5F] := by decide
      rw [Spelling.text, written]
      exact .begin rfl (fun _ => rfl) (.pending fun _ _ => rfl)
  | identifier name => exact completes_nameKind (isWholeName_encode name) (nameKind_encode name)
  | keyword word => exact completes_keyword word
  | operator sign => exact completes_operator sign
  | int value nonnegative zeros => exact completes_int nonnegative zeros
  | double numeral => exact completes_double numeral
  | string text => exact completes_string text
  | typeName base nilable => exact completes_typeName base nilable

theorem completes_space {bytes : List UInt8} {kind : TokenKind}
    (completes : State.start.Completes [] bytes kind)
    : State.start.Completes [] (0x20 :: bytes) kind :=
  .cons (fun lexeme _ isText => ⟨lexeme, rfl, isText⟩) completes

end Lexical

open Lexical

theorem Spelling.kind_ne_endOfFile (token : Spelling) : token.kind ≠ .endOfFile := by
  intro same
  cases token <;> cases same

/-- The bytes of tokens that are written after others. -/
def spacedBytes (tokens : List Spelling) : List UInt8 :=
  tokens.flatMap fun token => 0x20 :: Utf8.encode token.text

theorem endsToken_spacedBytes (tokens : List Spelling) : EndsToken (spacedBytes tokens) := by
  intro byte isFirst
  cases tokens with
  | nil => cases isFirst
  | cons token tokens => exact (Option.some.inj isFirst).symm

/-- The bytes of a printed list, by induction on it. -/
theorem encode_print_cons (token : Spelling) (tokens : List Spelling)
    : Utf8.encode (print (token :: tokens))
      = Utf8.encode token.text ++ spacedBytes tokens := by
  induction tokens generalizing token with
  | nil =>
      rw [print, List.map_cons, List.map_nil, String.intercalate_singleton]
      exact (List.append_nil _).symm
  | cons following tokens ih =>
      have space : Utf8.encode " " = [0x20] := by decide
      have later := ih following
      rw [print, List.map_cons] at later ⊢
      rw [List.map_cons, String.intercalate_cons_cons, Utf8.encode_append, Utf8.encode_append,
        later, space, List.append_assoc]
      rfl

/-- Whether every scanner on some bytes reads tokens of some kinds up to the end of file. -/
def ReadsAs (bytes : List UInt8) (kinds : List TokenKind) : Prop :=
  ∀ scanner : Scanner, scanner.rest = bytes
    → ∃ tokens : List Token,
        scanner.readings.1 = tokens.map .ok ∧ tokens.map Token.kind = kinds

/-- Where the automaton gives a token, so does the scanner. -/
theorem Scanner.exists_next_eq {scanner : Scanner} {kind : TokenKind}
    (verdict : scanner.run.verdict = .ok kind)
    : ∃ token : Token, scanner.next.1 = .ok token ∧ token.kind = kind := by
  rw [next_fst, verdict]
  exact ⟨_, rfl, rfl⟩

theorem readsAs_nil : ReadsAs [] [.endOfFile] := by
  intro scanner isRest
  have verdict : scanner.run.verdict = .ok .endOfFile := by
    rw [Scanner.run, isRest]
    rfl
  obtain ⟨token, reads, isKind⟩ := Scanner.exists_next_eq verdict
  refine ⟨[token], ?_, ?_⟩
  · rw [scanner.readings_fst, reads, Reading.isEnd, isKind]
    rfl
  · rw [List.map_singleton, isKind]

/-- Bytes that complete a token are read before what follows them. -/
theorem ReadsAs.cons {bytes rest : List UInt8} {kind : TokenKind} {kinds : List TokenKind}
    (completes : State.start.Completes [] bytes kind) (notEnd : kind ≠ .endOfFile)
    (ends : EndsToken rest) (later : ReadsAs rest kinds)
    : ReadsAs (bytes ++ rest) (kind :: kinds) := by
  intro scanner isRest
  obtain ⟨verdict, left⟩ := completes scanner.lexeme.reset scanner.location rest rfl ends
  rw [← isRest] at verdict left
  obtain ⟨token, reads, isKind⟩ := Scanner.exists_next_eq verdict
  obtain ⟨tokens, readings, areKinds⟩ := later scanner.next.2 (scanner.next_rest.trans left)
  have goesOn : Reading.isEnd (.ok token) = false := by
    rw [Reading.isEnd, isKind]
    exact decide_eq_false notEnd
  refine ⟨token :: tokens, ?_, ?_⟩
  · rw [scanner.readings_fst, reads, goesOn, readings]
    rfl
  · rw [List.map_cons, isKind, areKinds]

/-- Tokens that are written after others are read back, by induction on them. -/
theorem readsAs_spacedBytes (tokens : List Spelling)
    : ReadsAs (spacedBytes tokens) (tokens.map Spelling.kind ++ [.endOfFile]) := by
  induction tokens with
  | nil => exact readsAs_nil
  | cons token tokens ih =>
      exact .cons (completes_space (completes_spelling token)) token.kind_ne_endOfFile
        (endsToken_spacedBytes tokens) ih

theorem readsAs_print (tokens : List Spelling)
    : ReadsAs (Utf8.encode (print tokens)) (tokens.map Spelling.kind ++ [.endOfFile]) := by
  cases tokens with
  | nil => exact readsAs_nil
  | cons token tokens =>
      rw [encode_print_cons]
      exact .cons (completes_spelling token) token.kind_ne_endOfFile
        (endsToken_spacedBytes tokens) (readsAs_spacedBytes tokens)

/-- Reading undoes printing: the text of any tokens, however they are spelled, has these tokens and
one end of file after them.
-/
theorem tokenize_print (tokens : List Spelling)
    : ∃ read, tokenize (print tokens) = .ok read
        ∧ read.map Token.kind = tokens.map Spelling.kind ++ [.endOfFile] := by
  obtain ⟨read, readings, areKinds⟩ := readsAs_print tokens (.ofText (print tokens)) rfl
  have noFault : read.mapM (fun token => (pure (id token) : Reading)) = pure (read.map id) :=
    List.mapM_pure
  rw [List.map_id] at noFault
  refine ⟨read, ?_, areKinds⟩
  rw [tokenize, readings, List.mapM_map]
  exact noFault

end ExprCompiler

import ExprCompiler.Proofs.Lexical.Printing

/-! The text of a string literal as a list of items, which are bytes that stand for themselves and
escapes. Main statement: the automaton collects what the items stand for, and the text of every
string that it reads is made of items which a literal on one line or on several may have.
-/

namespace ExprCompiler.Lexical

/-- The escapes of one sign. -/
inductive SimpleEscape where
  | newline | carriageReturn | tab | quote | backslash
deriving DecidableEq, Repr

namespace SimpleEscape

/-- The sign after the backslash. -/
def sign : SimpleEscape → UInt8
  | newline => 0x6E
  | carriageReturn => 0x72
  | tab => 0x74
  | quote => 0x22
  | backslash => 0x5C

/-- The byte that is meant. -/
def value : SimpleEscape → UInt8
  | newline => 0x0A
  | carriageReturn => 0x0D
  | tab => 0x09
  | quote => 0x22
  | backslash => 0x5C

end SimpleEscape

/-- A hexadecimal digit. Those above nine are small or capital letters. -/
structure HexDigit where
  value : Fin 16
  capital : Bool := false
deriving DecidableEq, Repr

/-- The byte of a digit. -/
def HexDigit.byte (digit : HexDigit) : UInt8 :=
  .ofNat (digit.value + if digit.value < 10 then 0x30 else if digit.capital then 0x37 else 0x57)

/-- The digits of a code escape, one to eight. -/
structure CodeDigits where
  digits : List HexDigit
  notEmpty : digits ≠ []
  atMostEight : digits.length ≤ 8
deriving DecidableEq, Repr

namespace CodeDigits

def bytes (code : CodeDigits) : List UInt8 :=
  code.digits.map HexDigit.byte

/-- The number that the digits are. -/
def number (code : CodeDigits) : Nat :=
  code.digits.foldl (fun number digit => 16 * number + digit.value) 0

end CodeDigits

/-- What the text of a literal is made of: bytes that stand for themselves, and escapes. -/
inductive LiteralItem where
  | raw (byte : UInt8)
  | simple (escape : SimpleEscape)
  | code (digits : CodeDigits)
deriving DecidableEq, Repr

namespace LiteralItem

/-- The bytes of an item in a source. -/
def source : LiteralItem → List UInt8
  | raw byte => [byte]
  | simple escape => [0x5C, escape.sign]
  | code digits => 0x5C :: 0x75 :: 0x7B :: digits.bytes ++ [0x7D]

/-- The bytes that an item stands for. A code escape is the character of the lowest byte of its
number.
-/
def value : LiteralItem → List UInt8
  | raw byte => [byte]
  | simple escape => [escape.value]
  | code digits => String.utf8EncodeChar (Char.ofNat (digits.number % 256))

/-- The byte of an item that is no escape. -/
def raw? : LiteralItem → Option UInt8
  | raw byte => some byte
  | simple _ | code _ => none

/-- Only a quote that stands for itself starts with a quote. -/
theorem exists_source_eq (item : LiteralItem) (notQuote : item ≠ .raw 0x22)
    : ∃ first rest, item.source = first :: rest ∧ first ≠ 0x22 := by
  cases item with
  | raw byte => exact ⟨byte, [], rfl, fun isQuote => notQuote (isQuote ▸ rfl)⟩
  | simple _ | code _ => exact ⟨0x5C, _, rfl, by decide⟩

theorem length_source_pos (item : LiteralItem) : 0 < item.source.length := by
  cases item <;> simp [source]

end LiteralItem

-----------------------------------------------------------------------------------------
-- Escapes
-----------------------------------------------------------------------------------------

theorem ofUInt8_eq_backslash (byte : UInt8) : Char.ofUInt8 byte = '\\' ↔ byte = 0x5C :=
  ofUInt8_injective.eq_iff' rfl

theorem HexDigit.hexValue?_byte (digit : HexDigit) : hexValue? digit.byte = some digit.value := by
  have all : ∀ value : Fin 16, ∀ capital : Bool,
      hexValue? (HexDigit.byte { value, capital }) = some value.val := by
    decide
  exact all digit.value digit.capital

theorem HexDigit.exists_byte_eq {byte : UInt8} (isDigit : (hexValue? byte).isSome = true)
    : ∃ digit : HexDigit, digit.byte = byte := by
  have all : ∀ code < 256, (hexValue? (.ofNat code)).isSome = true →
      ∃ value : Fin 16, ∃ capital : Bool, HexDigit.byte { value, capital } = .ofNat code := by
    decide +kernel
  rw [← UInt8.ofNat_toNat (x := byte)] at isDigit ⊢
  obtain ⟨value, capital, same⟩ := all byte.toNat byte.toNat_lt isDigit
  exact ⟨_, same⟩

theorem mapM_hexValue?_byte (digits : List HexDigit)
    : (digits.map HexDigit.byte).mapM hexValue? = some (digits.map (·.value.val)) := by
  induction digits with
  | nil => rfl
  | cons digit digits ih =>
      rw [List.map_cons, List.mapM_cons, digit.hexValue?_byte, ih]
      rfl

theorem hexEscape?_bytes (code : CodeDigits)
    : hexEscape? code.bytes = some (Char.ofNat (code.number % 256)) := by
  have ofByte : ∀ byte < 256, Char.ofUInt8 (.ofNat byte) = Char.ofNat byte := by
    decide +kernel
  have lowByte (number : Nat) : Char.ofUInt8 (.ofNat number) = Char.ofNat (number % 256) := by
    rw [← ofByte _ (Nat.mod_lt number (by decide)), UInt8.ofNat_mod_size]
  have inBounds : (code.bytes.isEmpty || decide (8 < code.bytes.length)) = false := by
    simp [CodeDigits.bytes, code.notEmpty, code.atMostEight]
  unfold hexEscape?
  rw [inBounds, CodeDigits.bytes, mapM_hexValue?_byte]
  simp [lowByte, List.foldl_map, CodeDigits.number]

theorem isSome_hexValue?_of_mem_bytes {code : CodeDigits} {byte : UInt8}
    (member : byte ∈ code.bytes)
    : (hexValue? byte).isSome = true := by
  obtain ⟨digit, -, rfl⟩ := List.mem_map.mp member
  rw [digit.hexValue?_byte]
  rfl

theorem SimpleEscape.exists_sign_eq {byte value : UInt8}
    (escapes : simpleEscape? byte = some value)
    : ∃ escape : SimpleEscape, escape.sign = byte := by
  have sameByte (escape : SimpleEscape) (isSign : Char.ofUInt8 byte = Char.ofUInt8 escape.sign)
      : ∃ escape : SimpleEscape, escape.sign = byte :=
    ⟨escape, (ofUInt8_injective isSign).symm⟩
  unfold simpleEscape? at escapes
  split at escapes
  · next isSign => exact sameByte .newline isSign
  · next isSign => exact sameByte .carriageReturn isSign
  · next isSign => exact sameByte .tab isSign
  · next isSign => exact sameByte .quote isSign
  · next isSign => exact sameByte .backslash isSign
  · cases escapes

-----------------------------------------------------------------------------------------
-- Reading items
-----------------------------------------------------------------------------------------

/-- Some bytes lead from one state to another and add to the text that is collected. -/
def Leads (state following : State) (bytes added : List UInt8) : Prop :=
  ∀ (lexeme : Lexeme) (here : Location) (rest : List UInt8),
    ∃ (grown : Lexeme) (there : Location),
      grown.text.toList = lexeme.text.toList ++ added
      ∧ run state lexeme here (bytes ++ rest) = run following grown there rest

namespace Leads

variable {first second third : State} {front back added more : List UInt8}

theorem nil (state : State) : Leads state state [] [] :=
  fun lexeme here _ => ⟨lexeme, here, (List.append_nil _).symm, rfl⟩

theorem trans (earlier : Leads first second front added) (later : Leads second third back more)
    : Leads first third (front ++ back) (added ++ more) := by
  intro lexeme here rest
  obtain ⟨grown, there, isText, runs⟩ := earlier lexeme here (back ++ rest)
  obtain ⟨last, beyond, isLast, runsOn⟩ := later grown there rest
  refine ⟨last, beyond, ?_, ?_⟩
  · rw [isLast, isText, List.append_assoc]
  · rw [List.append_assoc, runs, runsOn]

/-- A byte that is collected. -/
theorem push {byte : UInt8}
    (step : ∀ lexeme here, first.step lexeme here byte = .next second (lexeme.push byte))
    : Leads first second [byte] [byte] := by
  intro lexeme here rest
  refine ⟨lexeme.push byte, here.advance byte, toList_push lexeme byte, ?_⟩
  rw [List.singleton_append, run, step]

/-- A byte that changes the state only. -/
theorem move {byte : UInt8}
    (step : ∀ lexeme here, first.step lexeme here byte = .next second lexeme)
    : Leads first second [byte] [] := by
  intro lexeme here rest
  refine ⟨lexeme, here.advance byte, (List.append_nil _).symm, ?_⟩
  rw [List.singleton_append, run, step]

end Leads

/-- After a backslash, a simple escape adds its byte. -/
theorem leads_simple (form : StringForm) (escape : SimpleEscape)
    : Leads (.string (.escape form)) form.body [escape.sign] [escape.value] := by
  intro lexeme here rest
  refine ⟨lexeme.push escape.value, here.advance escape.sign, toList_push .., ?_⟩
  rw [List.singleton_append, run]
  cases escape <;> rfl

/-- After a backslash, a code escape adds its character. -/
theorem leads_code (form : StringForm) (code : CodeDigits)
    : Leads (.string (.escape form)) form.body (0x75 :: 0x7B :: code.bytes ++ [0x7D])
        (String.utf8EncodeChar (Char.ofNat (code.number % 256))) := by
  intro lexeme here rest
  obtain ⟨noted, there, runs, isHex, sameText⟩ :=
    @exists_run_hex form code.bytes (fun _ => isSome_hexValue?_of_mem_bytes)
      { lexeme with hex := lexeme.hex.clear } (here.afterBytes [0x75, 0x7B])
      (by simpa [ByteBuffer.size, ByteBuffer.clear, CodeDigits.bytes] using code.atMostEight)
      (0x7D :: rest)
  have isDigits : noted.hex.toList = code.bytes := isHex
  have closes : (State.string (.hex form)).step noted there 0x7D
      = .next form.body
          { noted with text := noted.text.pushChar (Char.ofNat (code.number % 256)) } := by
    rw [State.step, StringPhase.step, hexStep, if_neg (by decide), if_pos (by decide), isDigits,
      hexEscape?_bytes]
  refine ⟨{ noted with text := noted.text.pushChar (Char.ofNat (code.number % 256)) },
    there.advance 0x7D, ?_, ?_⟩
  · rw [← congrArg ByteBuffer.toList sameText]
    exact Array.toList_appendList
  · have opens (bytes : List UInt8)
        : run (.string (.escape form)) lexeme here (0x75 :: 0x7B :: bytes)
          = run (.string (.hex form)) { lexeme with hex := lexeme.hex.clear }
              (here.afterBytes [0x75, 0x7B]) bytes :=
      rfl
    rw [List.append_assoc, List.singleton_append]
    refine (opens _).trans (runs.trans ?_)
    rw [run, closes]

/-- After a backslash an escape adds what it stands for, and the text goes on. -/
theorem leads_escape (form : StringForm) {item : LiteralItem} (escapes : item.raw? = none)
    : Leads (.string (.escape form)) form.body item.source.tail item.value := by
  cases item with
  | raw byte => cases escapes
  | simple escape => exact leads_simple form escape
  | code digits => exact leads_code form digits

-----------------------------------------------------------------------------------------
-- Phases of the text
-----------------------------------------------------------------------------------------

namespace StringPhase

/-- The form of the literals whose text has this phase. -/
def form? : StringPhase → Option StringForm
  | body => some .single
  | lineStart | lineQuote | lineQuotes | multiBody => some .multi
  | opened | delimiter | escape _ | hexOpen _ | hex _ => none

/-- Whether a quote closes the literal. -/
def closes : StringPhase → Bool
  | body | lineQuotes => true
  | opened | delimiter | lineStart | lineQuote | multiBody | escape _ | hexOpen _ | hex _ => false

/-- Where a text on several lines stands after a byte that is no quote at the start of a line. -/
def inLine (byte : UInt8) : StringPhase :=
  if byte = 0x0A then lineStart else multiBody

/-- Where the text stands after a byte that is no escape. -/
def afterRaw (byte : UInt8) : StringPhase → StringPhase
  | body => body
  | lineStart => if byte = 0x22 then lineQuote else inLine byte
  | lineQuote => if byte = 0x22 then lineQuotes else inLine byte
  | _ => inLine byte

/-- Where the text stands after an escape, which is never at the start of a line. -/
def afterEscape : StringPhase → StringPhase
  | body => body
  | _ => multiBody

/-- Whether a byte stands for itself. -/
def IsRaw (byte : UInt8) : StringPhase → Prop
  | body => isPlain byte
  | lineQuotes => byte ≠ 0x5C ∧ byte ≠ 0x22
  | _ => byte ≠ 0x5C

variable {phase : StringPhase} {form : StringForm}

theorem form?_inLine (byte : UInt8) : (inLine byte).form? = some .multi := by
  unfold inLine
  split <;> rfl

theorem afterRaw_of_ne_quote (isText : phase.form? = some .multi) {byte : UInt8}
    (notQuote : byte ≠ 0x22)
    : phase.afterRaw byte = inLine byte := by
  cases phase with
  | lineStart | lineQuote => exact if_neg notQuote
  | lineQuotes | multiBody => rfl
  | body | opened | delimiter | escape _ | hexOpen _ | hex _ => cases isText

theorem form?_afterRaw (isText : phase.form? = some form) (byte : UInt8)
    : (phase.afterRaw byte).form? = some form := by
  cases phase with
  | body => exact isText
  | lineStart | lineQuote =>
      cases isText
      unfold afterRaw
      dsimp only
      split
      · rfl
      · exact form?_inLine byte
  | lineQuotes | multiBody => exact isText ▸ form?_inLine byte
  | opened | delimiter | escape _ | hexOpen _ | hex _ => cases isText

theorem form?_afterEscape (isText : phase.form? = some form)
    : phase.afterEscape.form? = some form := by
  cases phase with
  | body | lineStart | lineQuote | lineQuotes | multiBody => exact isText
  | opened | delimiter | escape _ | hexOpen _ | hex _ => cases isText

theorem leads_raw (isText : phase.form? = some form) {byte : UInt8} (isRaw : phase.IsRaw byte)
    : Leads (.string phase) (.string (phase.afterRaw byte)) [byte] [byte] := by
  have inText (lexeme : Lexeme) (notEscape : byte ≠ 0x5C)
      : multiText lexeme byte
        = .next (.string (inLine byte)) (lexeme.push byte) := by
    unfold multiText inLine
    split
    · next isSign => exact absurd ((ofUInt8_eq_backslash byte).mp isSign) notEscape
    · next isNewline => rw [if_pos ((ofUInt8_eq_newline byte).mp isNewline)]
    · next notNewline => rw [if_neg (mt (ofUInt8_eq_newline byte).mpr notNewline)]
  refine .push fun lexeme here => ?_
  cases phase with
  | body => exact singleText_plain lexeme isRaw
  | multiBody => exact inText lexeme isRaw
  | lineQuotes =>
      have notQuote : Char.ofUInt8 byte ≠ '"' := mt (ofUInt8_eq_quote byte).mp isRaw.2
      exact (if_neg notQuote).trans (inText lexeme isRaw.1)
  | lineStart | lineQuote =>
      by_cases isQuote : byte = 0x22
      · subst isQuote
        rfl
      · have notQuote : Char.ofUInt8 byte ≠ '"' := mt (ofUInt8_eq_quote byte).mp isQuote
        cases isText
        rw [afterRaw_of_ne_quote rfl isQuote]
        exact (if_neg notQuote).trans (inText lexeme isRaw)
  | opened | delimiter | escape _ | hexOpen _ | hex _ => cases isText

theorem leads_escape (isText : phase.form? = some form) {item : LiteralItem}
    (escapes : item.raw? = none)
    : Leads (.string phase) (.string phase.afterEscape) item.source item.value := by
  have opens : Leads (.string phase) (.string (.escape form)) [0x5C] [] := by
    refine .move fun lexeme here => ?_
    cases phase with
    | body | lineStart | lineQuote | lineQuotes | multiBody =>
        cases isText
        rfl
    | opened | delimiter | escape _ | hexOpen _ | hex _ => cases isText
  have goesOn : form.body = .string phase.afterEscape := by
    cases phase with
    | body | lineStart | lineQuote | lineQuotes | multiBody =>
        cases isText
        rfl
    | opened | delimiter | escape _ | hexOpen _ | hex _ => cases isText
  have closes : Leads (.string (.escape form)) (.string phase.afterEscape) item.source.tail
      item.value :=
    goesOn ▸ Lexical.leads_escape form escapes
  cases item with
  | raw byte => cases escapes
  | simple _ | code _ => exact opens.trans closes

/-- Where the text stands after an item with this byte, or with none. -/
def after (phase : StringPhase) : Option UInt8 → StringPhase
  | some byte => phase.afterRaw byte
  | none => phase.afterEscape

/-- Whether an item with this byte, or with none, can be read. -/
def Admits (phase : StringPhase) : Option UInt8 → Prop
  | some byte => phase.IsRaw byte
  | none => True

theorem form?_after (isText : phase.form? = some form) (raw? : Option UInt8)
    : (phase.after raw?).form? = some form := by
  cases raw? with
  | some byte => exact form?_afterRaw isText byte
  | none => exact form?_afterEscape isText

theorem leads_item (isText : phase.form? = some form) {item : LiteralItem}
    (admits : phase.Admits item.raw?)
    : Leads (.string phase) (.string (phase.after item.raw?)) item.source item.value := by
  cases item with
  | raw byte => exact leads_raw isText admits
  | simple _ | code _ => exact leads_escape isText rfl

end StringPhase

/-- Items of a text that can be read from one phase on, and the phase after them. -/
inductive ReadsItems : StringPhase → List LiteralItem → StringPhase → Prop
  | nil {phase : StringPhase} : ReadsItems phase [] phase
  | cons {phase last : StringPhase} {item : LiteralItem} {items : List LiteralItem}
    (admits : phase.Admits item.raw?) (later : ReadsItems (phase.after item.raw?) items last)
    : ReadsItems phase (item :: items) last

namespace ReadsItems

variable {phase middle last : StringPhase} {form : StringForm} {items more : List LiteralItem}

/-- The automaton collects what the items stand for, by induction on them. -/
theorem leads (reads : ReadsItems phase items last) (isText : phase.form? = some form)
    : Leads (.string phase) (.string last) (items.flatMap LiteralItem.source)
        (items.flatMap LiteralItem.value) := by
  induction reads with
  | nil => exact .nil _
  | cons admits later ih =>
      rw [List.flatMap_cons, List.flatMap_cons]
      exact (StringPhase.leads_item isText admits).trans (ih (StringPhase.form?_after isText _))

theorem append (earlier : ReadsItems phase items middle) (later : ReadsItems middle more last)
    : ReadsItems phase (items ++ more) last := by
  induction earlier with
  | nil => exact later
  | cons admits _ ih => exact .cons admits (ih later)

end ReadsItems

-----------------------------------------------------------------------------------------
-- Finding items
-----------------------------------------------------------------------------------------

variable {lexeme : Lexeme} {here : Location} {form : StringForm} {bytes : List UInt8}
  {kind : TokenKind}

/-- A token has no byte that makes one impossible. -/
theorem step_ne_reject {state : State} {byte : UInt8}
    (reads : (run state lexeme here (byte :: bytes)).verdict = .ok kind) (fault : LexicalFault)
    (last : Lexeme)
    : state.step lexeme here byte ≠ .reject fault last := by
  intro rejects
  rw [run, rejects] at reads
  cases reads

theorem hexEscape?_bounds {digits : List UInt8} {char : Char}
    (escapes : hexEscape? digits = some char)
    : 0 < digits.length ∧ digits.length ≤ 8 := by
  unfold hexEscape? at escapes
  by_cases outside : (digits.isEmpty || decide (8 < digits.length)) = true
  · rw [if_pos outside] at escapes
    cases escapes
  · simp only [Bool.or_eq_true, List.isEmpty_iff, decide_eq_true_eq, not_or] at outside
    exact ⟨List.length_pos_iff.mpr outside.1, Nat.le_of_not_lt outside.2⟩

/-- A code escape in a token has one to eight digits, by induction on the bytes. -/
theorem exists_digits_of_run
    (reads : (run (.string (.hex form)) lexeme here bytes).verdict = .ok kind)
    : ∃ (digits : List HexDigit) (rest : List UInt8),
        bytes = digits.map HexDigit.byte ++ 0x7D :: rest
        ∧ 0 < lexeme.hex.size + digits.length
        ∧ lexeme.hex.size + digits.length ≤ 8 := by
  induction bytes generalizing lexeme here with
  | nil => cases reads
  | cons byte bytes ih =>
      have rejects := step_ne_reject reads
      have step : (State.string (.hex form)).step lexeme here byte = hexStep form lexeme byte := rfl
      rw [step, hexStep] at rejects
      rw [run, step, hexStep] at reads
      by_cases isDigit : (hexValue? byte).isSome = true
      · rw [if_pos isDigit] at rejects reads
        have notFull : lexeme.hex.size ≠ 8 := fun full => rejects _ _ (if_pos full)
        rw [if_neg notFull] at reads
        obtain ⟨digit, rfl⟩ := HexDigit.exists_byte_eq isDigit
        obtain ⟨digits, rest, rfl, notEmpty, fits⟩ := ih reads
        have size : (lexeme.hex.push digit.byte).size = lexeme.hex.size + 1 := Array.size_push _
        rw [size] at notEmpty fits
        refine ⟨digit :: digits, rest, rfl, ?_, ?_⟩
        · rw [List.length_cons]
          omega
        · rw [List.length_cons]
          omega
      · rw [if_neg isDigit] at rejects
        have brace : Char.ofUInt8 byte = '\x7d' ↔ byte = 0x7D := ofUInt8_injective.eq_iff' rfl
        have isBrace : Char.ofUInt8 byte = '\x7d' := by
          by_contra notBrace
          exact rejects _ _ (if_neg notBrace)
        rw [if_pos isBrace] at rejects
        obtain rfl := brace.mp isBrace
        cases escapes : hexEscape? lexeme.hex.toList with
        | none =>
            rw [escapes] at rejects
            exact absurd rfl (rejects _ _)
        | some char => exact ⟨[], bytes, rfl, hexEscape?_bounds escapes⟩

/-- A backslash in a token begins an escape. -/
theorem exists_escape_of_run
    (reads : (run (.string (.escape form)) lexeme here bytes).verdict = .ok kind)
    : ∃ (item : LiteralItem) (rest : List UInt8),
        item.raw? = none ∧ 0x5C :: bytes = item.source ++ rest := by
  cases bytes with
  | nil => cases reads
  | cons sign bytes =>
      by_cases isCode : sign = 0x75
      · subst isCode
        cases bytes with
        | nil => cases reads
        | cons opening bytes =>
            have brace : Char.ofUInt8 opening = '\x7b' ↔ opening = 0x7B :=
              ofUInt8_injective.eq_iff' rfl
            have opened : (run (.string (.hexOpen form)) lexeme (here.advance 0x75)
                (opening :: bytes)).verdict = .ok kind :=
              reads
            have isBrace : Char.ofUInt8 opening = '\x7b' := by
              by_contra notBrace
              exact step_ne_reject opened _ _ (if_neg notBrace)
            obtain rfl := brace.mp isBrace
            have inBraces : (run (.string (.hex form)) { lexeme with hex := lexeme.hex.clear }
                (here.afterBytes [0x75, 0x7B]) bytes).verdict = .ok kind :=
              reads
            obtain ⟨digits, rest, rfl, notEmpty, fits⟩ := exists_digits_of_run inBraces
            have cleared : lexeme.hex.clear.size = 0 := rfl
            rw [cleared, Nat.zero_add] at notEmpty fits
            refine ⟨.code ⟨digits, List.length_pos_iff.mp notEmpty, fits⟩, rest, rfl, ?_⟩
            simp [LiteralItem.source, CodeDigits.bytes]
      · have letter : Char.ofUInt8 sign = 'u' ↔ sign = 0x75 := ofUInt8_injective.eq_iff' rfl
        cases escapes : simpleEscape? sign with
        | none =>
            refine absurd ?_ (step_ne_reject reads (.invalidEscape (Char.ofUInt8 sign)) lexeme)
            change escapeStep form lexeme sign = _
            unfold escapeStep
            rw [escapes]
            split
            · next isLetter => exact absurd (letter.mp isLetter) isCode
            · next isSome _ => cases isSome
            · rfl
        | some value =>
            obtain ⟨escape, rfl⟩ := SimpleEscape.exists_sign_eq escapes
            exact ⟨.simple escape, bytes, rfl, rfl⟩

/-- A token goes on in its text with a quote that closes it or with an item. -/
theorem exists_item_of_run {phase : StringPhase} (isText : phase.form? = some form)
    (reads : (run (.string phase) lexeme here bytes).verdict = .ok kind)
    : (phase.closes = true ∧ ∃ rest, bytes = 0x22 :: rest)
      ∨ ∃ (item : LiteralItem) (rest : List UInt8),
          phase.Admits item.raw? ∧ bytes = item.source ++ rest := by
  cases bytes with
  | nil => cases reads
  | cons byte bytes =>
      by_cases isEscape : byte = 0x5C
      · subst isEscape
        have escaped : (run (.string (.escape form)) lexeme (here.advance 0x5C) bytes).verdict
            = .ok kind := by
          cases phase with
          | body | lineStart | lineQuote | lineQuotes | multiBody =>
              cases isText
              exact reads
          | opened | delimiter | escape _ | hexOpen _ | hex _ => cases isText
        obtain ⟨item, rest, escapes, split⟩ := exists_escape_of_run escaped
        refine .inr ⟨item, rest, ?_, split⟩
        rw [escapes]
        trivial
      · by_cases isClosing : phase.closes = true ∧ byte = 0x22
        · obtain ⟨closes, rfl⟩ := isClosing
          exact .inl ⟨closes, bytes, rfl⟩
        · refine .inr ⟨.raw byte, bytes, ?_, rfl⟩
          cases phase with
          | lineStart | lineQuote | multiBody => exact isEscape
          | lineQuotes => exact ⟨isEscape, fun isQuote => isClosing ⟨rfl, isQuote⟩⟩
          | body =>
              have notQuote : byte ≠ 0x22 := fun isQuote => isClosing ⟨rfl, isQuote⟩
              refine ⟨?_, notQuote, isEscape⟩
              by_contra control
              refine absurd ?_ (step_ne_reject reads (.controlCharInString byte) lexeme)
              change singleText lexeme byte = _
              unfold singleText
              split
              · next isQuote => exact absurd ((ofUInt8_eq_quote byte).mp isQuote) notQuote
              · next isSign => exact absurd ((ofUInt8_eq_backslash byte).mp isSign) isEscape
              · exact if_pos (UInt8.not_le.mp control)
          | opened | delimiter | escape _ | hexOpen _ | hex _ => cases isText

/-- The text of a token is made of items up to a quote that closes it. By induction on the number of
bytes, of which every item takes some.
-/
theorem exists_readsItems_of_run {phase : StringPhase} (isText : phase.form? = some form)
    (reads : (run (.string phase) lexeme here bytes).verdict = .ok kind)
    : ∃ items last rest,
        ReadsItems phase items last
        ∧ last.closes = true
        ∧ bytes = items.flatMap LiteralItem.source ++ 0x22 :: rest := by
  induction length : bytes.length using Nat.strong_induction_on
    generalizing phase lexeme here bytes with
  | _ size ih =>
      rcases exists_item_of_run isText reads with ⟨closes, rest, rfl⟩ | ⟨item, rest, admits, rfl⟩
      · exact ⟨[], phase, rest, .nil, closes, rfl⟩
      · obtain ⟨grown, there, -, runs⟩ := StringPhase.leads_item isText admits lexeme here rest
        have shorter : rest.length < size := by
          rw [← length, List.length_append]
          exact Nat.lt_add_of_pos_left item.length_source_pos
        rw [runs] at reads
        obtain ⟨items, last, later, readsLater, closes, rfl⟩ :=
          ih _ shorter (StringPhase.form?_after isText item.raw?) reads rfl
        refine ⟨item :: items, last, later, .cons admits readsLater, closes, ?_⟩
        rw [List.flatMap_cons, List.append_assoc]

-----------------------------------------------------------------------------------------
-- Texts on one line and on several
-----------------------------------------------------------------------------------------

/-- On one line the bytes of a text stand for themselves, by induction on the items. -/
theorem readsItems_body_iff {items : List LiteralItem} {last : StringPhase}
    : ReadsItems .body items last ↔ last = .body ∧ ∀ byte, .raw byte ∈ items → isPlain byte := by
  have staysInBody (raw? : Option UInt8) : StringPhase.body.after raw? = .body := by
    cases raw? <;> rfl
  induction items with
  | nil =>
      constructor
      · intro reads
        cases reads
        exact ⟨rfl, by simp⟩
      · rintro ⟨rfl, -⟩
        exact .nil
  | cons item items ih =>
      constructor
      · rintro (_ | ⟨admits, later⟩)
        rw [staysInBody] at later
        obtain ⟨isLast, others⟩ := ih.mp later
        refine ⟨isLast, fun byte member => ?_⟩
        rcases List.mem_cons.mp member with same | member
        · rw [← same] at admits
          exact admits
        · exact others byte member
      · rintro ⟨rfl, plain⟩
        refine .cons ?_ ?_
        · cases item with
          | raw byte => exact plain byte List.mem_cons_self
          | simple _ | code _ => trivial
        · rw [staysInBody]
          exact ih.mpr ⟨rfl, fun byte member => plain byte (List.mem_cons_of_mem _ member)⟩

/-- The start of a line with three quotes, none of them escaped. -/
def closingLine : List (Option UInt8) :=
  [some 0x0A, some 0x22, some 0x22, some 0x22]

namespace StringPhase

variable {phase : StringPhase}

/-- What a phase says of the bytes before it: that a line starts, and how many quotes are there. -/
def lineSoFar : StringPhase → List (Option UInt8)
  | lineStart => [some 0x0A]
  | lineQuote => [some 0x0A, some 0x22]
  | lineQuotes => [some 0x0A, some 0x22, some 0x22]
  | _ => []

theorem lineSoFar_afterRaw (isText : phase.form? = some .multi) (byte : UInt8)
    : (phase.afterRaw byte).lineSoFar <:+ phase.lineSoFar ++ [some byte] := by
  have inText : (inLine byte).lineSoFar <:+ [some byte] := by
    unfold inLine
    split
    · next isNewline =>
        rw [isNewline]
        exact List.suffix_rfl
    · exact List.nil_suffix
  by_cases isQuote : byte = 0x22
  · subst isQuote
    cases phase with
    | lineStart | lineQuote => exact List.suffix_rfl
    | lineQuotes | multiBody => exact List.nil_suffix
    | body | opened | delimiter | escape _ | hexOpen _ | hex _ => cases isText
  · rw [afterRaw_of_ne_quote isText isQuote]
    exact inText.trans (List.suffix_append ..)

/-- A line that starts with three quotes is found after a byte if it was there before. -/
theorem closingLine_infix_afterRaw (isText : phase.form? = some .multi) {byte : UInt8}
    (isRaw : phase.IsRaw byte) {later : List (Option UInt8)}
    (found : closingLine <:+: phase.lineSoFar ++ some byte :: later)
    : closingLine <:+: (phase.afterRaw byte).lineSoFar ++ later := by
  by_cases isQuote : byte = 0x22
  · subst isQuote
    cases phase with
    | lineStart | lineQuote => exact found
    | lineQuotes => exact absurd rfl isRaw.2
    | multiBody =>
        have foundLater : closingLine <:+: later := by
          simpa [lineSoFar, closingLine, List.infix_cons_iff] using found
        exact foundLater
    | body | opened | delimiter | escape _ | hexOpen _ | hex _ => cases isText
  · rw [afterRaw_of_ne_quote isText isQuote]
    -- none of the quotes so far can be the last one of such a line
    have foundInLine : closingLine <:+: some byte :: later := by
      cases phase with
      | multiBody => exact found
      | lineStart | lineQuote | lineQuotes =>
          simpa [lineSoFar, closingLine, List.infix_cons_iff, Ne.symm isQuote] using found
      | body | opened | delimiter | escape _ | hexOpen _ | hex _ => cases isText
    unfold inLine
    split
    · next isNewline =>
        rw [isNewline] at foundInLine
        exact foundInLine
    · next notNewline =>
        rcases List.infix_cons_iff.mp foundInLine with leads | foundLater
        · simp [closingLine, Ne.symm notNewline] at leads
        · exact foundLater

theorem lineSoFar_afterEscape (phase : StringPhase) : phase.afterEscape.lineSoFar = [] := by
  cases phase <;> rfl

theorem lineSoFar_after (isText : phase.form? = some .multi) (raw? : Option UInt8)
    : (phase.after raw?).lineSoFar <:+ phase.lineSoFar ++ [raw?] := by
  cases raw? with
  | some byte => exact lineSoFar_afterRaw isText byte
  | none =>
      rw [after, lineSoFar_afterEscape]
      exact List.nil_suffix

theorem closingLine_infix_after (isText : phase.form? = some .multi) {raw? : Option UInt8}
    (admits : phase.Admits raw?) {later : List (Option UInt8)}
    (found : closingLine <:+: phase.lineSoFar ++ raw? :: later)
    : closingLine <:+: (phase.after raw?).lineSoFar ++ later := by
  cases raw? with
  | some byte => exact closingLine_infix_afterRaw isText admits found
  | none =>
      rw [after, lineSoFar_afterEscape, List.nil_append]
      cases phase <;> simpa [lineSoFar, closingLine, List.infix_cons_iff] using found

end StringPhase

namespace ReadsItems

variable {phase last : StringPhase} {items : List LiteralItem}

theorem lineSoFar_suffix_append (isText : phase.form? = some .multi) (raw? : Option UInt8)
    (later : List (Option UInt8))
    : (phase.after raw?).lineSoFar ++ later <:+ phase.lineSoFar ++ raw? :: later := by
  obtain ⟨front, same⟩ := StringPhase.lineSoFar_after isText raw?
  refine ⟨front, ?_⟩
  rw [← List.append_assoc, same, List.append_assoc, List.singleton_append]

/-- The phase after some items says how they end, by induction on them. -/
theorem lineSoFar_suffix (reads : ReadsItems phase items last) (isText : phase.form? = some .multi)
    : last.lineSoFar <:+ phase.lineSoFar ++ items.map LiteralItem.raw? := by
  induction reads with
  | nil => exact ⟨[], (List.append_nil _).symm⟩
  | cons admits later ih =>
      exact (ih (StringPhase.form?_after isText _)).trans (lineSoFar_suffix_append isText _ _)

/-- No line of the items starts with three quotes, and none is a backslash. By induction on them. -/
theorem isMulti (reads : ReadsItems phase items last) (isText : phase.form? = some .multi)
    : (∀ byte, .raw byte ∈ items → byte ≠ 0x5C)
      ∧ ¬closingLine <:+: phase.lineSoFar ++ items.map LiteralItem.raw? := by
  induction reads with
  | @nil phase =>
      refine ⟨by simp, ?_⟩
      cases phase with
      | lineStart | lineQuote | lineQuotes | multiBody => decide
      | body | opened | delimiter | escape _ | hexOpen _ | hex _ => cases isText
  | @cons phase last item items admits later ih =>
      obtain ⟨noEscape, noClose⟩ := ih (StringPhase.form?_after isText _)
      refine ⟨fun byte member => ?_, fun found => noClose ?_⟩
      · rcases List.mem_cons.mp member with same | member
        · rw [← same] at admits
          cases phase with
          | lineStart | lineQuote | multiBody => exact admits
          | lineQuotes => exact admits.1
          | body | opened | delimiter | escape _ | hexOpen _ | hex _ => cases isText
        · exact noEscape byte member
      · exact StringPhase.closingLine_infix_after isText admits found

end ReadsItems

/-- Items without such a line and without a backslash can be read, by induction on them. -/
theorem exists_readsItems {phase : StringPhase} (isText : phase.form? = some .multi)
    {items : List LiteralItem} (noEscape : ∀ byte, .raw byte ∈ items → byte ≠ 0x5C)
    (noClose : ¬closingLine <:+: phase.lineSoFar ++ items.map LiteralItem.raw?)
    : ∃ last, last.form? = some .multi ∧ ReadsItems phase items last := by
  induction items generalizing phase with
  | nil => exact ⟨phase, isText, .nil⟩
  | cons item items ih =>
      have admits : phase.Admits item.raw? := by
        cases item with
        | simple _ | code _ => trivial
        | raw byte =>
            have notEscape := noEscape byte List.mem_cons_self
            cases phase with
            | lineStart | lineQuote | multiBody => exact notEscape
            | lineQuotes =>
                refine ⟨notEscape, ?_⟩
                rintro rfl
                exact noClose (List.prefix_append closingLine _).isInfix
            | body | opened | delimiter | escape _ | hexOpen _ | hex _ => cases isText
      have suffix := ReadsItems.lineSoFar_suffix_append isText item.raw?
        (items.map LiteralItem.raw?)
      obtain ⟨last, isLast, reads⟩ :=
        ih (StringPhase.form?_after isText item.raw?)
          (fun byte member => noEscape byte (List.mem_cons_of_mem _ member))
          (fun found => noClose (found.trans suffix.isInfix))
      exact ⟨last, isLast, .cons admits reads⟩

theorem eq_map_raw {items : List LiteralItem} (bytes : List UInt8)
    (areRaw : items.map LiteralItem.raw? = bytes.map some)
    : items = bytes.map .raw := by
  induction items generalizing bytes with
  | nil =>
      cases bytes with
      | nil => rfl
      | cons byte bytes => cases areRaw
  | cons item items ih =>
      cases bytes with
      | nil => cases areRaw
      | cons byte bytes =>
          obtain ⟨isRaw, others⟩ := List.cons.inj areRaw
          cases item with
          | raw same =>
              cases isRaw
              rw [ih bytes others]
              rfl
          | simple _ | code _ => cases isRaw

/-- The items up to a quote that closes a literal on several lines: two quotes right at its start,
or a text and then a line that starts with two quotes.
-/
theorem readsItems_lineStart_iff {items : List LiteralItem}
    : ReadsItems .lineStart items .lineQuotes
      ↔ items = [.raw 0x22, .raw 0x22]
        ∨ ∃ body,
            items = body ++ [.raw 0x0A, .raw 0x22, .raw 0x22]
            ∧ (∀ byte, .raw byte ∈ body → byte ≠ 0x5C)
            ∧ ¬closingLine <:+: some 0x0A :: body.map LiteralItem.raw? := by
  have quote : (0x22 : UInt8) ≠ 0x5C := by decide
  have quotes : ReadsItems .lineStart [.raw 0x22, .raw 0x22] .lineQuotes :=
    .cons quote (.cons quote .nil)
  constructor
  · intro reads
    obtain ⟨noEscape, noClose⟩ := reads.isMulti rfl
    obtain ⟨front, ends⟩ := reads.lineSoFar_suffix rfl
    cases front with
    | nil => exact .inl (eq_map_raw [0x22, 0x22] (List.cons.inj ends).2.symm)
    | cons newline front =>
        obtain ⟨body, closing, rfl, -, areRaw⟩ :=
          List.map_eq_append_iff.mp (List.cons.inj ends).2.symm
        obtain rfl := eq_map_raw [0x0A, 0x22, 0x22] areRaw
        refine .inr ⟨body, rfl, fun byte member => ?_, fun found => noClose ?_⟩
        · exact noEscape byte (List.mem_append_left _ member)
        · rw [List.map_append]
          exact found.trans (List.prefix_append (some 0x0A :: body.map _) _).isInfix
  · rintro (rfl | ⟨body, rfl, noEscape, noClose⟩)
    · exact quotes
    · obtain ⟨last, isText, reads⟩ := @exists_readsItems .lineStart rfl body noEscape noClose
      have notBackslash : (0x0A : UInt8) ≠ 0x5C := by decide
      have newline : last.Admits (some 0x0A) ∧ last.after (some 0x0A) = .lineStart := by
        cases last with
        | lineStart | lineQuote | multiBody => exact ⟨notBackslash, rfl⟩
        | lineQuotes => exact ⟨⟨notBackslash, by decide⟩, rfl⟩
        | body | opened | delimiter | escape _ | hexOpen _ | hex _ => cases isText
      refine reads.append (.cons newline.1 ?_)
      rw [LiteralItem.raw?, newline.2]
      exact quotes

end ExprCompiler.Lexical

import ExprCompiler.Proofs.Lexical.Comments
import ExprCompiler.Proofs.Lexical.Spelling
import ExprCompiler.Proofs.Number.Numeral

/-! Written signs, names and numbers read back, one at a time. Main statement: before a space or
the end of input, the bytes of each are read as the token that is meant and nothing more.
-/

namespace ExprCompiler

/-- A table in which every word stands with its spelling, and is found by it, finds nothing
else.
-/
theorem lookup_eq_some_iff_of_spelled {Word : Type} (text : Word → String)
    {words : List (List UInt8 × Word)}
    (spelled : ∀ entry ∈ words, entry.1 = Utf8.encode (text entry.2))
    (listed : ∀ word, words.lookup (Utf8.encode (text word)) = some word)
    {bytes : List UInt8} {word : Word}
    : words.lookup bytes = some word ↔ bytes = Utf8.encode (text word) := by
  constructor
  · intro found
    obtain ⟨before, after, isTable, -⟩ := List.lookup_eq_some_iff.mp found
    exact spelled (bytes, word) (by simp [isTable])
  · rintro rfl
    exact listed word

/-- The bytes that are read as a keyword are those that spell it. -/
theorem Keyword.ofBytes?_eq_some_iff {bytes : List UInt8} {word : Keyword}
    : ofBytes? bytes = some word ↔ bytes = Utf8.encode word.text := by
  apply lookup_eq_some_iff_of_spelled text
  · decide
  · intro word
    cases word <;> decide

/-- The bytes that are read as a type are those that spell it. -/
theorem BaseType.ofBytes?_eq_some_iff {bytes : List UInt8} {base : BaseType}
    : ofBytes? bytes = some base ↔ bytes = Utf8.encode base.text := by
  apply lookup_eq_some_iff_of_spelled text
  · decide
  · intro base
    cases base <;> decide

namespace Lexical

-----------------------------------------------------------------------------------------
-- Bytes that complete a token
-----------------------------------------------------------------------------------------

/-- Whether a token cannot go on: nothing is left, or a space comes next. -/
def EndsToken (rest : List UInt8) : Prop :=
  ∀ byte ∈ rest.head?, byte = 0x20

/-- In a state in which some text was collected, some bytes complete a token. -/
def State.Completes (state : State) (text bytes : List UInt8) (kind : TokenKind) : Prop :=
  ∀ (lexeme : Lexeme) (here : Location) (rest : List UInt8),
    lexeme.text.toList = text → EndsToken rest
    → (run state lexeme here (bytes ++ rest)).verdict = .ok kind
      ∧ (run state lexeme here (bytes ++ rest)).rest = rest

@[simp] theorem toList_push (lexeme : Lexeme) (byte : UInt8)
    : (lexeme.push byte).text.toList = lexeme.text.toList ++ [byte] :=
  Array.toList_push

/-- Nothing that is pending goes on with a space. -/
theorem Pending.continued?_space (pending : Pending) (lexeme : Lexeme)
    : pending.continued? lexeme 0x20 = none := by
  cases pending <;> rfl

namespace State.Completes

variable {state following : State} {text grown bytes : List UInt8} {byte : UInt8}
  {kind : TokenKind} {unfinished after : Pending}

theorem cons
    (step : ∀ lexeme here, lexeme.text.toList = text
      → ∃ advanced, state.step lexeme here byte = .next following advanced
        ∧ advanced.text.toList = grown)
    (later : following.Completes grown bytes kind)
    : state.Completes text (byte :: bytes) kind := by
  intro lexeme here rest isText ends
  obtain ⟨advanced, stepped, isGrown⟩ := step lexeme here isText
  rw [List.cons_append, run, stepped]
  exact later advanced _ rest isGrown ends

/-- A first byte is collected. -/
theorem begin (notBlank : isBlank byte = false)
    (begins : ∀ lexeme, firstByte lexeme byte = .next (.pending after) (lexeme.push byte))
    (later : (State.pending after).Completes [byte] bytes kind)
    : State.start.Completes [] (byte :: bytes) kind := by
  refine cons ?_ later
  intro lexeme here isText
  refine ⟨{ lexeme with start := here }.push byte, ?_, ?_⟩
  · rw [State.step_start lexeme here notBlank, begins]
  · exact (toList_push _ _).trans (congrArg (· ++ [byte]) isText)

theorem accept
    (step : ∀ lexeme here, lexeme.text.toList = text
      → ∃ advanced, state.step lexeme here byte = .accept kind advanced)
    : state.Completes text [byte] kind := by
  intro lexeme here rest isText ends
  obtain ⟨advanced, stepped⟩ := step lexeme here isText
  rw [List.singleton_append, run, stepped]
  exact ⟨rfl, rfl⟩

/-- A space or the end of input completes what is pending. -/
theorem pending
    (verdict : ∀ lexeme, lexeme.text.toList = text → unfinished.verdict lexeme = .ok kind)
    : (State.pending unfinished).Completes text [] kind := by
  intro lexeme here rest isText ends
  cases rest with
  | nil => exact ⟨verdict lexeme isText, rfl⟩
  | cons byte rest =>
      obtain rfl := ends byte rfl
      have step : (State.pending unfinished).step lexeme here 0x20
          = .done (unfinished.ending lexeme) := by
        rw [State.step, Pending.step, Pending.continued?_space]
        rfl
      rw [List.nil_append, run, step]
      exact ⟨verdict lexeme isText, rfl⟩

theorem grow (continues : ∀ lexeme, unfinished.continued? lexeme byte = after.grow lexeme byte)
    (later : (State.pending after).Completes (text ++ [byte]) bytes kind)
    : (State.pending unfinished).Completes text (byte :: bytes) kind := by
  refine cons (fun lexeme here isText => ⟨lexeme.push byte, ?_, ?_⟩) later
  · rw [State.step, Pending.step, continues]
    rfl
  · rw [toList_push, isText]

/-- Bytes that keep a lexeme pending are collected, by induction on them. -/
theorem growAll {front : List UInt8}
    (continues : ∀ byte ∈ front, ∀ lexeme,
      unfinished.continued? lexeme byte = unfinished.grow lexeme byte)
    (later : (State.pending unfinished).Completes (text ++ front) bytes kind)
    : (State.pending unfinished).Completes text (front ++ bytes) kind := by
  induction front generalizing text with
  | nil =>
      rw [List.append_nil] at later
      exact later
  | cons byte front ih =>
      obtain ⟨first, others⟩ := List.forall_mem_cons.mp continues
      refine grow first (ih others ?_)
      rw [List.append_assoc]
      exact later

end State.Completes

theorem completes_soleSign (byte : UInt8) {sign : Operator} {text : String}
    (written : Utf8.encode text = [byte])
    (accepts : ∀ lexeme here,
      State.start.step lexeme here byte = .accept (.operator sign) { lexeme with start := here })
    : State.start.Completes [] (Utf8.encode text) (.operator sign) := by
  rw [written]
  exact .accept fun lexeme here _ => ⟨_, accepts lexeme here⟩

/-- A sign that could be the start of a longer one. -/
theorem completes_shortSign (byte : UInt8) {pending : Pending} {sign : Operator} {text : String}
    (written : Utf8.encode text = [byte])
    (begins : ∀ lexeme here,
      State.start.step lexeme here byte = .next (.pending pending) { lexeme with start := here })
    (verdict : ∀ lexeme, pending.verdict lexeme = .ok (.operator sign))
    : State.start.Completes [] (Utf8.encode text) (.operator sign) := by
  rw [written]
  refine .cons (fun lexeme here isText => ⟨_, begins lexeme here, isText⟩) ?_
  exact .pending fun lexeme _ => verdict lexeme

theorem completes_longSign (first second : UInt8) {pending : Pending} {sign : Operator}
    {text : String} (written : Utf8.encode text = [first, second])
    (begins : ∀ lexeme here,
      State.start.step lexeme here first = .next (.pending pending) { lexeme with start := here })
    (continues : ∀ lexeme,
      pending.continued? lexeme second = some (.accept (.operator sign) lexeme))
    : State.start.Completes [] (Utf8.encode text) (.operator sign) := by
  rw [written]
  refine .cons (fun lexeme here isText => ⟨_, begins lexeme here, isText⟩) (.accept ?_)
  intro lexeme here isText
  exact ⟨lexeme, by rw [State.step, Pending.step, continues]; rfl⟩

theorem completes_operator (sign : Operator)
    : State.start.Completes [] (Utf8.encode sign.text) (.operator sign) := by
  cases sign with
  | less => exact completes_shortSign 0x3C (by decide) (fun _ _ => rfl) fun _ => rfl
  | greater => exact completes_shortSign 0x3E (by decide) (fun _ _ => rfl) fun _ => rfl
  | bang => exact completes_shortSign 0x21 (by decide) (fun _ _ => rfl) fun _ => rfl
  | assign => exact completes_shortSign 0x3D (by decide) (fun _ _ => rfl) fun _ => rfl
  | minus => exact completes_shortSign 0x2D (by decide) (fun _ _ => rfl) fun _ => rfl
  | slash => exact completes_shortSign 0x2F (by decide) (fun _ _ => rfl) fun _ => rfl
  | lessEqual => exact completes_longSign 0x3C 0x3D (by decide) (fun _ _ => rfl) fun _ => rfl
  | greaterEqual => exact completes_longSign 0x3E 0x3D (by decide) (fun _ _ => rfl) fun _ => rfl
  | notEqual => exact completes_longSign 0x21 0x3D (by decide) (fun _ _ => rfl) fun _ => rfl
  | coalesce => exact completes_longSign 0x3F 0x3F (by decide) (fun _ _ => rfl) fun _ => rfl
  | equal => exact completes_longSign 0x3D 0x3D (by decide) (fun _ _ => rfl) fun _ => rfl
  | arrow => exact completes_longSign 0x2D 0x3E (by decide) (fun _ _ => rfl) fun _ => rfl
  | colon => exact completes_soleSign 0x3A (by decide) fun _ _ => rfl
  | openBrace => exact completes_soleSign 0x7B (by decide) fun _ _ => rfl
  | closeBrace => exact completes_soleSign 0x7D (by decide) fun _ _ => rfl
  | openParen => exact completes_soleSign 0x28 (by decide) fun _ _ => rfl
  | closeParen => exact completes_soleSign 0x29 (by decide) fun _ _ => rfl
  | plus => exact completes_soleSign 0x2B (by decide) fun _ _ => rfl
  | star => exact completes_soleSign 0x2A (by decide) fun _ _ => rfl
  | comma => exact completes_soleSign 0x2C (by decide) fun _ _ => rfl

-----------------------------------------------------------------------------------------
-- Names
-----------------------------------------------------------------------------------------

/-- The token of a finished name with some text. -/
def nameKind (text : List UInt8) : TokenKind :=
  match Keyword.ofBytes? text with
  | some word => .keyword word
  | none =>
      match BaseType.ofBytes? text with
      | some base => .typeName base false
      | none => .identifier (Utf8.decodeLossy text)

theorem nameToken_fst (lexeme : Lexeme)
    : (nameToken lexeme).1 = nameKind lexeme.text.toList := by
  unfold nameToken nameKind
  cases Keyword.ofBytes? lexeme.text.toList with
  | some word => rfl
  | none => cases BaseType.ofBytes? lexeme.text.toList <;> rfl

theorem firstByte_letter (lexeme : Lexeme) {byte : UInt8} (letter : isLetter byte = true)
    : firstByte lexeme byte = .next (.pending .name) (lexeme.push byte) := by
  have notBreak : Char.ofUInt8 byte ≠ '\n' := by
    rw [Ne, ofUInt8_eq_newline]
    rintro rfl
    cases letter
  simp [firstByte, notBreak, letter]

theorem isBlank_of_isNameByte {byte : UInt8} (inName : isNameByte byte = true)
    : isBlank byte = false := by
  by_contra blank
  simp only [isBlank, Bool.not_eq_false, Bool.or_eq_true, decide_eq_true_eq] at blank
  rcases blank with (((rfl | rfl) | rfl) | rfl) | rfl <;> cases inName

/-- Whether some bytes are all of a name: a letter or an underscore, and then any bytes of names.
An underscore alone is none.
-/
def isWholeName : List UInt8 → Bool
  | [] => false
  | first :: rest =>
      (isLetter first || first = 0x5F) && rest.all isNameByte && (first :: rest != [0x5F])

/-- A name goes on for as long as it can. -/
theorem completes_name {bytes more : List UInt8} {kind : TokenKind}
    (isName : isWholeName bytes = true)
    (later : (State.pending .name).Completes bytes more kind)
    : State.start.Completes [] (bytes ++ more) kind := by
  have grows {rest : List UInt8} (inName : rest.all isNameByte = true)
      : ∀ byte ∈ rest, ∀ lexeme,
          Pending.name.continued? lexeme byte = Pending.name.grow lexeme byte := by
    intro byte member lexeme
    rw [Pending.continued?, if_pos (List.all_eq_true.mp inName byte member)]
  cases bytes with
  | nil => cases isName
  | cons first rest =>
      simp only [isWholeName, Bool.and_eq_true, Bool.or_eq_true, decide_eq_true_eq] at isName
      obtain ⟨⟨letter | rfl, inName⟩, notUnderscore⟩ := isName
      · refine .begin ?_ (fun lexeme => firstByte_letter lexeme letter)
          (.growAll (grows inName) later)
        exact isBlank_of_isNameByte (by simp [isNameByte, letter])
      · cases rest with
        | nil => cases notUnderscore
        | cons second rest =>
            simp only [List.all_cons, Bool.and_eq_true] at inName
            refine .begin rfl (fun _ => rfl) (.grow ?_ (.growAll (grows inName.2) later))
            intro lexeme
            rw [Pending.continued?, if_pos inName.1]

/-- A name that nothing continues is the token that its bytes stand for. -/
theorem completes_nameKind {bytes : List UInt8} {kind : TokenKind}
    (isName : isWholeName bytes = true) (isKind : nameKind bytes = kind)
    : State.start.Completes [] bytes kind := by
  have completes : State.start.Completes [] (bytes ++ []) kind := by
    refine completes_name isName (.pending fun lexeme isText => ?_)
    rw [Pending.verdict, nameToken_fst, isText, isKind]
  rwa [List.append_nil] at completes

theorem completes_keyword (word : Keyword)
    : State.start.Completes [] (Utf8.encode word.text) (.keyword word) := by
  apply completes_nameKind
  · cases word <;> decide
  · cases word <;> decide

theorem completes_typeName (base : BaseType) (nilable : Bool)
    : State.start.Completes [] (Utf8.encode (base.text ++ if nilable then "?" else ""))
        (.typeName base nilable) := by
  have isName : isWholeName (Utf8.encode base.text) = true := by cases base <;> decide
  have isKind : nameKind (Utf8.encode base.text) = .typeName base false := by
    cases base <;> decide
  cases nilable with
  | false =>
      rw [if_neg Bool.false_ne_true, String.append_empty]
      exact completes_nameKind isName isKind
  | true =>
      have mark : Utf8.encode "?" = [0x3F] := by decide
      rw [if_pos rfl, Utf8.encode_append, mark]
      refine completes_name isName (.accept fun lexeme here isText => ⟨lexeme, ?_⟩)
      have named : (nameToken lexeme).1 = .typeName base false := by
        rw [nameToken_fst, isText, isKind]
      have continued : Pending.name.continued? lexeme 0x3F
          = some (.accept (.typeName base true) lexeme) := by
        rw [Pending.continued?, if_neg (by decide), nilableType?, if_pos (by decide), named]
      rw [State.step, Pending.step, continued]
      rfl

/-- A character of a name is one byte of a name. -/
theorem exists_encodeChar_eq {char : Char} (inName : continuesName char = true)
    : ∃ byte, String.utf8EncodeChar char = [byte] ∧ isNameByte byte = true
        ∧ (startsName char = true → isLetter byte = true ∨ byte = 0x5F) := by
  have all : ∀ code < 128,
      (continuesName (Char.ofNat code) = true → isNameByte (.ofNat code) = true)
      ∧ (startsName (Char.ofNat code) = true
        → isLetter (.ofNat code) = true ∨ UInt8.ofNat code = 0x5F) := by
    decide
  have below {last : Char} (notAfter : char ≤ last) : char.toNat ≤ last.toNat := notAfter
  have ascii : char.toNat < 128 := by
    simp only [continuesName, startsName, Bool.or_eq_true, Bool.and_eq_true,
      decide_eq_true_eq] at inName
    rcases inName with ((upper | lower) | rfl) | digit
    · exact Nat.lt_of_le_of_lt (below upper.2) (by decide)
    · exact Nat.lt_of_le_of_lt (below lower.2) (by decide)
    · decide
    · exact Nat.lt_of_le_of_lt (below digit.2) (by decide)
  obtain ⟨isName, isStart⟩ := all char.toNat ascii
  rw [Char.ofNat_toNat] at isName isStart
  exact ⟨_, Utf8.encodeChar_of_lt ascii, isName inName, isStart⟩

theorem isWholeName_encode (name : Identifier)
    : isWholeName (Utf8.encode name.text) = true := by
  have firstContinues : continuesName name.first = true := by simp [continuesName, name.starts]
  obtain ⟨first, single, -, starts⟩ := exists_encodeChar_eq firstContinues
  have split : Utf8.encode name.text
      = first :: name.rest.flatMap String.utf8EncodeChar := by
    rw [Utf8.encode, Identifier.text, String.toList_ofList, List.flatMap_cons, single]
    rfl
  have continues : (name.rest.flatMap String.utf8EncodeChar).all isNameByte = true := by
    rw [List.all_eq_true]
    intro byte member
    obtain ⟨char, inRest, inChar⟩ := List.mem_flatMap.mp member
    obtain ⟨single, isChar, isName, -⟩ := exists_encodeChar_eq (name.continues char inRest)
    rw [isChar, List.mem_singleton] at inChar
    exact inChar ▸ isName
  have notUnderscore : Utf8.encode name.text ≠ [0x5F] := by
    intro same
    have underscore : Utf8.encode "_" = [0x5F] := by decide
    exact name.notUnderscore (Utf8.encode_injective (same.trans underscore.symm))
  rw [split] at notUnderscore ⊢
  simp [isWholeName, continues, notUnderscore, starts name.starts]

theorem nameKind_encode (name : Identifier)
    : nameKind (Utf8.encode name.text) = .identifier name.text := by
  have noKeyword : Keyword.ofBytes? (Utf8.encode name.text) = none := by
    rw [Option.eq_none_iff_forall_ne_some]
    intro word found
    have same := Keyword.ofBytes?_eq_some_iff.mp found
    exact name.notKeyword word (Utf8.encode_injective same)
  have noType : BaseType.ofBytes? (Utf8.encode name.text) = none := by
    rw [Option.eq_none_iff_forall_ne_some]
    intro base found
    have same := BaseType.ofBytes?_eq_some_iff.mp found
    exact name.notType base (Utf8.encode_injective same)
  simp only [nameKind, noKeyword, noType, Utf8.decodeLossy_encode]

-----------------------------------------------------------------------------------------
-- Numbers
-----------------------------------------------------------------------------------------

theorem isLetter_of_isDigit {byte : UInt8} (digit : Decimal.isDigit byte = true)
    : isLetter byte = false := by
  simp only [Decimal.isDigit, Bool.and_eq_true, decide_eq_true_eq, UInt8.le_iff_toNat_le] at digit
  simp only [isLetter, Bool.or_eq_false_iff, Bool.and_eq_false_iff, decide_eq_false_iff_not,
    UInt8.le_iff_toNat_le]
  have upper : (0x39 : UInt8).toNat = 57 := rfl
  have capital : (0x41 : UInt8).toNat = 65 := rfl
  have small : (0x61 : UInt8).toNat = 97 := rfl
  omega

theorem firstByte_digit (lexeme : Lexeme) {byte : UInt8} (digit : Decimal.isDigit byte = true)
    : firstByte lexeme byte = .next (.pending .integer) (lexeme.push byte) := by
  have notBreak : Char.ofUInt8 byte ≠ '\n' := by
    rw [Ne, ofUInt8_eq_newline]
    rintro rfl
    cases digit
  have underscore : Char.ofUInt8 byte = '_' ↔ byte = 0x5F := ofUInt8_injective.eq_iff' rfl
  have notUnderscore : Char.ofUInt8 byte ≠ '_' := by
    rw [Ne, underscore]
    rintro rfl
    cases digit
  simp [firstByte, notBreak, isLetter_of_isDigit digit, notUnderscore, digit]

theorem isSign_of_isDigit {byte : UInt8} (digit : Decimal.isDigit byte = true)
    : isSign byte = false := by
  by_contra sign
  simp only [isSign, Bool.not_eq_false, Bool.or_eq_true, decide_eq_true_eq] at sign
  rcases sign with rfl | rfl <;> cases digit

/-- What a number with one more digit is. -/
def Pending.afterDigit? : Pending → Option Pending
  | .integer => some .integer
  | .point | .fraction => some .fraction
  | .exponentMark | .exponentSign | .exponent => some .exponent
  | _ => none

theorem Pending.continued?_digit {before after : Pending}
    (leads : before.afterDigit? = some after) (lexeme : Lexeme) {byte : UInt8}
    (digit : Decimal.isDigit byte = true)
    : before.continued? lexeme byte = after.grow lexeme byte := by
  cases before <;> cases leads <;> simp [Pending.continued?, digit, isSign_of_isDigit digit]

/-- Digits at the start of a number are collected. -/
theorem completes_digits {digits more : List UInt8} {kind : TokenKind} (notEmpty : digits ≠ [])
    (all : ∀ byte ∈ digits, Decimal.isDigit byte = true)
    (later : (State.pending .integer).Completes digits more kind)
    : State.start.Completes [] (digits ++ more) kind := by
  cases digits with
  | nil => exact absurd rfl notEmpty
  | cons first rest =>
      obtain ⟨isDigit, others⟩ := List.forall_mem_cons.mp all
      refine .begin ?_ (fun lexeme => firstByte_digit lexeme isDigit) (.growAll ?_ later)
      · exact isBlank_of_isNameByte (by simp [isNameByte, isDigit])
      · exact fun byte member lexeme => Pending.continued?_digit rfl lexeme (others byte member)

/-- Digits are bytes with the value that the digits have, by induction on them. -/
theorem valueOf_encode {chars : List Char} {before total : Nat}
    (read : digitsAfter? 10 before chars = some total)
    : Decimal.valueOf (chars.flatMap String.utf8EncodeChar) before = total
      ∧ ∀ byte ∈ chars.flatMap String.utf8EncodeChar, Decimal.isDigit byte = true := by
  have all : ∀ digit < 10,
      String.utf8EncodeChar (Nat.digitChar digit) = [.ofNat (48 + digit)]
      ∧ Decimal.isDigit (.ofNat (48 + digit)) = true
      ∧ (UInt8.ofNat (48 + digit)).toNat - 0x30 = digit := by
    decide
  induction chars generalizing before with
  | nil => exact ⟨Option.some.inj read, by simp⟩
  | cons char chars ih =>
      rw [digitsAfter?, List.foldlM_cons] at read
      cases isDigit : digit? 10 char with
      | none => simp [isDigit] at read
      | some digit =>
          obtain ⟨below, rfl⟩ := digitChar_of_digit? isDigit
          obtain ⟨single, isByte, value⟩ := all digit below
          rw [isDigit] at read
          obtain ⟨total, others⟩ := ih read
          rw [List.flatMap_cons, single]
          refine ⟨?_, ?_⟩
          · rw [← total, Decimal.valueOf, List.singleton_append, List.foldl_cons, value]
            rfl
          · exact List.forall_mem_cons.mpr ⟨isByte, others⟩

theorem int64?_of_natural {bytes : List UInt8} {value : Int64} (notEmpty : bytes ≠ [])
    (all : ∀ byte ∈ bytes, Decimal.isDigit byte = true) (nonnegative : 0 ≤ value.toInt)
    (isValue : (Decimal.valueOf bytes : Int) = value.toInt)
    : Decimal.int64? bytes = some value := by
  have natural : Decimal.natural? bytes = some (Decimal.valueOf bytes) := by
    simp [Decimal.natural?, notEmpty, List.all_eq_true.mpr all]
  have small : Decimal.valueOf bytes < 0x8000000000000000 := by
    have upper := value.toInt_lt
    omega
  have same : Int64.ofNat (Decimal.valueOf bytes) = value := by
    rw [← Int64.ofInt_eq_ofNat, isValue, Int64.ofInt_toInt]
  cases bytes with
  | nil => exact absurd rfl notEmpty
  | cons first rest =>
      rw [Decimal.int64?, splitSign_of_isDigit (all first List.mem_cons_self)]
      simp [natural, small, same]

theorem completes_int {value : Int64} (nonnegative : 0 ≤ value) (zeros : Nat)
    : State.start.Completes []
        (Utf8.encode (.ofList (List.replicate zeros '0') ++ toString value.toInt))
        (.int value) := by
  have isNatural : 0 ≤ value.toInt := Int64.le_iff_toInt_le.mp nonnegative
  obtain ⟨number, isNumber⟩ := Int.eq_ofNat_of_zero_le isNatural
  generalize isText : String.ofList (List.replicate zeros '0') ++ toString value.toInt = text
  have written : text.toList = List.replicate zeros '0' ++ Nat.toDigits 10 number := by
    rw [← isText, String.toList_append, String.toList_ofList, isNumber]
    exact congrArg _ Nat.toList_repr
  have read : digitsAfter? 10 0 text.toList = some number := by
    rw [written, digitsAfter?_append, digitsAfter?_zeros (by decide) (by decide), Nat.zero_mul]
    exact digitsAfter?_toDigits (by decide) (by decide) number
  obtain ⟨total, all⟩ := valueOf_encode read
  have notEmpty : Utf8.encode text ≠ [] := by
    intro empty
    have noText : text = "" := Utf8.encode_injective (empty.trans (by decide))
    rw [noText] at written
    simp at written
  have isValue : Decimal.int64? (Utf8.encode text) = some value :=
    int64?_of_natural notEmpty all isNatural ((congrArg _ total).trans isNumber.symm)
  have completes : State.start.Completes [] (Utf8.encode text ++ []) (.int value) := by
    refine completes_digits notEmpty all (.pending fun lexeme isText => ?_)
    rw [Pending.verdict, integerVerdict, isText, isValue]
  rwa [List.append_nil] at completes

/-- Digits in a number, the first of which may lead to another state. -/
theorem completes_digitsInto {before after : Pending} (leads : before.afterDigit? = some after)
    (stays : after.afterDigit? = some after) {text more : List UInt8} {kind : TokenKind}
    (digits : Digits) (later : (State.pending after).Completes (text ++ digits.bytes) more kind)
    : (State.pending before).Completes text (digits.bytes ++ more) kind := by
  have all : ∀ byte ∈ digits.bytes, Decimal.isDigit byte = true :=
    fun _ => Digits.isDigit_of_mem_bytes
  cases bytes : digits.bytes with
  | nil => cases bytes
  | cons first rest =>
      rw [bytes] at all later
      obtain ⟨isDigit, others⟩ := List.forall_mem_cons.mp all
      refine .grow (fun lexeme => Pending.continued?_digit leads lexeme isDigit) (.growAll ?_ ?_)
      · exact fun byte member lexeme => Pending.continued?_digit stays lexeme (others byte member)
      · rw [List.append_assoc]
        exact later

theorem Pending.continued?_exponentMark {pending : Pending}
    (number : pending = .integer ∨ pending = .fraction) (lexeme : Lexeme) {byte : UInt8}
    (mark : byte = 0x65 ∨ byte = 0x45)
    : pending.continued? lexeme byte = Pending.exponentMark.grow lexeme byte := by
  rcases number with rfl | rfl <;> rcases mark with rfl | rfl <;> rfl

/-- An exponent ends a number. -/
theorem completes_exponent {pending : Pending} {text : List UInt8} {kind : TokenKind}
    (number : pending = .integer ∨ pending = .fraction) (exponent : Exponent)
    (later : (State.pending .exponent).Completes (text ++ exponent.bytes) [] kind)
    : (State.pending pending).Completes text exponent.bytes kind := by
  have split
      : exponent.bytes = exponent.mark :: (exponent.sign ++ (exponent.digits.bytes ++ [])) := by
    rw [List.append_nil]
    rfl
  rw [split]
  refine .grow (fun lexeme => Pending.continued?_exponentMark number lexeme exponent.mark_eq) ?_
  cases signed : exponent.negative? with
  | none =>
      have noSign : exponent.sign = [] := by rw [Exponent.sign, signed]; rfl
      rw [Exponent.bytes, noSign] at later
      rw [noSign, List.nil_append]
      refine completes_digitsInto rfl rfl exponent.digits ?_
      rw [List.append_assoc]
      exact later
  | some negative =>
      obtain ⟨sign, oneSign, isSign⟩
          : ∃ sign, exponent.sign = [sign] ∧ isSign sign = true := by
        refine ⟨_, by rw [Exponent.sign, signed]; rfl, ?_⟩
        cases negative <;> rfl
      have takesSign (lexeme : Lexeme)
          : Pending.exponentMark.continued? lexeme sign
            = Pending.exponentSign.grow lexeme sign := by
        rw [Pending.continued?, if_pos isSign]
      rw [Exponent.bytes, oneSign] at later
      rw [oneSign, List.singleton_append]
      refine .grow takesSign (completes_digitsInto rfl rfl exponent.digits ?_)
      rw [List.append_assoc, List.append_assoc]
      exact later

theorem completes_double (numeral : DoubleNumeral)
    : State.start.Completes [] (Utf8.encode (.ofList numeral.chars)) (.double numeral.value) := by
  have isValue : Decimal.double? (Utf8.encode (.ofList numeral.chars)) = some numeral.value :=
    (Option.some_get _).symm
  have written : Utf8.encode (.ofList numeral.chars)
      = numeral.whole.bytes ++ (numeral.fractionBytes ++ numeral.exponentBytes) := by
    rw [Utf8.encode, String.toList_ofList, numeral.encode_chars]
  have verdict (lexeme : Lexeme)
      (isText : lexeme.text.toList = Utf8.encode (.ofList numeral.chars))
      : doubleVerdict lexeme = .ok (.double numeral.value) := by
    rw [doubleVerdict, isText, isValue]
  rw [written] at verdict ⊢
  generalize numeral.value = value at verdict ⊢
  refine completes_digits (List.cons_ne_nil _ _) (fun _ => Digits.isDigit_of_mem_bytes) ?_
  obtain ⟨whole, fraction?, exponent?, isDouble⟩ := numeral
  have takesPoint (lexeme : Lexeme)
      : Pending.integer.continued? lexeme 0x2E = Pending.point.grow lexeme 0x2E :=
    rfl
  rcases fraction? with _ | digits
  · rcases exponent? with _ | exponent
    · cases isDouble
    · exact completes_exponent (.inl rfl) exponent (.pending verdict)
  · refine .grow takesPoint (completes_digitsInto rfl rfl digits ?_)
    have asText : whole.bytes ++ [0x2E] ++ digits.bytes = whole.bytes ++ 0x2E :: digits.bytes := by
      rw [List.append_assoc]
      rfl
    rw [asText]
    rw [← List.append_assoc] at verdict
    rcases exponent? with _ | exponent
    · refine .pending fun lexeme isText => verdict lexeme ?_
      exact isText.trans (List.append_nil _).symm
    · exact completes_exponent (.inr rfl) exponent (.pending verdict)

end Lexical

end ExprCompiler

import ExprCompiler.Lexical.Scanner
import ExprCompiler.Proofs.Text.Utf8Roundtrip
import ExprCompiler.Text.Quoted

/-! How tokens are written. A spelling says which token is meant and, where there is a choice, how
it is written; the spellings of names and numbers carry what makes them such.
-/

namespace ExprCompiler

/-- A digit is no sign. -/
theorem splitSign_of_isDigit {first : UInt8} (isDigit : Decimal.isDigit first = true)
    (rest : List UInt8)
    : Decimal.splitSign (first :: rest) = (false, first :: rest) := by
  unfold Decimal.splitSign
  split
  · next same =>
      rw [(List.cons.inj same).1] at isDigit
      cases isDigit
  · next same =>
      rw [(List.cons.inj same).1] at isDigit
      cases isDigit
  · rfl

/-- Decimal digits, at least one. -/
structure Digits where
  first : Fin 10
  rest : List (Fin 10) := []
deriving Repr

namespace Digits

def chars (digits : Digits) : List Char :=
  (digits.first :: digits.rest).map fun digit : Fin 10 => Nat.digitChar digit

def bytes (digits : Digits) : List UInt8 :=
  (digits.first :: digits.rest).map fun digit : Fin 10 => .ofNat (48 + digit)

theorem encode_chars (digits : Digits)
    : digits.chars.flatMap String.utf8EncodeChar = digits.bytes := by
  have single : ∀ digit : Fin 10,
      String.utf8EncodeChar (Nat.digitChar digit) = [.ofNat (48 + digit)] := by
    decide
  rw [chars, List.flatMap_map, bytes, List.map_eq_flatMap, funext single]

theorem isDigit_of_mem_bytes {digits : Digits} {byte : UInt8} (member : byte ∈ digits.bytes)
    : Decimal.isDigit byte = true := by
  have all : ∀ digit : Fin 10, Decimal.isDigit (.ofNat (48 + digit)) = true := by decide
  obtain ⟨digit, _, rfl⟩ := List.mem_map.mp member
  exact all digit

theorem natural?_bytes (digits : Digits)
    : Decimal.natural? digits.bytes = some (Decimal.valueOf digits.bytes) := by
  have all : digits.bytes.all Decimal.isDigit = true :=
    List.all_eq_true.mpr fun _ => isDigit_of_mem_bytes
  have notEmpty : digits.bytes.isEmpty = false := rfl
  simp [Decimal.natural?, all, notEmpty]

theorem splitSign_bytes (digits : Digits) (rest : List UInt8)
    : Decimal.splitSign (digits.bytes ++ rest) = (false, digits.bytes ++ rest) :=
  splitSign_of_isDigit (isDigit_of_mem_bytes List.mem_cons_self) _

/-- Digits before something else are read as a whole. -/
theorem takeWhile_bytes (digits : Digits) {rest : List UInt8}
    (ends : ∀ byte ∈ rest.head?, Decimal.isDigit byte = false)
    : (digits.bytes ++ rest).takeWhile Decimal.isDigit = digits.bytes
      ∧ (digits.bytes ++ rest).dropWhile Decimal.isDigit = rest := by
  rw [List.takeWhile_append_of_pos fun _ => isDigit_of_mem_bytes,
    List.dropWhile_append_of_pos fun _ => isDigit_of_mem_bytes]
  cases rest with
  | nil => simp
  | cons byte rest => simp [ends byte rfl]

end Digits

/-- The exponent of a numeral: a letter in either case, a sign or none, and digits. -/
structure Exponent where
  upper : Bool
  negative? : Option Bool
  digits : Digits
deriving Repr

namespace Exponent

def chars (exponent : Exponent) : List Char :=
  (if exponent.upper then 'E' else 'e')
    :: (exponent.negative?.elim [] fun negative => [if negative then '-' else '+'])
    ++ exponent.digits.chars

def mark (exponent : Exponent) : UInt8 :=
  if exponent.upper then 0x45 else 0x65

def sign (exponent : Exponent) : List UInt8 :=
  exponent.negative?.elim [] fun negative => [if negative then 0x2D else 0x2B]

def bytes (exponent : Exponent) : List UInt8 :=
  exponent.mark :: exponent.sign ++ exponent.digits.bytes

theorem encode_chars (exponent : Exponent)
    : exponent.chars.flatMap String.utf8EncodeChar = exponent.bytes := by
  obtain ⟨upper, negative?, digits⟩ := exponent
  rw [chars, List.flatMap_append, Digits.encode_chars, bytes]
  congr 1
  rcases upper with _ | _ <;> rcases negative? with _ | _ | _ <;> rfl

theorem mark_eq (exponent : Exponent) : exponent.mark = 0x65 ∨ exponent.mark = 0x45 := by
  unfold mark
  split
  · exact .inr rfl
  · exact .inl rfl

theorem exists_splitSign_eq (exponent : Exponent)
    : ∃ negative, Decimal.splitSign (exponent.sign ++ exponent.digits.bytes)
        = (negative, exponent.digits.bytes) := by
  unfold sign
  rcases exponent.negative? with _ | _ | _
  · have unsigned := exponent.digits.splitSign_bytes []
    rw [List.append_nil] at unsigned
    exact ⟨false, unsigned⟩
  · exact ⟨false, rfl⟩
  · exact ⟨true, rfl⟩

theorem exists_exponent?_eq (exponent : Exponent)
    : ∃ value, Decimal.exponent? exponent.bytes = some value := by
  obtain ⟨negative, split⟩ := exponent.exists_splitSign_eq
  rw [bytes, List.cons_append, Decimal.exponent?, if_pos exponent.mark_eq, split]
  dsimp only
  rw [exponent.digits.natural?_bytes]
  exact ⟨_, rfl⟩

end Exponent

/-- A decimal numeral that is not that of an integer: it has a point and digits after it, or an
exponent, or both.
-/
structure DoubleNumeral where
  whole : Digits
  fraction? : Option Digits
  exponent? : Option Exponent
  isDouble : fraction?.isSome || exponent?.isSome
deriving Repr

namespace DoubleNumeral

def chars (numeral : DoubleNumeral) : List Char :=
  numeral.whole.chars
    ++ (numeral.fraction?.elim [] fun digits => '.' :: digits.chars)
    ++ numeral.exponent?.elim [] Exponent.chars

def fractionBytes (numeral : DoubleNumeral) : List UInt8 :=
  numeral.fraction?.elim [] fun digits => 0x2E :: digits.bytes

def exponentBytes (numeral : DoubleNumeral) : List UInt8 :=
  numeral.exponent?.elim [] Exponent.bytes

theorem encode_chars (numeral : DoubleNumeral)
    : numeral.chars.flatMap String.utf8EncodeChar
      = numeral.whole.bytes ++ (numeral.fractionBytes ++ numeral.exponentBytes) := by
  obtain ⟨whole, fraction?, exponent?, _⟩ := numeral
  rw [chars, List.flatMap_append, List.flatMap_append, Digits.encode_chars, List.append_assoc]
  congr 2
  · cases fraction? with
    | none => rfl
    | some digits => exact congrArg (0x2E :: ·) digits.encode_chars
  · cases exponent? with
    | none => rfl
    | some exponent => exact exponent.encode_chars

/-- What starts an exponent is neither a digit nor a point. -/
theorem exponentBytes_head (numeral : DoubleNumeral)
    : ∀ byte ∈ numeral.exponentBytes.head?, byte = 0x65 ∨ byte = 0x45 := by
  unfold exponentBytes
  intro byte member
  cases isExponent : numeral.exponent? with
  | none => simp [isExponent] at member
  | some exponent =>
      simp only [isExponent, Option.elim_some, Exponent.bytes, List.cons_append,
        List.head?_cons, Option.mem_some_iff] at member
      exact member ▸ exponent.mark_eq

theorem exists_exponent?_eq (numeral : DoubleNumeral)
    : ∃ value, Decimal.exponent? numeral.exponentBytes = some value := by
  unfold exponentBytes
  cases numeral.exponent? with
  | none => exact ⟨0, rfl⟩
  | some exponent => exact exponent.exists_exponent?_eq

theorem exists_splitFraction_eq (numeral : DoubleNumeral)
    : ∃ fraction, Decimal.splitFraction (numeral.fractionBytes ++ numeral.exponentBytes)
        = (fraction, numeral.exponentBytes) := by
  have notDigit : ∀ byte ∈ numeral.exponentBytes.head?, Decimal.isDigit byte = false := by
    intro byte member
    rcases numeral.exponentBytes_head byte member with rfl | rfl <;> rfl
  cases isFraction : numeral.fraction? with
  | none =>
      refine ⟨[], ?_⟩
      have noFraction : numeral.fractionBytes = [] := by rw [fractionBytes, isFraction]; rfl
      rw [noFraction, List.nil_append]
      unfold Decimal.splitFraction
      split
      · next rest same =>
          rcases numeral.exponentBytes_head 0x2E (by rw [same]; rfl) with absurd | absurd <;>
            cases absurd
      · rfl
  | some digits =>
      obtain ⟨read, left⟩ := digits.takeWhile_bytes notDigit
      have written : numeral.fractionBytes = 0x2E :: digits.bytes := by
        rw [fractionBytes, isFraction]
        rfl
      rw [written, List.cons_append, Decimal.splitFraction, read, left]
      exact ⟨_, rfl⟩

theorem exists_written?_eq (numeral : DoubleNumeral)
    : ∃ written, Decimal.written?
        (numeral.whole.bytes ++ (numeral.fractionBytes ++ numeral.exponentBytes))
        = some written := by
  obtain ⟨fraction, split⟩ := numeral.exists_splitFraction_eq
  obtain ⟨value, isExponent⟩ := numeral.exists_exponent?_eq
  have notDigit
      : ∀ byte ∈ (numeral.fractionBytes ++ numeral.exponentBytes).head?,
          Decimal.isDigit byte = false := by
    intro byte member
    cases isFraction : numeral.fraction? with
    | none =>
        simp only [fractionBytes, isFraction, Option.elim_none, List.nil_append] at member
        rcases numeral.exponentBytes_head byte member with rfl | rfl <;> rfl
    | some digits =>
        simp only [fractionBytes, isFraction, Option.elim_some, List.cons_append, List.head?_cons,
          Option.mem_some_iff] at member
        exact member ▸ rfl
  obtain ⟨read, left⟩ := numeral.whole.takeWhile_bytes notDigit
  have notEmpty : numeral.whole.bytes.isEmpty = false := rfl
  simp [Decimal.written?, read, left, split, isExponent, notEmpty]

/-- Every such numeral has a value. -/
theorem isSome_double? (numeral : DoubleNumeral)
    : (Decimal.double? (Utf8.encode (.ofList numeral.chars))).isSome = true := by
  obtain ⟨written, isWritten⟩ := numeral.exists_written?_eq
  rw [Utf8.encode, String.toList_ofList, encode_chars, Decimal.double?,
    numeral.whole.splitSign_bytes]
  simp [isWritten]

/-- The double that the numeral stands for. -/
def value (numeral : DoubleNumeral) : Double :=
  (Decimal.double? (Utf8.encode (.ofList numeral.chars))).get numeral.isSome_double?

end DoubleNumeral

/-- Whether a character is a letter or an underscore. -/
def startsName (char : Char) : Bool :=
  ('A' ≤ char && char ≤ 'Z') || ('a' ≤ char && char ≤ 'z') || char = '_'

/-- Whether a character is a letter, a digit or an underscore. -/
def continuesName (char : Char) : Bool :=
  startsName char || ('0' ≤ char && char ≤ '9')

/-- A name that nothing else is written as. -/
structure Identifier where
  first : Char
  rest : List Char
  starts : startsName first = true
  continues : ∀ char ∈ rest, continuesName char = true
  notUnderscore : String.ofList (first :: rest) ≠ "_"
  notKeyword : ∀ word : Keyword, String.ofList (first :: rest) ≠ word.text
  notType : ∀ base : BaseType, String.ofList (first :: rest) ≠ base.text

def Identifier.text (name : Identifier) : String :=
  .ofList (name.first :: name.rest)

/-- How a character stands between the quotes of a literal. -/
def literalChars (char : Char) : List Char :=
  if char = '"' ∨ char = '\\' then ['\\', char]
  else if char < ' ' then ['\\', 'u', '\x7b'] ++ (Text.hexDigits char.toNat).toList ++ ['\x7d']
  else [char]

/-- A token and how it is written. -/
inductive Spelling where
  | endOfLine
  | underscore
  | identifier (name : Identifier)
  | keyword (word : Keyword)
  | operator (sign : Operator)
  /-- An integer with zeros in front. -/
  | int (value : Int64) (nonnegative : 0 ≤ value) (zeros : Nat)
  | double (numeral : DoubleNumeral)
  | string (text : String)
  | typeName (base : BaseType) (nilable : Bool)

namespace Spelling

/-- The token that is meant. -/
def kind : Spelling → TokenKind
  | .endOfLine => .endOfLine
  | .underscore => .underscore
  | .identifier name => .identifier name.text
  | .keyword word => .keyword word
  | .operator sign => .operator sign
  | .int value _ _ => .int value
  | .double numeral => .double numeral.value
  | .string text => .string text
  | .typeName base nilable => .typeName base nilable

/-- How it is written. -/
def text : Spelling → String
  | .endOfLine => "\n"
  | .underscore => "_"
  | .identifier name => name.text
  | .keyword word => word.text
  | .operator sign => sign.text
  | .int value _ zeros => .ofList (List.replicate zeros '0') ++ toString value.toInt
  | .double numeral => .ofList numeral.chars
  | .string text => .ofList ('"' :: text.toList.flatMap literalChars ++ ['"'])
  | .typeName base nilable => base.text ++ if nilable then "?" else ""

end Spelling

/-- Writes tokens with single spaces between them. -/
def print (tokens : List Spelling) : String :=
  " ".intercalate (tokens.map Spelling.text)

end ExprCompiler

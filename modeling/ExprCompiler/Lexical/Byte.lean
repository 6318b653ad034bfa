import ExprCompiler.Number.Integer

/-! The classes of source bytes, and the characters that escapes in string literals stand for.
-/

namespace ExprCompiler.Lexical

/-- The ASCII letters. -/
def isLetter (byte : UInt8) : Bool :=
  (0x41 ≤ byte && byte ≤ 0x5A) || (0x61 ≤ byte && byte ≤ 0x7A)

/-- The bytes that continue a name. -/
def isNameByte (byte : UInt8) : Bool :=
  isLetter byte || Decimal.isDigit byte || byte = 0x5F

/-- The blanks that never end a line: space, tab, vertical tab, form feed and return. -/
def isBlank (byte : UInt8) : Bool :=
  byte = 0x20 || byte = 0x09 || byte = 0x0B || byte = 0x0C || byte = 0x0D

/-- The letter that introduces an exponent. -/
def isExponentMark (byte : UInt8) : Bool :=
  byte = 0x65 || byte = 0x45

/-- A plus or a minus. -/
def isSign (byte : UInt8) : Bool :=
  byte = 0x2B || byte = 0x2D

/-- The value of a hexadecimal digit. -/
def hexValue? (byte : UInt8) : Option Nat :=
  if Decimal.isDigit byte then some (byte.toNat - 0x30)
  else if 0x41 ≤ byte && byte ≤ 0x46 then some (byte.toNat - 0x37)
  else if 0x61 ≤ byte && byte ≤ 0x66 then some (byte.toNat - 0x57)
  else none

/-- The character of a code escape with one to eight hexadecimal digits: the low byte of
their value.
-/
def hexEscape? (digits : List UInt8) : Option Char := do
  if digits.isEmpty || 8 < digits.length then none
  let values ← digits.mapM hexValue?
  let code := values.foldl (fun code value => 16 * code + value) 0
  some (Char.ofUInt8 (UInt8.ofNat code))

/-- The byte that a backslash and one letter or sign stand for. -/
def simpleEscape? (byte : UInt8) : Option UInt8 :=
  match Char.ofUInt8 byte with
  | 'n' => some 0x0A
  | 'r' => some 0x0D
  | 't' => some 0x09
  | '"' => some byte
  | '\\' => some byte
  | _ => none

end ExprCompiler.Lexical

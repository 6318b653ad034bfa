/-! Decimal integers in text: a nonempty run of the digits 0 to 9, after an optional sign
where one is allowed. A value outside the asked range is no number.
-/

namespace ExprCompiler.Decimal

/-- Whether `byte` is one of the digits 0 to 9. -/
def isDigit (byte : UInt8) : Bool :=
  0x30 ≤ byte && byte ≤ 0x39

/-- The value of a run of digits, read from left to right after `value`. -/
def valueOf (digits : List UInt8) (value : Nat := 0) : Nat :=
  digits.foldl (fun value digit => 10 * value + (digit.toNat - 0x30)) value

/-- The value of a text that consists of digits, at least one. -/
def natural? (bytes : List UInt8) : Option Nat :=
  if bytes.isEmpty || !bytes.all isDigit then none else some (valueOf bytes)

/-- An optional sign in front: whether it is a minus, and what follows it. -/
def splitSign : List UInt8 → Bool × List UInt8
  | 0x2B :: rest => (false, rest)
  | 0x2D :: rest => (true, rest)
  | bytes => (false, bytes)

/-- The value of an integer with an optional sign, if it fits in 64 bits. -/
def int64? (bytes : List UInt8) : Option Int64 := do
  let (negative, digits) := splitSign bytes
  let magnitude ← natural? digits
  if negative then
    if magnitude ≤ 0x8000000000000000 then some (Int64.ofInt (-magnitude)) else none
  else
    if magnitude < 0x8000000000000000 then some (Int64.ofNat magnitude) else none

/-- The value of a natural number with an optional plus sign, if it fits in 64 bits. -/
def count? (bytes : List UInt8) : Option Nat := do
  let value ←
    match bytes with
    | 0x2B :: digits => natural? digits
    | digits => natural? digits
  if value < UInt64.size then some value else none

end ExprCompiler.Decimal

/-! UTF-8 as a list of bytes. Every byte list splits into pieces, each a whole character or
a longest start of one that its successor cannot continue. The strict reading asks for
characters only; the lenient one puts U+FFFD for every other piece.
-/

namespace ExprCompiler.Utf8

/-- The bytes of `text`. -/
def encode (text : String) : List UInt8 :=
  text.toList.flatMap String.utf8EncodeChar

/-- What the first byte of a character announces: its payload bits, the number of bytes
still owed, and the range the next byte must lie in.
-/
structure Lead where
  payload : Nat
  owed : Nat
  low : UInt8 := 0x80
  high : UInt8 := 0xBF
deriving DecidableEq, Repr

/-- The announcement of a first byte; no character starts with any other byte. The ranges
exclude overlong forms, surrogates and codes above U+10FFFF.
-/
def lead? (byte : UInt8) : Option Lead :=
  if byte < 0x80 then some { payload := byte.toNat, owed := 0 }
  else if byte < 0xC2 then none
  else if byte < 0xE0 then some { payload := byte.toNat - 0xC0, owed := 1 }
  else if byte = 0xE0 then some { payload := 0, owed := 2, low := 0xA0 }
  else if byte = 0xED then some { payload := 0xD, owed := 2, high := 0x9F }
  else if byte < 0xF0 then some { payload := byte.toNat - 0xE0, owed := 2 }
  else if byte = 0xF0 then some { payload := 0, owed := 3, low := 0x90 }
  else if byte < 0xF4 then some { payload := byte.toNat - 0xF0, owed := 3 }
  else if byte = 0xF4 then some { payload := 4, owed := 3, high := 0x8F }
  else none

/-- Reads the bytes still owed to a character. The code is missing when a byte does not fit;
that byte and all after it stay unread.
-/
def continueChar (code : Nat) (low high : UInt8) :
    Nat → List UInt8 → Option Nat × List UInt8
  | 0, bytes => (some code, bytes)
  | _ + 1, [] => (none, [])
  | owed + 1, byte :: rest =>
      if low ≤ byte ∧ byte ≤ high then
        continueChar (code * 64 + (byte.toNat - 0x80)) 0x80 0xBF owed rest
      else (none, byte :: rest)

/-- Continuation bytes are only ever taken from the front, by induction on their number. -/
theorem continueChar_length_le (code : Nat) (low high : UInt8) (owed : Nat)
    (bytes : List UInt8)
    : (continueChar code low high owed bytes).2.length ≤ bytes.length := by
  fun_induction continueChar code low high owed bytes with
  | case1 => exact Nat.le_refl _
  | case2 => exact Nat.le_refl _
  | case3 code low high owed byte rest fits ih =>
      exact Nat.le_trans ih (Nat.le_succ _)
  | case4 => exact Nat.le_refl _

/-- The piece that starts with `byte`, and the bytes after it. -/
def piece (byte : UInt8) (rest : List UInt8) : Option Char × List UInt8 :=
  match lead? byte with
  | none => (none, rest)
  | some lead =>
      let (code, rest) := continueChar lead.payload lead.low lead.high lead.owed rest
      (code.map Char.ofNat, rest)

/-- A piece never gives bytes back. -/
theorem piece_length_le (byte : UInt8) (rest : List UInt8)
    : (piece byte rest).2.length ≤ rest.length := by
  unfold piece
  split
  · exact Nat.le_refl _
  · exact continueChar_length_le ..

/-- All pieces from left to right; `none` stands for a piece that is no character. -/
def pieces : List UInt8 → List (Option Char)
  | [] => []
  | byte :: rest => (piece byte rest).1 :: pieces (piece byte rest).2
termination_by bytes => bytes.length
decreasing_by exact Nat.lt_succ_of_le (piece_length_le byte rest)

/-- The text of `bytes`, if they are UTF-8 throughout. -/
def decode? (bytes : List UInt8) : Option String :=
  ((pieces bytes).mapM id).map String.ofList

/-- The text of `bytes` with one U+FFFD for every piece that is no character. -/
def decodeLossy (bytes : List UInt8) : String :=
  String.ofList ((pieces bytes).map (·.getD (Char.ofNat 0xFFFD)))

end ExprCompiler.Utf8

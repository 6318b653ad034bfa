import ExprCompiler.Text.Utf8

/-! A growable byte buffer. Its room starts at eight bytes unless asked otherwise, doubles
until new bytes fit, and stays when bytes are dropped; only handing the text over starts
again with eight.
-/

namespace ExprCompiler

/-- Bytes collected so far, and how many fit before the buffer has to grow. -/
structure ByteBuffer where
  bytes : Array UInt8 := #[]
  capacity : Nat := 8
deriving DecidableEq, Repr, Inhabited

namespace ByteBuffer

/-- No bytes, with room for `capacity` of them but for at least one. -/
def withCapacity (capacity : Nat) : ByteBuffer :=
  { capacity := max capacity 1 }

/-- The number of bytes held. -/
def size (buffer : ByteBuffer) : Nat :=
  buffer.bytes.size

/-- The bytes held, first to last. -/
def toList (buffer : ByteBuffer) : List UInt8 :=
  buffer.bytes.toList

/-- Whether no byte is held. -/
def isEmpty (buffer : ByteBuffer) : Bool :=
  buffer.bytes.isEmpty

/-- The last byte held. -/
def back? (buffer : ByteBuffer) : Option UInt8 :=
  buffer.bytes.back?

/-- Doubles `capacity` until `needed` bytes fit, starting from one if there is no room. -/
def doubleUntil (capacity needed : Nat) : Nat :=
  if needed ≤ capacity then capacity
  else doubleUntil (if capacity = 0 then 1 else 2 * capacity) needed
termination_by needed - capacity
decreasing_by split <;> omega

/-- Appends a byte list as one step. -/
def append (buffer : ByteBuffer) (bytes : List UInt8) : ByteBuffer where
  bytes := buffer.bytes ++ bytes
  capacity := doubleUntil buffer.capacity (buffer.size + bytes.length)

/-- Appends one byte. -/
def push (buffer : ByteBuffer) (byte : UInt8) : ByteBuffer where
  bytes := buffer.bytes.push byte
  capacity := doubleUntil buffer.capacity (buffer.size + 1)

/-- Appends the bytes of one character. -/
def pushChar (buffer : ByteBuffer) (char : Char) : ByteBuffer :=
  buffer.append (String.utf8EncodeChar char)

/-- Appends the bytes of a text. -/
def pushText (buffer : ByteBuffer) (text : String) : ByteBuffer :=
  buffer.append (Utf8.encode text)

/-- A buffer that holds `text`. -/
def ofText (text : String) : ByteBuffer :=
  ({} : ByteBuffer).pushText text

/-- Drops the last `count` bytes, or all of them if there are fewer. -/
def retract (buffer : ByteBuffer) (count : Nat) : ByteBuffer :=
  { buffer with bytes := buffer.bytes.take (buffer.size - count) }

/-- Drops all bytes. -/
def clear (buffer : ByteBuffer) : ByteBuffer :=
  { buffer with bytes := #[] }

/-- The bytes as a text, with U+FFFD where they are not UTF-8. -/
def text (buffer : ByteBuffer) : String :=
  Utf8.decodeLossy buffer.toList

/-- Hands the text over and leaves a new buffer. -/
def takeText (buffer : ByteBuffer) : String × ByteBuffer :=
  (buffer.text, {})

end ByteBuffer

end ExprCompiler

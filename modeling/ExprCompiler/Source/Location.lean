/-! Positions in a source text, counted from line 1 and column 1. A column is a byte, and a
newline byte is the last byte of its line. Positions have no bound. The counters of a byte reader
have 32 bits (`PlaceCounter`); no position within a source of fewer than `2 ^ 32 - 1` bytes makes
them wrap (`ByteScanner.scan_after_eq`).
-/

namespace ExprCompiler

/-- A line and a byte column. -/
structure Location where
  line : Nat
  column : Nat
deriving DecidableEq, Repr, Inhabited

namespace Location

/-- The position of the first byte. -/
def start : Location := ⟨1, 1⟩

/-- Stands for a position nobody knows; it comes before all others. -/
def unknown : Location := ⟨0, 0⟩

/-- The position after a byte that stands here. A byte adds at most one to the line or to the
column, so that neither gets past the number of bytes before it, plus one.
-/
def advance (location : Location) (byte : UInt8) : Location :=
  if byte = 0x0A then ⟨location.line + 1, 1⟩ else ⟨location.line, location.column + 1⟩

/-- Whether a position is not after another one: lines first, then columns. -/
def notAfter (left right : Location) : Bool :=
  left.line < right.line || (left.line = right.line && left.column ≤ right.column)

/-- Line and column with a colon between them. -/
def text (location : Location) : String :=
  Nat.repr location.line ++ ":" ++ Nat.repr location.column

end Location

end ExprCompiler

import ExprCompiler.Lexical.Fault
import ExprCompiler.Source.Token

/-! Anything that hands out tokens one after the other and comes to an end. -/

namespace ExprCompiler

/-- What reading one token gives. -/
abbrev Reading := Except LexicalError Token

/-- Whether a reading says that there is nothing left to read. -/
def Reading.isEnd : Reading → Bool
  | .ok token => token.kind = .endOfFile
  | .error _ => false

/-- A supply of tokens. Every reading but the end of file uses some of it up, and nothing
adds to it, so whoever reads to the end gets there.
-/
class TokenSource (Source : Type) where
  /-- Reads the next token, and what is left after it. -/
  next : Source → Reading × Source
  /-- How much is left. -/
  remaining : Source → Nat
  remaining_next_le : ∀ source, remaining (next source).2 ≤ remaining source
  remaining_next_lt :
    ∀ source, (next source).1.isEnd = false → remaining (next source).2 < remaining source

end ExprCompiler

import ExprCompiler.Lexical.Scanner

/-! Tokens read ahead. They are handed out in order, may be put back, and stand for a whole
source of tokens that ends where the last one handed out was.
-/

namespace ExprCompiler

/-- Tokens waiting, first to last, and the place of the last one handed out. -/
structure Lookahead where
  tokens : List Token := []
  lastLocation : Location := .unknown
deriving DecidableEq, Repr, Inhabited

namespace Lookahead

/-- The tokens of a list, as if they started a source. -/
def ofList (tokens : List Token) : Lookahead where
  tokens := tokens
  lastLocation := .start

/-- Adds a token after all others. -/
def push (ahead : Lookahead) (token : Token) : Lookahead :=
  { ahead with tokens := ahead.tokens ++ [token] }

/-- Puts a token back before all others. -/
def pushFront (ahead : Lookahead) (token : Token) : Lookahead :=
  { ahead with tokens := token :: ahead.tokens }

/-- The next token without taking it. -/
def peek? (ahead : Lookahead) : Option Token :=
  ahead.tokens.head?

/-- Takes the next token, if one is waiting. -/
def pop (ahead : Lookahead) : Option Token × Lookahead :=
  match ahead.tokens with
  | [] => (none, ahead)
  | token :: tokens => (some token, { tokens, lastLocation := token.location })

/-- Drops all tokens. -/
def clear (ahead : Lookahead) : Lookahead :=
  { ahead with tokens := [] }

/-- Takes the next token; without one, the source ends where it was last read. -/
def next (ahead : Lookahead) : Token × Lookahead :=
  match ahead.pop with
  | (some token, ahead) => (token, ahead)
  | (none, ahead) => ({ kind := .endOfFile, location := ahead.lastLocation }, ahead)

/-- Taking a token leaves no more of them. -/
theorem next_tokens_length_le (ahead : Lookahead)
    : ahead.next.2.tokens.length ≤ ahead.tokens.length := by
  obtain ⟨tokens, location⟩ := ahead
  cases tokens <;> simp [next, pop]

/-- Taking a token that is not the end of file leaves fewer. -/
theorem next_tokens_length_lt (ahead : Lookahead)
    (more : Reading.isEnd (.ok ahead.next.1) = false)
    : ahead.next.2.tokens.length < ahead.tokens.length := by
  obtain ⟨tokens, location⟩ := ahead
  cases tokens with
  | nil => simp [next, pop, Reading.isEnd] at more
  | cons token rest => simp [next, pop]

instance : TokenSource Lookahead where
  next ahead := (.ok ahead.next.1, ahead.next.2)
  remaining ahead := ahead.tokens.length
  remaining_next_le := next_tokens_length_le
  remaining_next_lt := next_tokens_length_lt

/-- Whether the last token waiting ends the source. -/
def endsSource (ahead : Lookahead) : Bool :=
  ahead.tokens.getLast?.any (·.kind = .endOfFile)

/-- Reads up to `missing` tokens from a scanner, and none after the end of file. A fault stops
the filling; the tokens before it stay.
-/
def fillBy (ahead : Lookahead) (scanner : Scanner) :
    Nat → Except LexicalError Unit × Lookahead × Scanner
  | 0 => (.ok (), ahead, scanner)
  | missing + 1 =>
      if ahead.endsSource then (.ok (), ahead, scanner)
      else
        match scanner.next with
        | (.error error, scanner) => (.error error, ahead, scanner)
        | (.ok token, scanner) => fillBy (ahead.push token) scanner missing

/-- Reads tokens from a scanner until `count` are waiting or the source has ended. -/
def fill (ahead : Lookahead) (scanner : Scanner) (count : Nat) :
    Except LexicalError Unit × Lookahead × Scanner :=
  ahead.fillBy scanner (count - ahead.tokens.length)

end Lookahead

end ExprCompiler

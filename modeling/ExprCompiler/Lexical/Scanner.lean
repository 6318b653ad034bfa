import ExprCompiler.Lexical.Automaton
import ExprCompiler.Lexical.TokenSource
import ExprCompiler.Report.Queue

/-! Tokens of a source text. A scanner holds the unread bytes and hands out one token, or one
fault, at a time; it goes on after a fault. Main statement: every call that does not reach the
end of file uses up at least one byte.
-/

namespace ExprCompiler

namespace Lexical

/-- How a run of the automaton ended: on the byte at `stoppedAt`, before the bytes `rest`,
the first of which stands at `next`.
-/
structure Run where
  verdict : Except LexicalFault TokenKind
  lexeme : Lexeme
  stoppedAt : Location
  rest : List UInt8
  next : Location
  leftCommentOpen : Bool := false

/-- Runs the automaton to the end of a token. -/
def run (state : State) (lexeme : Lexeme) (here : Location) : List UInt8 → Run
  | [] =>
      let ending := state.atEnd lexeme here
      {
        verdict := ending.verdict
        lexeme := ending.lexeme
        stoppedAt := here
        rest := []
        next := here
        leftCommentOpen := state.inBlockComment
      }
  | byte :: rest =>
      match state.step lexeme here byte with
      | .next state lexeme => run state lexeme (here.advance byte) rest
      | .done ending =>
          {
            verdict := ending.verdict
            lexeme := ending.lexeme
            stoppedAt := here
            rest := if ending.unread then byte :: rest else rest
            next := if ending.unread then here else here.advance byte
          }

/-- A run reads from the front only, by induction over the bytes. -/
theorem run_rest_length_le (state : State) (lexeme : Lexeme) (here : Location)
    (bytes : List UInt8)
    : (run state lexeme here bytes).rest.length ≤ bytes.length := by
  induction bytes generalizing state lexeme here with
  | nil => exact Nat.le_refl _
  | cons byte rest ih =>
      unfold run
      split
      · exact Nat.le_trans (ih ..) (Nat.le_succ _)
      · dsimp only
        split
        · exact Nat.le_refl _
        · exact Nat.le_succ _

/-- The first byte of a token is never left unread, by inspection of what it may begin. -/
theorem step_start_unread {lexeme : Lexeme} {here : Location} {byte : UInt8}
    {ending : Ending} (stops : State.start.step lexeme here byte = .done ending)
    : ending.unread = false := by
  simp only [State.step, firstByte, Step.accept, Step.reject] at stops
  grind

/-- A run from the start uses up a byte unless there is none. -/
theorem run_start_rest_length_lt (lexeme : Lexeme) (here : Location) (byte : UInt8)
    (rest : List UInt8)
    : (run .start lexeme here (byte :: rest)).rest.length < (byte :: rest).length := by
  unfold run
  split
  · exact Nat.lt_succ_of_le (run_rest_length_le ..)
  · next stops => simp [step_start_unread stops]

end Lexical

/-- The unread bytes and the place of the first of them, whether a line break was just read,
what is left of the last lexeme, and the warnings so far.
-/
structure Scanner where
  rest : List UInt8
  location : Location := .start
  afterNewline : Bool := false
  lexeme : Lexical.Lexeme := {}
  warnings : DiagnosticQueue := {}
deriving DecidableEq, Repr, Inhabited

namespace Scanner

/-- A scanner at the start of a source text. -/
def ofText (source : String) : Scanner where
  rest := Utf8.encode source

/-- Reads one token. A comment that the end of input leaves open is only a warning. The line
break that ends a line, or one inside a comment, marks the token after it.
-/
def next (scanner : Scanner) : Reading × Scanner :=
  let run := Lexical.run .start scanner.lexeme.reset scanner.location scanner.rest
  let openComment : LexicalError :=
    { fault := .unterminatedBlockComment, location := run.lexeme.commentStart }
  let warnings :=
    if run.leftCommentOpen then scanner.warnings.add (openComment.diagnostic .warning)
    else scanner.warnings
  let scanned :=
    { scanner with rest := run.rest, location := run.next, lexeme := run.lexeme, warnings }
  match run.verdict with
  | .error fault => (.error { fault, location := run.stoppedAt }, scanned)
  | .ok kind =>
      let afterNewline := scanner.afterNewline || run.lexeme.sawNewline
      (.ok { kind, afterNewline, location := run.lexeme.start },
        { scanned with afterNewline := kind = .endOfLine })

/-- Reading leaves what the automaton leaves. -/
theorem next_rest (scanner : Scanner)
    : scanner.next.2.rest
      = (Lexical.run .start scanner.lexeme.reset scanner.location scanner.rest).rest := by
  unfold next
  dsimp only
  split <;> rfl

/-- Reading never gives bytes back. -/
theorem next_rest_length_le (scanner : Scanner)
    : scanner.next.2.rest.length ≤ scanner.rest.length := by
  rw [next_rest]
  exact Lexical.run_rest_length_le ..

/-- Without bytes there is only the end of file to read. -/
theorem next_isEnd_of_rest_eq_nil {scanner : Scanner} (empty : scanner.rest = [])
    : scanner.next.1.isEnd = true := by
  simp [next, empty, Lexical.run, Lexical.State.atEnd, Reading.isEnd]

/-- Whatever is not the end of file takes at least one byte. -/
theorem next_rest_length_lt (scanner : Scanner) (more : scanner.next.1.isEnd = false)
    : scanner.next.2.rest.length < scanner.rest.length := by
  rw [next_rest]
  cases bytes : scanner.rest with
  | nil => simp [next_isEnd_of_rest_eq_nil bytes] at more
  | cons byte rest => exact Lexical.run_start_rest_length_lt ..

instance : TokenSource Scanner where
  next := next
  remaining scanner := scanner.rest.length
  remaining_next_le := next_rest_length_le
  remaining_next_lt := next_rest_length_lt

/-- All readings up to the end of file, faults included, and the scanner after them. -/
def readings (scanner : Scanner) : List Reading × Scanner :=
  match _result : scanner.next with
  | (reading, after) =>
      if _more : reading.isEnd = false then
        let (later, last) := readings after
        (reading :: later, last)
      else ([reading], after)
termination_by scanner.rest.length
decreasing_by
  have shorter := next_rest_length_lt scanner (by rw [_result]; exact _more)
  rwa [_result] at shorter

end Scanner

/-- All tokens of a source text up to the end of file, or its first fault. -/
def tokenize (source : String) : Except LexicalError (List Token) :=
  (Scanner.ofText source).readings.1.mapM id

end ExprCompiler

import ExprCompiler.Lexical.Fault
import ExprCompiler.Source.Token
import ExprCompiler.Text.Buffer

/-! The states of the automaton that reads one token, what it has read so far, and how a byte
moves it or ends the token.
-/

namespace ExprCompiler.Lexical

/-- A lexeme that ends before the first byte which cannot continue it. -/
inductive Pending where
  | less | greater | bang | question | assign | minus | slash
  | underscore
  | name
  | integer
  | point
  | fraction
  | exponentMark
  | exponentSign
  | exponent
  | emptyString
deriving DecidableEq, Repr

/-- Where a block comment stands: right after a star, right after a slash, or elsewhere. -/
inductive CommentPhase where
  | body | star | slash
deriving DecidableEq, Repr

/-- String literals stand on one line or span several. -/
inductive StringForm where
  | single | multi
deriving DecidableEq, Repr

/-- Where a string literal stands. -/
inductive StringPhase where
  /-- After the first quote. -/
  | opened
  /-- In the text of a literal on one line. -/
  | body
  /-- After three quotes. -/
  | delimiter
  /-- At the start of a line of a literal on several lines. -/
  | lineStart
  /-- After one quote at the start of a line. -/
  | lineQuote
  /-- After two quotes at the start of a line. -/
  | lineQuotes
  /-- In the text of a literal on several lines. -/
  | multiBody
  /-- After a backslash. -/
  | escape (form : StringForm)
  /-- After a backslash and the letter u. -/
  | hexOpen (form : StringForm)
  /-- Between the braces of a code escape. -/
  | hex (form : StringForm)
deriving DecidableEq, Repr

/-- What the automaton is reading. -/
inductive State where
  | start
  | pending (lexeme : Pending)
  | lineComment
  | blockComment (phase : CommentPhase)
  | string (phase : StringPhase)
deriving DecidableEq, Repr

/-- What has been read for the current token: where it starts, its text so far, the digits
of a code escape, the number of open block comments with the place of the outermost one, and
whether a comment held a line break.
-/
structure Lexeme where
  start : Location := .start
  text : ByteBuffer := {}
  hex : ByteBuffer := {}
  depth : UInt32 := 0
  commentStart : Location := .start
  sawNewline : Bool := false
deriving DecidableEq, Repr, Inhabited

namespace Lexeme

/-- Appends a byte to the text. -/
def push (lexeme : Lexeme) (byte : UInt8) : Lexeme :=
  { lexeme with text := lexeme.text.push byte }

/-- Turns the text into a token, which leaves none behind. -/
def take (lexeme : Lexeme) (kind : String → TokenKind) : TokenKind × Lexeme :=
  let (text, buffer) := lexeme.text.takeText
  (kind text, { lexeme with text := buffer })

/-- Forgets what was read, for the next token in the same buffers. The two places stay until
that token, or a comment before it, starts.
-/
def reset (lexeme : Lexeme) : Lexeme :=
  { lexeme with
    text := lexeme.text.clear
    hex := lexeme.hex.clear
    depth := 0
    sawNewline := false }

end Lexeme

/-- How a token ends: with a kind or a fault, and with the last byte read or left unread. -/
structure Ending where
  verdict : Except LexicalFault TokenKind
  unread : Bool := false
  lexeme : Lexeme

/-- The effect of one byte. -/
inductive Step where
  | next (state : State) (lexeme : Lexeme)
  | done (ending : Ending)

namespace Step

/-- The token ends with this byte. -/
def accept (kind : TokenKind) (lexeme : Lexeme) : Step :=
  .done { verdict := .ok kind, lexeme }

/-- The byte makes a token impossible. -/
def reject (fault : LexicalFault) (lexeme : Lexeme) : Step :=
  .done { verdict := .error fault, lexeme }

end Step

end ExprCompiler.Lexical

import ExprCompiler.Lexical.Pending

/-! The automaton that reads one token, byte by byte. Signs, names and numbers are pending
until a byte cannot continue them, and that byte stays unread; strings and comments run on to
their own ends. The end of input settles every state.
-/

namespace ExprCompiler.Lexical

-----------------------------------------------------------------------------------------
-- Comments
-----------------------------------------------------------------------------------------

/-- The effect of a byte that neither opens nor closes a block comment. -/
def commentBody (lexeme : Lexeme) (byte : UInt8) : Step :=
  match Char.ofUInt8 byte with
  | '*' => .next (.blockComment .star) lexeme
  | '/' => .next (.blockComment .slash) lexeme
  | '\n' => .next (.blockComment .body) { lexeme with sawNewline := true }
  | _ => .next (.blockComment .body) lexeme

/-- The effect of a byte in a block comment. Comments nest: a slash and a star open one more,
and a star and a slash close one.
-/
def CommentPhase.step (phase : CommentPhase) (lexeme : Lexeme) (byte : UInt8) : Step :=
  match phase, Char.ofUInt8 byte with
  | .star, '/' =>
      let depth := lexeme.depth - 1
      let state := if depth = 0 then State.start else .blockComment .body
      .next state { lexeme with depth }
  | .slash, '*' => .next (.blockComment .body) { lexeme with depth := lexeme.depth + 1 }
  | _, _ => commentBody lexeme byte

-----------------------------------------------------------------------------------------
-- Strings
-----------------------------------------------------------------------------------------

/-- Where the text goes on after an escape. -/
def StringForm.body : StringForm → State
  | .single => .string .body
  | .multi => .string .multiBody

/-- The effect of a byte in the text of a literal on one line. -/
def singleText (lexeme : Lexeme) (byte : UInt8) : Step :=
  match Char.ofUInt8 byte with
  | '"' =>
      let (kind, lexeme) := lexeme.take .string
      .accept kind lexeme
  | '\\' => .next (.string (.escape .single)) lexeme
  | _ =>
      if byte < 0x20 then .reject (.controlCharInString byte) lexeme
      else .next (.string .body) (lexeme.push byte)

/-- The effect of a byte in the text of a literal on several lines. -/
def multiText (lexeme : Lexeme) (byte : UInt8) : Step :=
  match Char.ofUInt8 byte with
  | '\\' => .next (.string (.escape .multi)) lexeme
  | '\n' => .next (.string .lineStart) (lexeme.push byte)
  | _ => .next (.string .multiBody) (lexeme.push byte)

/-- The effect of a byte after a backslash. -/
def escapeStep (form : StringForm) (lexeme : Lexeme) (byte : UInt8) : Step :=
  match Char.ofUInt8 byte, simpleEscape? byte with
  | 'u', _ => .next (.string (.hexOpen form)) lexeme
  | _, some value => .next form.body (lexeme.push value)
  | char, none => .reject (.invalidEscape char) lexeme

/-- The effect of a byte between the braces of a code escape. -/
def hexStep (form : StringForm) (lexeme : Lexeme) (byte : UInt8) : Step :=
  if (hexValue? byte).isSome then
    if lexeme.hex.size = 8 then .reject .hexEscapeTooLong lexeme
    else .next (.string (.hex form)) { lexeme with hex := lexeme.hex.push byte }
  else if Char.ofUInt8 byte = '\x7d' then
    match hexEscape? lexeme.hex.toList with
    | some char => .next form.body { lexeme with text := lexeme.text.pushChar char }
    | none => .reject .emptyHexEscape lexeme
  else .reject (.invalidEscape 'u') lexeme

/-- The effect of a byte in a string literal. The closing delimiter of a literal on several
lines is a newline and three quotes; they are in the text already when it is recognised.
-/
def StringPhase.step (phase : StringPhase) (lexeme : Lexeme) (byte : UInt8) : Step :=
  let char := Char.ofUInt8 byte
  match phase with
  | .opened =>
      if char = '"' then .next (.pending .emptyString) lexeme else singleText lexeme byte
  | .body => singleText lexeme byte
  | .delimiter =>
      if char = '\n' then .next (.string .lineStart) lexeme
      else .reject .multilineStringStart lexeme
  | .lineStart =>
      if char = '"' then .next (.string .lineQuote) (lexeme.push byte)
      else multiText lexeme byte
  | .lineQuote =>
      if char = '"' then .next (.string .lineQuotes) (lexeme.push byte)
      else multiText lexeme byte
  | .lineQuotes =>
      if char = '"' then
        let lexeme := lexeme.push byte
        let (kind, lexeme) := { lexeme with text := lexeme.text.retract 4 }.take .string
        .accept kind lexeme
      else multiText lexeme byte
  | .multiBody => multiText lexeme byte
  | .escape form => escapeStep form lexeme byte
  | .hexOpen form =>
      if char = '\x7b' then
        .next (.string (.hex form)) { lexeme with hex := lexeme.hex.clear }
      else .reject (.invalidEscape 'u') lexeme
  | .hex form => hexStep form lexeme byte

-----------------------------------------------------------------------------------------
-- The whole automaton
-----------------------------------------------------------------------------------------

/-- The sign that a byte makes on its own, whatever follows. -/
def soleSign? : Char → Option Operator
  | ':' => some .colon
  | '\x7b' => some .openBrace
  | '\x7d' => some .closeBrace
  | '(' => some .openParen
  | ')' => some .closeParen
  | '+' => some .plus
  | '*' => some .star
  | ',' => some .comma
  | _ => none

/-- The sign that a byte may begin. -/
def pendingSign? : Char → Option Pending
  | '<' => some .less
  | '>' => some .greater
  | '!' => some .bang
  | '?' => some .question
  | '=' => some .assign
  | '-' => some .minus
  | '/' => some .slash
  | _ => none

/-- The effect of the first byte of a token. -/
def firstByte (lexeme : Lexeme) (byte : UInt8) : Step :=
  let char := Char.ofUInt8 byte
  if char = '\n' then .accept .endOfLine lexeme
  else if isLetter byte then .next (.pending .name) (lexeme.push byte)
  else if char = '_' then .next (.pending .underscore) (lexeme.push byte)
  else if Decimal.isDigit byte then .next (.pending .integer) (lexeme.push byte)
  else if char = '"' then .next (.string .opened) lexeme
  else
    match pendingSign? char, soleSign? char with
    | some pending, _ => .next (.pending pending) lexeme
    | none, some sign => .accept (.operator sign) lexeme
    | none, none => .reject (.unexpectedChar char) lexeme

/-- The effect of a byte that stands at `here`. -/
def State.step (state : State) (lexeme : Lexeme) (here : Location) (byte : UInt8) : Step :=
  match state with
  | .start =>
      if isBlank byte then .next .start lexeme
      else firstByte { lexeme with start := here } byte
  | .pending unfinished => unfinished.step lexeme byte
  | .lineComment =>
      if byte = 0x0A then .accept .endOfLine { lexeme with start := here }
      else .next .lineComment lexeme
  | .blockComment phase => phase.step lexeme byte
  | .string phase => phase.step lexeme byte

/-- What the end of input at `here` makes of a state: it ends pending lexemes like any other
byte would, leaves strings unterminated, and is a token of its own elsewhere.
-/
def State.atEnd (state : State) (lexeme : Lexeme) (here : Location) : Ending :=
  match state with
  | .pending unfinished => unfinished.ending lexeme
  | .string _ => { verdict := .error .unterminatedString, lexeme }
  | .start | .lineComment | .blockComment _ =>
      { verdict := .ok .endOfFile, lexeme := { lexeme with start := here } }

/-- Whether the end of input would leave a block comment open. -/
def State.inBlockComment : State → Bool
  | .blockComment _ => true
  | _ => false

end ExprCompiler.Lexical

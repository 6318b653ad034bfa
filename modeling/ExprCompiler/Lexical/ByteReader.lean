import ExprCompiler.Lexical.Scanner

/-! A scanner that reads its source byte by byte. It keeps the place of the byte at hand, takes one
byte back at the place where it was read, counts lines and columns in words of 32 bits, and counts
the digits of a code escape.
-/

namespace ExprCompiler

-----------------------------------------------------------------------------------------
-- Bytes
-----------------------------------------------------------------------------------------

/-- Line and column as they are counted. -/
structure PlaceCounter where
  line : UInt32 := 1
  column : UInt32 := 1
deriving DecidableEq, Repr, Inhabited

namespace PlaceCounter

/-- The position that is counted. -/
def location (counter : PlaceCounter) : Location :=
  ⟨counter.line.toNat, counter.column.toNat⟩

/-- Counts a byte. -/
def count (counter : PlaceCounter) (byte : UInt8) : PlaceCounter :=
  if byte = 0x0A then ⟨counter.line + 1, 1⟩ else ⟨counter.line, counter.column + 1⟩

end PlaceCounter

/-- A source of which `position` bytes were read, with one byte that may have been given back. -/
structure ByteReader where
  source : List UInt8
  position : Nat := 0
  /-- The byte that was given back, and the place where it was read. -/
  pushback? : Option (UInt8 × PlaceCounter) := none
  /-- The place of the byte that was read last. -/
  current : PlaceCounter := {}
  /-- The place of the next byte of the source. -/
  next : PlaceCounter := {}
deriving DecidableEq, Repr, Inhabited

namespace ByteReader

/-- The place of the next byte to read. -/
def location (reader : ByteReader) : Location :=
  match reader.pushback? with
  | some (_, place) => place.location
  | none => reader.next.location

/-- Reads a byte: the one that was given back, or the next one of the source. -/
def read (reader : ByteReader) : Option UInt8 × ByteReader :=
  match reader.pushback? with
  | some (byte, place) => (some byte, { reader with pushback? := none, current := place })
  | none =>
      match reader.source[reader.position]? with
      | none => (none, { reader with current := reader.next })
      | some byte =>
          (some byte,
            { reader with
              position := reader.position + 1
              current := reader.next
              next := reader.next.count byte })

/-- Gives the byte that was read last back. There is none at the end of the source. -/
def unread (reader : ByteReader) : Option UInt8 → ByteReader
  | some byte => { reader with pushback? := some (byte, reader.current) }
  | none => reader

/-- The bytes still to read. -/
def unreadBytes (reader : ByteReader) : List UInt8 :=
  match reader.pushback? with
  | some (byte, _) => byte :: reader.source.drop reader.position
  | none => reader.source.drop reader.position

/-- A byte that is read is no longer unread. -/
theorem unreadBytes_read {reader after : ByteReader} {byte : UInt8}
    (reads : reader.read = (some byte, after))
    : reader.unreadBytes = byte :: after.unreadBytes := by
  unfold read at reads
  cases given : reader.pushback? with
  | some pushed =>
      simp only [given, Prod.mk.injEq, Option.some.injEq] at reads
      obtain ⟨rfl, rfl⟩ := reads
      simp [unreadBytes, given]
  | none =>
      simp only [given] at reads
      split at reads
      · simp at reads
      · next found =>
          simp only [Prod.mk.injEq, Option.some.injEq] at reads
          obtain ⟨rfl, rfl⟩ := reads
          simp only [unreadBytes, given]
          exact List.drop_eq_getElem?_toList_append.trans (by simp [found])

end ByteReader

-----------------------------------------------------------------------------------------
-- Tokens
-----------------------------------------------------------------------------------------

namespace Lexical

/-- The effect of a byte, and the number of digits after it. Only the states of a code escape look
at the digits.
-/
def State.countedStep (state : State) (lexeme : Lexeme) (digits : UInt8) (here : Location)
    (byte : UInt8) : Step × UInt8 :=
  match state with
  | .string (.hexOpen _) =>
      (state.step lexeme here byte, if Char.ofUInt8 byte = '\x7b' then 0 else digits)
  | .string (.hex form) =>
      if (hexValue? byte).isSome then
        if digits = 8 then (.reject .hexEscapeTooLong lexeme, digits)
        else
          (.next (.string (.hex form)) { lexeme with hex := lexeme.hex.push byte }, digits + 1)
      else (state.step lexeme here byte, digits)
  | _ => (state.step lexeme here byte, digits)

/-- How the bytes of one token were read. -/
structure ByteRun where
  verdict : Except LexicalFault TokenKind
  lexeme : Lexeme
  digits : UInt8
  reader : ByteReader
  leftCommentOpen : Bool := false

/-- Reads bytes up to the end of a token. -/
def readToken (state : State) (lexeme : Lexeme) (digits : UInt8) (reader : ByteReader) : ByteRun :=
  match _reads : reader.read with
  | (none, reader) =>
      let ending := state.atEnd lexeme reader.current.location
      {
        verdict := ending.verdict
        lexeme := ending.lexeme
        digits
        reader := if ending.unread then reader.unread none else reader
        leftCommentOpen := state.inBlockComment
      }
  | (some byte, reader) =>
      match state.countedStep lexeme digits reader.current.location byte with
      | (.next state lexeme, digits) => readToken state lexeme digits reader
      | (.done ending, digits) =>
          {
            verdict := ending.verdict
            lexeme := ending.lexeme
            digits
            reader := if ending.unread then reader.unread (some byte) else reader
          }
termination_by reader.unreadBytes.length
decreasing_by
  rw [ByteReader.unreadBytes_read _reads]
  exact Nat.lt_succ_self _

end Lexical

/-- A scanner over a reader. -/
structure ByteScanner where
  reader : ByteReader
  afterNewline : Bool := false
  lexeme : Lexical.Lexeme := {}
  digits : UInt8 := 0
  warnings : DiagnosticQueue := {}
deriving DecidableEq, Repr, Inhabited

namespace ByteScanner

/-- A scanner at the start of a source. -/
def ofBytes (source : List UInt8) : ByteScanner where
  reader := { source }

/-- Reads one token. -/
def scan (scanner : ByteScanner) : Reading × ByteScanner :=
  let run := Lexical.readToken .start scanner.lexeme.reset 0 scanner.reader
  let openComment : LexicalError :=
    { fault := .unterminatedBlockComment, location := run.lexeme.commentStart }
  let warnings :=
    if run.leftCommentOpen then scanner.warnings.add (openComment.diagnostic .warning)
    else scanner.warnings
  let scanned :=
    { scanner with
      reader := run.reader, lexeme := run.lexeme, digits := run.digits, warnings }
  match run.verdict with
  | .error fault => (.error { fault, location := run.reader.current.location }, scanned)
  | .ok kind =>
      let afterNewline := scanner.afterNewline || run.lexeme.sawNewline
      (.ok { kind, afterNewline, location := run.lexeme.start },
        { scanned with afterNewline := kind = .endOfLine })

end ByteScanner

end ExprCompiler

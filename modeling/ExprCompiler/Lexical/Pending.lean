import ExprCompiler.Lexical.Byte
import ExprCompiler.Lexical.State
import ExprCompiler.Number.Decimal

/-! Pending lexemes: the signs, names and numbers that run on for as long as bytes continue
them. What ends one is unread, be it a byte or the end of input.
-/

namespace ExprCompiler.Lexical

/-- The token of a finished name: a keyword, the name of a type, or an identifier. -/
def nameToken (lexeme : Lexeme) : TokenKind × Lexeme :=
  match Keyword.ofBytes? lexeme.text.toList with
  | some word => (.keyword word, lexeme)
  | none =>
      match BaseType.ofBytes? lexeme.text.toList with
      | some base => (.typeName base false, lexeme)
      | none => lexeme.take .identifier

/-- The value of a finished integer literal. -/
def integerVerdict (lexeme : Lexeme) : Except LexicalFault TokenKind :=
  match Decimal.int64? lexeme.text.toList with
  | some value => .ok (.int value)
  | none => .error .integerOverflow

/-- The value of a finished double literal. -/
def doubleVerdict (lexeme : Lexeme) : Except LexicalFault TokenKind :=
  match Decimal.double? lexeme.text.toList with
  | some value => .ok (.double value)
  | none => .error .missingExponentDigits

/-- The token of a pending lexeme that nothing continues, or why it is none. -/
def Pending.verdict (pending : Pending) (lexeme : Lexeme) : Except LexicalFault TokenKind :=
  match pending with
  | .less => .ok (.operator .less)
  | .greater => .ok (.operator .greater)
  | .bang => .ok (.operator .bang)
  | .question => .error .loneQuestionMark
  | .assign => .ok (.operator .assign)
  | .minus => .ok (.operator .minus)
  | .slash => .ok (.operator .slash)
  | .underscore => .ok .underscore
  | .name => .ok (nameToken lexeme).1
  | .integer => integerVerdict lexeme
  | .point => .error .missingFractionDigits
  | .fraction => doubleVerdict lexeme
  | .exponentMark => .error .missingExponentDigits
  | .exponentSign => .error .missingExponentDigits
  | .exponent => doubleVerdict lexeme
  | .emptyString => .ok (.string "")

/-- A pending lexeme ends, and what comes next stays unread. -/
def Pending.ending (pending : Pending) (lexeme : Lexeme) : Ending where
  verdict := pending.verdict lexeme
  unread := true
  lexeme := if pending = .name then (nameToken lexeme).2 else lexeme

/-- The byte becomes part of a pending lexeme. -/
def Pending.grow (pending : Pending) (lexeme : Lexeme) (byte : UInt8) : Option Step :=
  some (.next (.pending pending) (lexeme.push byte))

/-- A byte `expected` turns a sign into a longer one. -/
def extendSign? (expected : Char) (sign : Operator) (lexeme : Lexeme) (byte : UInt8) :
    Option Step :=
  if Char.ofUInt8 byte = expected then some (.accept (.operator sign) lexeme) else none

/-- A slash may open a comment that runs to the end of the line, or a block comment. -/
def openComment? (lexeme : Lexeme) (byte : UInt8) : Option Step :=
  match Char.ofUInt8 byte with
  | '/' => some (.next .lineComment lexeme)
  | '*' =>
      some (.next (.blockComment .body) { lexeme with depth := 1, commentStart := lexeme.start })
  | _ => none

/-- A question mark right after the name of a type allows nil. -/
def nilableType? (lexeme : Lexeme) (byte : UInt8) : Option Step :=
  if Char.ofUInt8 byte = '?' then
    match (nameToken lexeme).1 with
    | .typeName base _ => some (.accept (.typeName base true) lexeme)
    | _ => none
  else none

/-- The effect of a byte that continues a pending lexeme, if it does. -/
def Pending.continued? (pending : Pending) (lexeme : Lexeme) (byte : UInt8) : Option Step :=
  match pending with
  | .less => extendSign? '=' .lessEqual lexeme byte
  | .greater => extendSign? '=' .greaterEqual lexeme byte
  | .bang => extendSign? '=' .notEqual lexeme byte
  | .question => extendSign? '?' .coalesce lexeme byte
  | .assign => extendSign? '=' .equal lexeme byte
  | .minus => extendSign? '>' .arrow lexeme byte
  | .slash => openComment? lexeme byte
  | .underscore => if isNameByte byte then name.grow lexeme byte else none
  | .name => if isNameByte byte then name.grow lexeme byte else nilableType? lexeme byte
  | .integer =>
      if Decimal.isDigit byte then integer.grow lexeme byte
      else if byte = 0x2E then point.grow lexeme byte
      else if isExponentMark byte then exponentMark.grow lexeme byte
      else none
  | .point => if Decimal.isDigit byte then fraction.grow lexeme byte else none
  | .fraction =>
      if Decimal.isDigit byte then fraction.grow lexeme byte
      else if isExponentMark byte then exponentMark.grow lexeme byte
      else none
  | .exponentMark =>
      if isSign byte then exponentSign.grow lexeme byte
      else if Decimal.isDigit byte then exponent.grow lexeme byte
      else none
  | .exponentSign => if Decimal.isDigit byte then exponent.grow lexeme byte else none
  | .exponent => if Decimal.isDigit byte then exponent.grow lexeme byte else none
  | .emptyString =>
      if Char.ofUInt8 byte = '"' then some (.next (.string .delimiter) lexeme) else none

/-- The effect of any byte on a pending lexeme. -/
def Pending.step (pending : Pending) (lexeme : Lexeme) (byte : UInt8) : Step :=
  (pending.continued? lexeme byte).getD (.done (pending.ending lexeme))

end ExprCompiler.Lexical

import ExprCompiler.Report.Diagnostic
import ExprCompiler.Text.Quoted

/-! What can be wrong with the spelling of a token. -/

namespace ExprCompiler

/-- Why no token can be read. -/
inductive LexicalFault where
  | unexpectedChar (char : Char)
  | loneQuestionMark
  | missingFractionDigits
  | missingExponentDigits
  | integerOverflow
  | unterminatedString
  | multilineStringStart
  | controlCharInString (byte : UInt8)
  | invalidEscape (char : Char)
  | emptyHexEscape
  | hexEscapeTooLong
  | unterminatedBlockComment
deriving DecidableEq, Repr, Inhabited

namespace LexicalFault

/-- A byte as two hexadecimal digits. -/
def byteText (byte : UInt8) : String :=
  let digits := Text.hexDigits byte.toNat
  "0x" ++ (if byte < 0x10 then "0" else "") ++ digits

/-- What the reader is told. -/
def message : LexicalFault → String
  | .unexpectedChar char => "unexpected character " ++ Text.quotedChar char
  | .loneQuestionMark => "`?` is only valid as part of `??` or a type annotation"
  | .missingFractionDigits => "decimal point must be followed by a digit"
  | .missingExponentDigits => "exponent must contain at least one digit"
  | .integerOverflow => "integer literal does not fit in 64 bits"
  | .unterminatedString => "unterminated string literal"
  | .multilineStringStart => "multi-line string delimiter must be followed by a line break"
  | .controlCharInString byte =>
      "control character " ++ byteText byte ++ " in string literal"
  | .invalidEscape char => "invalid escape sequence `\\" ++ char.toString ++ "`"
  | .emptyHexEscape => "`\\u\x7b..\x7d` escape has no hex digits"
  | .hexEscapeTooLong => "`\\u\x7b..\x7d` escape has more than 8 hex digits"
  | .unterminatedBlockComment => "unterminated block comment"

end LexicalFault

/-- A fault and the place of the byte that showed it. -/
structure LexicalError where
  fault : LexicalFault
  location : Location
deriving DecidableEq, Repr, Inhabited

namespace LexicalError

/-- The fault with its place. -/
def text (error : LexicalError) : String :=
  error.fault.message ++ " at " ++ error.location.text

/-- The fault as a problem to report. -/
def diagnostic (error : LexicalError) (severity : Severity := .error) : Diagnostic where
  code := .lexical
  severity := severity
  message := error.fault.message
  location? := some error.location

end LexicalError

end ExprCompiler

import ExprCompiler.Text.Unprintable

/-! Quoted text: a text between quotes in which every character can be told from its
neighbours. Four control characters, the backslash and the quote in use have short escapes,
and other unprintable characters show their code in braces.
-/

namespace ExprCompiler.Text

/-- The lower-case hexadecimal digits of `code`, without padding. -/
def hexDigits (code : Nat) : String :=
  String.ofList (Nat.toDigits 16 code)

/-- How `char` shows between two `quote` characters. -/
def escapeChar (quote char : Char) : String :=
  match char with
  | '\x00' => "\\0"
  | '\t' => "\\t"
  | '\r' => "\\r"
  | '\n' => "\\n"
  | '\\' => "\\\\"
  | _ =>
      if char = quote then "\\".push char
      else if isUnprintable char then "\\u\x7b" ++ hexDigits char.toNat ++ "\x7d"
      else char.toString

/-- A text between double quotes. -/
def quoted (text : String) : String :=
  "\"" ++ String.join (text.toList.map (escapeChar '"')) ++ "\""

/-- A character between single quotes. -/
def quotedChar (char : Char) : String :=
  "'" ++ escapeChar '\x27' char ++ "'"

end ExprCompiler.Text

import ExprCompiler.Number.Shortest
import ExprCompiler.Source.Token
import ExprCompiler.Text.Quoted

/-! The two texts of a token: how an error message names it, and the line that a listing of
tokens shows for it.
-/

namespace ExprCompiler

/-- How an error message names a token. -/
def TokenKind.description : TokenKind → String
  | .endOfFile => "end of file"
  | .endOfLine => "end of line"
  | .underscore => "`_`"
  | .identifier _ => "identifier"
  | .keyword word => word.text
  | .operator sign => sign.text
  | .int _ => "integer literal"
  | .double _ => "double literal"
  | .string _ => "string literal"
  | .typeName _ _ => "type name"

/-- What a listing shows of a token apart from its place. -/
def TokenKind.listing : TokenKind → String
  | .endOfFile => "Eof"
  | .endOfLine => "Eol"
  | .underscore => "Underscore"
  | .identifier name => "Ident(" ++ name ++ ")"
  | .keyword word => "Keyword(" ++ word.text ++ ")"
  | .operator sign => "Op(" ++ sign.text ++ ")"
  | .int value => "Int(" ++ toString value.toInt ++ ")"
  | .double value => "Double(" ++ value.decimalText ++ ")"
  | .string text => "Str(" ++ Text.quoted text ++ ")"
  | .typeName base nilable => "Type(" ++ base.text ++ (if nilable then "?" else "") ++ ")"

/-- The line of a listing for one token. -/
def Token.listing (token : Token) : String :=
  token.kind.listing ++ " @ " ++ token.location.text
    ++ (if token.afterNewline then " (after newline)" else "")

end ExprCompiler

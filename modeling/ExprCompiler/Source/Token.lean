import ExprCompiler.Number.Double
import ExprCompiler.Source.Location
import ExprCompiler.Text.Utf8

/-! The words and signs of the language, and the tokens a source text consists of. -/

namespace ExprCompiler

-----------------------------------------------------------------------------------------
-- Words and signs
-----------------------------------------------------------------------------------------

/-- The reserved words that are not names of types. -/
inductive Keyword where
  | elseWord | funcWord | ifWord | letWord | nilWord | returnWord | varWord | whileWord
deriving DecidableEq, Repr

namespace Keyword

/-- Every keyword. -/
def all : List Keyword :=
  [.elseWord, .funcWord, .ifWord, .letWord, .nilWord, .returnWord, .varWord, .whileWord]

/-- How a keyword is spelled. -/
def text : Keyword → String
  | .elseWord => "else"
  | .funcWord => "func"
  | .ifWord => "if"
  | .letWord => "let"
  | .nilWord => "nil"
  | .returnWord => "return"
  | .varWord => "var"
  | .whileWord => "while"

/-- The bytes that are read as keywords. -/
def words : List (List UInt8 × Keyword) :=
  [
    (Utf8.encode "else", .elseWord),
    (Utf8.encode "func", .funcWord),
    (Utf8.encode "if", .ifWord),
    (Utf8.encode "let", .letWord),
    (Utf8.encode "nil", .nilWord),
    (Utf8.encode "return", .returnWord),
    (Utf8.encode "var", .varWord),
    (Utf8.encode "while", .whileWord)
  ]

/-- The keyword that these bytes are read as. -/
def ofBytes? (bytes : List UInt8) : Option Keyword :=
  words.lookup bytes

end Keyword

/-- The types that have a name in the language. -/
inductive BaseType where
  | int | double | string
deriving DecidableEq, Repr

namespace BaseType

/-- How a type is spelled. -/
def text : BaseType → String
  | .int => "Int"
  | .double => "Double"
  | .string => "String"

/-- The bytes that are read as types. -/
def words : List (List UInt8 × BaseType) :=
  [
    (Utf8.encode "Int", .int),
    (Utf8.encode "Double", .double),
    (Utf8.encode "String", .string)
  ]

/-- The type that these bytes are read as. -/
def ofBytes? (bytes : List UInt8) : Option BaseType :=
  words.lookup bytes

end BaseType

/-- Operators and punctuation. -/
inductive Operator where
  | less | lessEqual | greater | greaterEqual | bang | notEqual | coalesce | assign | equal
  | colon | openBrace | closeBrace | openParen | closeParen | plus | minus | arrow | star
  | slash | comma
deriving DecidableEq, Repr

namespace Operator

/-- Every operator. -/
def all : List Operator :=
  [.less, .lessEqual, .greater, .greaterEqual, .bang, .notEqual, .coalesce, .assign, .equal,
    .colon, .openBrace, .closeBrace, .openParen, .closeParen, .plus, .minus, .arrow, .star,
    .slash, .comma]

/-- How an operator is spelled. -/
def text : Operator → String
  | .less => "<"
  | .lessEqual => "<="
  | .greater => ">"
  | .greaterEqual => ">="
  | .bang => "!"
  | .notEqual => "!="
  | .coalesce => "??"
  | .assign => "="
  | .equal => "=="
  | .colon => ":"
  | .openBrace => "\x7b"
  | .closeBrace => "\x7d"
  | .openParen => "("
  | .closeParen => ")"
  | .plus => "+"
  | .minus => "-"
  | .arrow => "->"
  | .star => "*"
  | .slash => "/"
  | .comma => ","

/-- Whether an operator compares two values. -/
def isRelational : Operator → Bool
  | .less | .lessEqual | .greater | .greaterEqual | .equal | .notEqual => true
  | _ => false

end Operator

-----------------------------------------------------------------------------------------
-- Tokens
-----------------------------------------------------------------------------------------

/-- What a token is, with its value. -/
inductive TokenKind where
  | endOfFile
  | endOfLine
  | underscore
  | identifier (name : String)
  | keyword (word : Keyword)
  | operator (sign : Operator)
  | int (value : Int64)
  | double (value : Double)
  | string (text : String)
  | typeName (base : BaseType) (nilable : Bool)
deriving DecidableEq, Repr, Inhabited

/-- A token where it stands, and whether a line break lies between it and the token
before.
-/
structure Token where
  kind : TokenKind
  afterNewline : Bool := false
  location : Location := .start
deriving DecidableEq, Repr, Inhabited

end ExprCompiler

import ExprCompiler.Report.Diagnostic

/-! Diagnostics as a terminal shows them: a headline, then the place and the notes on lines of
their own, in colours if the reader wants them.
-/

namespace ExprCompiler

/-- When the terminal text has colours. -/
inductive ColorMode where
  | auto | always | never
deriving DecidableEq, Repr, Inhabited

namespace ColorMode

/-- Every colour mode. -/
def all : List ColorMode := [.auto, .always, .never]

/-- The word that asks for a mode. -/
def text : ColorMode → String
  | .auto => "auto"
  | .always => "always"
  | .never => "never"

/-- The mode that a word asks for. -/
def ofText? (text : String) : Option ColorMode :=
  all.find? (·.text = text)

/-- Whether to use colours; without a wish, only on a terminal. -/
def enabled (mode : ColorMode) (isTerminal : Bool) : Bool :=
  match mode with
  | .auto => isTerminal
  | .always => true
  | .never => false

end ColorMode

/-- How a part of a diagnostic stands out. -/
inductive Style where
  | error | warning | code | place

/-- The control sequence that turns a style on. -/
def Style.sequence : Style → String
  | .error => "\x1b[1;31m"
  | .warning => "\x1b[1;33m"
  | .code => "\x1b[1m"
  | .place => "\x1b[1;34m"

/-- Sets `text` in a style; without colours it stays plain. -/
def Style.apply (style : Style) (colors : Bool) (text : String) : String :=
  if colors then style.sequence ++ text ++ "\x1b[0m" else text

/-- The style of a severity. -/
def Severity.style : Severity → Style
  | .error => .error
  | .warning => .warning

namespace Diagnostic

/-- The lines of a terminal for one diagnostic, each ended by a newline. -/
def terminalText (colors : Bool) (diagnostic : Diagnostic) : String :=
  let severity := diagnostic.severity.style.apply colors diagnostic.severity.text
  let code := Style.code.apply colors ("[" ++ diagnostic.code.text ++ "]")
  let headline := severity ++ code ++ ": " ++ diagnostic.message ++ "\n"
  let place :=
    match diagnostic.location? with
    | some location => "  --> " ++ Style.place.apply colors location.text ++ "\n"
    | none => ""
  let notes := diagnostic.notes.map fun note => "  = note: " ++ note ++ "\n"
  headline ++ place ++ String.join notes

/-- The lines of a terminal for several diagnostics. -/
def terminalTexts (colors : Bool) (diagnostics : List Diagnostic) : String :=
  String.join (diagnostics.map (terminalText colors))

end Diagnostic

end ExprCompiler

import ExprCompiler.Report.Code
import ExprCompiler.Source.Location

/-! A reported problem, and the terminal text of one. -/

namespace ExprCompiler

/-- Errors decide the outcome of a run; warnings never do. -/
inductive Severity where
  | error | warning
deriving DecidableEq, Repr, Inhabited

/-- The word for a severity. -/
def Severity.text : Severity → String
  | .error => "error"
  | .warning => "warning"

/-- A problem, and where it was found if that is known. -/
structure Diagnostic where
  code : ErrorCode
  severity : Severity := .error
  message : String := code.description
  location? : Option Location := none
  notes : List String := []
deriving DecidableEq, Repr, Inhabited

namespace Diagnostic

/-- An error with a message of its own at a known place. -/
def errorAt (code : ErrorCode) (message : String) (location : Location) : Diagnostic :=
  { code, message, location? := some location }

/-- Whether the problem is an error. -/
def isError (diagnostic : Diagnostic) : Bool :=
  diagnostic.severity = .error

/-- Where a problem is sorted; one without a place comes first. -/
def location (diagnostic : Diagnostic) : Location :=
  diagnostic.location?.getD .unknown

/-- The line of a problem, or 0 for one without a place. -/
def line (diagnostic : Diagnostic) : Nat :=
  diagnostic.location.line

/-- Whether two problems are one to the reader: the same message on the same line. -/
def repeats (later earlier : Diagnostic) : Bool :=
  earlier.line = later.line && earlier.message = later.message

/-- A problem on one line. -/
def text (diagnostic : Diagnostic) : String :=
  let place :=
    match diagnostic.location? with
    | some location => " at " ++ location.text
    | none => ""
  diagnostic.severity.text ++ "[" ++ diagnostic.code.text ++ "]: " ++ diagnostic.message
    ++ place

end Diagnostic

end ExprCompiler

import ExprCompiler.Number.Integer
import ExprCompiler.Report.Queue
import ExprCompiler.Report.Terminal
import ExprCompiler.Text.Utf8

/-! Command-line options. They may stand before and after the input path, and the last one of
a kind counts.
-/

namespace ExprCompiler

/-- How problems are reported. -/
structure Options where
  color : ColorMode := .auto
  diagnostics : QueueConfig := {}
deriving DecidableEq, Repr, Inhabited

/-- Why the arguments of a command cannot be read. -/
inductive OptionFault where
  | invalidColor (value : String)
  | invalidErrorLimit (value : String)
  | extraArgument (argument : String)
  | unknownOption (argument : String)
deriving DecidableEq, Repr, Inhabited

/-- What the user is told. -/
def OptionFault.message : OptionFault → String
  | .invalidColor value =>
      "invalid color mode '" ++ value ++ "' (expected auto, always or never)"
  | .invalidErrorLimit value => "invalid error limit '" ++ value ++ "'"
  | .extraArgument argument => "unexpected extra argument '" ++ argument ++ "'"
  | .unknownOption argument => "unknown option '" ++ argument ++ "'"

/-- The options read so far, and the input path if there was one. -/
structure Arguments where
  options : Options := {}
  path? : Option String := none
deriving DecidableEq, Repr, Inhabited

namespace Arguments

/-- The rest of an argument that begins with `flag`. -/
def valueOf? (flag argument : String) : Option String :=
  if flag.toList.isPrefixOf argument.toList then
    some (String.ofList (argument.toList.drop flag.length))
  else none

/-- Whether an argument names an input: it does not begin with a dash, or is one, which
stands for the standard input.
-/
def isPath (argument : String) : Bool :=
  argument = "-" || argument.toList.head? ≠ some '-'

/-- Sets the colour mode by its word. -/
def setColor (arguments : Arguments) (value : String) : Except OptionFault Arguments :=
  match ColorMode.ofText? value with
  | some color => .ok { arguments with options := { arguments.options with color } }
  | none => .error (.invalidColor value)

/-- Sets how many errors are kept. -/
def setErrorLimit (arguments : Arguments) (value : String) : Except OptionFault Arguments :=
  match Decimal.count? (Utf8.encode value) with
  | some errorLimit =>
      let diagnostics := { arguments.options.diagnostics with errorLimit }
      .ok { arguments with options := { arguments.options with diagnostics } }
  | none => .error (.invalidErrorLimit value)

/-- Keeps repetitions. -/
def keepDuplicates (arguments : Arguments) : Arguments :=
  let diagnostics := { arguments.options.diagnostics with deduplicate := false }
  { arguments with options := { arguments.options with diagnostics } }

/-- Sets the input path, of which there can be only one. -/
def setPath (arguments : Arguments) (path : String) : Except OptionFault Arguments :=
  match arguments.path? with
  | some _ => .error (.extraArgument path)
  | none => .ok { arguments with path? := some path }

/-- Reads one argument. -/
def read (arguments : Arguments) (argument : String) : Except OptionFault Arguments :=
  match valueOf? "--color=" argument, valueOf? "--error-limit=" argument with
  | some value, _ => arguments.setColor value
  | none, some value => arguments.setErrorLimit value
  | none, none =>
      if argument = "--no-dedup" then .ok arguments.keepDuplicates
      else if isPath argument then arguments.setPath argument
      else .error (.unknownOption argument)

/-- Reads all arguments from left to right, up to the first fault. -/
def ofList (arguments : List String) : Except OptionFault Arguments :=
  arguments.foldlM read {}

end Arguments

end ExprCompiler

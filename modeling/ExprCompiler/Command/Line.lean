import ExprCompiler.Command.Options
import ExprCompiler.Command.Program
import ExprCompiler.Command.TokenReport

/-! The command line: what a list of arguments asks for, and what is printed in answer. -/

namespace ExprCompiler

/-- The commands that work on a source text. -/
inductive Command where
  | lex | expr
deriving DecidableEq, Repr, Inhabited

namespace Command

/-- The word for a command. -/
def text : Command → String
  | .lex => "lex"
  | .expr => "expr"

/-- The command that a word stands for. -/
def ofText? (text : String) : Option Command :=
  [Command.lex, .expr].find? (·.text = text)

end Command

/-- What a list of arguments asks for. -/
inductive Invocation where
  | usage
  | version
  | unknownCommand (command : String)
  | badOptions (fault : OptionFault)
  | missingInput (command : Command)
  | run (command : Command) (options : Options) (path : String)
deriving DecidableEq, Repr, Inhabited

/-- The path that stands for the standard input. -/
def standardInput : String := "-"

/-- Why an input cannot be read. -/
inductive InputFault where
  | fileNotFound (path : String)
  | permissionDenied (path : String)
  | invalidFile (path : String)
  | unreadableFile (path reason : String)
  | invalidStandardInput
  | unreadableStandardInput (reason : String)
deriving DecidableEq, Repr, Inhabited

namespace InputFault

/-- The fault of an input whose bytes are no text. -/
def invalid (path : String) : InputFault :=
  if path = standardInput then .invalidStandardInput else .invalidFile path

/-- The fault of an input that the system does not give for some other reason. -/
def unreadable (path reason : String) : InputFault :=
  if path = standardInput then .unreadableStandardInput reason
  else .unreadableFile path reason

/-- What the user is told. -/
def message : InputFault → String
  | .fileNotFound path => "cannot find file '" ++ path ++ "'"
  | .permissionDenied path => "permission denied reading '" ++ path ++ "'"
  | .invalidFile path => "'" ++ path ++ "' contains invalid UTF-8 data"
  | .unreadableFile path reason => "error reading '" ++ path ++ "': " ++ reason
  | .invalidStandardInput =>
      "error reading standard input: stream did not contain valid UTF-8"
  | .unreadableStandardInput reason => "error reading standard input: " ++ reason

end InputFault

/-- The source text that the bytes of an input hold. -/
def decodeInput (path : String) (bytes : List UInt8) : Except InputFault String :=
  match Utf8.decode? bytes with
  | some source => .ok source
  | none => .error (.invalid path)

/-- What is printed, and the exit code. -/
structure Response where
  output : String := ""
  errors : String := ""
  exitCode : Nat := 0
deriving DecidableEq, Repr, Inhabited

/-- The help text. -/
def usageText : String :=
  String.join ([
    "Swiftlet compiler",
    "",
    "Usage: swlc <command> <file | -> [options]",
    "",
    "Commands:",
    "  lex <file>     Tokenize and display tokens",
    "  expr <file>    Evaluate one expression per line and print IFJcode23",
    "  help           Show this help message",
    "  version        Show version information",
    "",
    "Options:",
    "  --color=<mode>      Diagnostic colors: auto, always, never",
    "  --error-limit=<n>   Stop reporting after n errors (0 = no limit)",
    "  --no-dedup          Report repeated diagnostics on the same line",
    "",
    "Exit status is the code of the first error (0 on success).",
    "Set SWL_LOG=debug (or a filter like swl_expr=trace) to enable tracing."
  ].map (· ++ "\n"))

namespace Invocation

/-- What the arguments after a command ask for. -/
def ofCommand (command : Command) (arguments : List String) : Invocation :=
  match Arguments.ofList arguments with
  | .error fault => .badOptions fault
  | .ok { path? := none, .. } => .missingInput command
  | .ok { options, path? := some path } => .run command options path

/-- What a list of arguments asks for. -/
def ofArguments : List String → Invocation
  | [] => .usage
  | word :: arguments =>
      match Command.ofText? word with
      | some command => ofCommand command arguments
      | none =>
          if word ∈ ["help", "--help", "-h"] then .usage
          else if word ∈ ["version", "--version", "-V"] then .version
          else .unknownCommand word

/-- The input that an invocation reads. -/
def path? : Invocation → Option String
  | .run _ _ path => some path
  | _ => none

/-- The answer to bad arguments or an input that cannot be read. -/
def refusal (errors : String) : Response where
  errors := errors
  exitCode := ErrorCode.internal.exitCode

/-- Runs a command on a source text. A program with an error is not printed. -/
def runCommand (command : Command) (options : Options) (isTerminal : Bool)
    (source : String) : Response :=
  let errors := Diagnostic.terminalTexts (options.color.enabled isTerminal)
  match command with
  | .lex =>
      let report := reportTokens source options.diagnostics
      {
        output := report.listing
        errors := errors report.diagnostics
        exitCode := report.status.exitCode
      }
  | .expr =>
      let report := compileProgram source options.diagnostics
      {
        output := if report.status.isSet then "" else report.text
        errors := errors report.diagnostics
        exitCode := report.status.exitCode
      }

/-- The answer to an invocation. Only a command reads its `input`, and colours depend on
whether errors go to a terminal.
-/
def respond (invocation : Invocation) (input : Except InputFault String)
    (isTerminal : Bool) : Response :=
  match invocation with
  | .usage => { output := usageText }
  | .version => { output := "swlc 0.1.0-alpha.1\n" }
  | .unknownCommand command =>
      { refusal ("Unknown command: " ++ command ++ "\n\n") with output := usageText }
  | .badOptions fault => refusal ("error: " ++ fault.message ++ "\n")
  | .missingInput command =>
      refusal
        ("error: missing input file\nUsage: swlc " ++ command.text
          ++ " <file | -> [options]\n")
  | .run command options _ =>
      match input with
      | .error fault => refusal (fault.message ++ "\n")
      | .ok source => runCommand command options isTerminal source

end Invocation

end ExprCompiler

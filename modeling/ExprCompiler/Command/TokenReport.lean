import ExprCompiler.Lexical.Scanner
import ExprCompiler.Source.Listing

/-! The tokens of a source text, one on a line, with all its lexical faults. -/

namespace ExprCompiler

/-- A listing of tokens and the problems met. -/
structure TokenReport where
  listing : String
  diagnostics : List Diagnostic
  status : FirstError
deriving DecidableEq, Repr, Inhabited

/-- The tokens among readings. -/
def readTokens (readings : List Reading) : List Token :=
  readings.filterMap fun
    | .ok token => some token
    | .error _ => none

/-- The faults among readings. -/
def readFaults (readings : List Reading) : List LexicalError :=
  readings.filterMap fun
    | .ok _ => none
    | .error error => some error

/-- Lists tokens, each on a line of its own. -/
def listTokens (tokens : List Token) : String :=
  String.join (tokens.map fun token => token.listing ++ "\n")

/-- Scans a source text to its end, past all faults. Warnings come after the faults. -/
def reportTokens (source : String) (config : QueueConfig) : TokenReport :=
  let (readings, scanner) := (Scanner.ofText source).readings
  let faults := (readFaults readings).map fun error => error.diagnostic
  let queue :=
    (({ config } : DiagnosticQueue).addAll faults).addAll scanner.warnings.flush.1
  {
    listing := listTokens (readTokens readings)
    diagnostics := queue.flush.1
    status := queue.firstError
  }

end ExprCompiler

/-! The kinds of compile errors, each with the exit code of a run that met it first. -/

namespace ExprCompiler

/-- What an error is about. -/
inductive ErrorCode where
  | lexical
  | syntactic
  | undefinedFunction
  | functionParams
  | undefinedVariable
  | functionReturn
  | incompatibleTypes
  | missingType
  | semantic
  | internal
deriving DecidableEq, Repr, Inhabited

namespace ErrorCode

/-- Every error code. -/
def all : List ErrorCode :=
  [.lexical, .syntactic, .undefinedFunction, .functionParams, .undefinedVariable,
    .functionReturn, .incompatibleTypes, .missingType, .semantic, .internal]

/-- The exit code of a run whose first error has this code. -/
def exitCode : ErrorCode → Nat
  | .lexical => 1
  | .syntactic => 2
  | .undefinedFunction => 3
  | .functionParams => 4
  | .undefinedVariable => 5
  | .functionReturn => 6
  | .incompatibleTypes => 7
  | .missingType => 8
  | .semantic => 9
  | .internal => 99

/-- The error code with this exit code. -/
def ofExitCode? (exitCode : Nat) : Option ErrorCode :=
  all.find? (·.exitCode = exitCode)

/-- The exit code in decimal. -/
def text (code : ErrorCode) : String :=
  Nat.repr code.exitCode

/-- The message of an error that has no message of its own. -/
def description : ErrorCode → String
  | .lexical => "lexical error"
  | .syntactic => "syntax error"
  | .undefinedFunction => "undefined function or redefinition"
  | .functionParams => "wrong parameters or return type"
  | .undefinedVariable => "undefined or uninitialized variable"
  | .functionReturn => "wrong return expression"
  | .incompatibleTypes => "incompatible operand types"
  | .missingType => "missing type"
  | .semantic => "semantic error"
  | .internal => "internal compiler error"

/-- Whether the error is about meaning rather than form. -/
def isSemantic : ErrorCode → Bool
  | .lexical | .syntactic | .internal => false
  | _ => true

end ErrorCode

end ExprCompiler

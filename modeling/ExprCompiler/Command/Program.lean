import ExprCompiler.Expression.Parser
import ExprCompiler.Lexical.Scanner
import ExprCompiler.Names.Builtin
import ExprCompiler.Target.Code

/-! Programs of one expression per line. Each line is compiled on its own, with the built-in
functions in scope; the code of a line ends by clearing the data stack. A lexical fault ends
the compilation, any other error only its line.
-/

namespace ExprCompiler

/-- What has been compiled so far. -/
structure Compilation where
  queue : DiagnosticQueue
  code : List Assembly.Line := Assembly.prolog
  /-- The number of the next branch. -/
  branch : UInt32 := 0
  /-- The number of expressions so far. -/
  expressions : Nat := 0
deriving DecidableEq, Repr, Inhabited

namespace Compilation

/-- Reports a problem. -/
def report (compilation : Compilation) (diagnostic : Diagnostic) : Compilation :=
  { compilation with queue := compilation.queue.add diagnostic }

/-- Adds an expression with its code and its problems. -/
def addExpression (compilation : Compilation) (outcome : ExprOutcome) : Compilation where
  queue := compilation.queue.addAll outcome.diagnostics
  code :=
    compilation.code ++ Instruction.linesOf compilation.branch outcome.code ++ [.clearStack]
  branch := Instruction.branchAfter compilation.branch outcome.code
  expressions := compilation.expressions + 1

/-- Reports a token that follows an expression on its line. -/
def reportTrailing (compilation : Compilation) (token : Token) : Compilation :=
  compilation.report
    (.errorAt .syntactic ("unexpected " ++ token.kind.description ++ " after expression")
      token.location)

end Compilation

/-- The declaration of the built-in functions in one block. -/
def registration : Except SymbolError Unit × ScopeStack × UInt32 :=
  Builtin.register ({} : ScopeStack).push 0

/-- The scope of every expression: one block with the built-in functions. -/
def builtinScopes : ScopeStack :=
  registration.2.1

/-- The queue of a program before its first line. A failure to declare the built-in functions is
reported at no place.
-/
def startingQueue (config : QueueConfig) : DiagnosticQueue :=
  match registration.1 with
  | .ok () => { config }
  | .error error =>
      ({ config } : DiagnosticQueue).add { code := error.code, message := error.message }

/-- Whether a line of the program ends with the token. -/
def TokenKind.endsLine (kind : TokenKind) : Bool :=
  kind = .endOfLine || kind = .endOfFile

/-- Reads on to the end of the line. -/
def skipLine (scanner : Scanner) : Except LexicalError Unit × Scanner :=
  match _reading : scanner.next with
  | (.error error, rest) => (.error error, rest)
  | (.ok token, rest) =>
      if _ends : token.kind.endsLine then (.ok (), rest) else skipLine rest
termination_by scanner.rest.length
decreasing_by
  have shorter := scanner.next_rest_length_lt
  grind [Reading.isEnd, TokenKind.endsLine]

/-- Skipping never gives bytes back, by induction over the tokens skipped. -/
theorem skipLine_rest_length_le (scanner : Scanner)
    : (skipLine scanner).2.rest.length ≤ scanner.rest.length := by
  fun_induction skipLine scanner with
  | case1 scanner error rest reading =>
      have noLonger := scanner.next_rest_length_le
      rwa [reading] at noLonger
  | case2 scanner token rest reading _ =>
      have noLonger := scanner.next_rest_length_le
      rwa [reading] at noLonger
  | case3 scanner token rest reading _ ih =>
      have noLonger := scanner.next_rest_length_le
      rw [reading] at noLonger
      exact Nat.le_trans ih noLonger

/-- The compilation after a line, the scanner there, and whether more lines may follow. -/
structure LineResult where
  compilation : Compilation
  scanner : Scanner
  continues : Bool

/-- Deals with the token that ended an expression. -/
def finishLine (compilation : Compilation) (terminator? : Option Token) (scanner : Scanner) :
    LineResult :=
  match terminator? with
  | none => { compilation, scanner, continues := false }
  | some token =>
      if token.kind = .endOfFile then { compilation, scanner, continues := false }
      else if token.kind = .endOfLine then { compilation, scanner, continues := true }
      else
        let compilation := compilation.reportTrailing token
        match skipLine scanner with
        | (.error error, scanner) =>
            { compilation := compilation.report error.diagnostic, scanner, continues := false }
        | (.ok (), scanner) => { compilation, scanner, continues := true }

/-- Compiles the expression that starts with `first`, and its line. -/
def compileExpression (scopes : ScopeStack) (compilation : Compilation) (first : Token)
    (scanner : Scanner) : LineResult :=
  let (outcome, rest) := parseExpression scopes first scanner
  finishLine (compilation.addExpression outcome) outcome.terminator? rest

/-- Compiles the next line, which may be empty. -/
def compileLine (scopes : ScopeStack) (compilation : Compilation) (scanner : Scanner) :
    LineResult :=
  match scanner.next with
  | (.error error, scanner) =>
      { compilation := compilation.report error.diagnostic, scanner, continues := false }
  | (.ok first, scanner) =>
      if first.kind = .endOfFile then { compilation, scanner, continues := false }
      else if first.kind = .endOfLine then { compilation, scanner, continues := true }
      else compileExpression scopes compilation first scanner

/-- The rest of a line is only read. -/
theorem finishLine_rest_length_le (compilation : Compilation) (terminator? : Option Token)
    (scanner : Scanner)
    : (finishLine compilation terminator? scanner).scanner.rest.length
      ≤ scanner.rest.length := by
  have noLonger := skipLine_rest_length_le scanner
  unfold finishLine
  grind

/-- An expression and its line are only read. -/
theorem compileExpression_rest_length_le (scopes : ScopeStack) (compilation : Compilation)
    (first : Token) (scanner : Scanner)
    : (compileExpression scopes compilation first scanner).scanner.rest.length
      ≤ scanner.rest.length :=
  Nat.le_trans (finishLine_rest_length_le ..)
    (Parser.remaining_parseFrom_le scopes {} first scanner)

/-- A line that others may follow takes at least one byte. -/
theorem compileLine_rest_length_lt (scopes : ScopeStack) (compilation : Compilation)
    (scanner : Scanner) (more : (compileLine scopes compilation scanner).continues = true)
    : (compileLine scopes compilation scanner).scanner.rest.length
      < scanner.rest.length := by
  have shorter := scanner.next_rest_length_lt
  unfold compileLine at more ⊢
  split at more
  · simp at more
  · next first rest reading =>
      rw [reading] at shorter
      simp only [Reading.isEnd] at shorter
      split at more
      · simp at more
      · next notEnd =>
          have shorter := shorter (by simpa using notEnd)
          simp only [notEnd, if_false]
          split
          · exact shorter
          · exact Nat.lt_of_le_of_lt (compileExpression_rest_length_le ..) shorter

/-- Compiles all lines. -/
def compileLines (scopes : ScopeStack) (compilation : Compilation) (scanner : Scanner) :
    Compilation × Scanner :=
  match _line : compileLine scopes compilation scanner with
  | ⟨compiled, rest, true⟩ => compileLines scopes compiled rest
  | ⟨compiled, rest, false⟩ => (compiled, rest)
termination_by scanner.rest.length
decreasing_by
  have shorter := compileLine_rest_length_lt scopes compilation scanner (by rw [_line])
  rwa [_line] at shorter

/-- A compiled program and the problems met. -/
structure ProgramReport where
  code : List Assembly.Line
  diagnostics : List Diagnostic
  status : FirstError
  expressions : Nat
deriving DecidableEq, Repr, Inhabited

/-- The text of a compiled program. -/
def ProgramReport.text (report : ProgramReport) : String :=
  Assembly.render report.code

/-- Compiles a source text. Warnings come after all errors. -/
def compileProgram (source : String) (config : QueueConfig) : ProgramReport :=
  let (compilation, scanner) :=
    compileLines builtinScopes { queue := startingQueue config } (Scanner.ofText source)
  let queue := compilation.queue.addAll scanner.warnings.flush.1
  {
    code := compilation.code
    diagnostics := queue.flush.1
    status := queue.firstError
    expressions := compilation.expressions
  }

end ExprCompiler

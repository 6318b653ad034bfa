import ExprCompiler.Expression.Reduction
import ExprCompiler.Lexical.TokenSource
import ExprCompiler.Report.Queue

/-! Operator-precedence parsing of one expression. Tokens are read up to the first one that
cannot belong to the expression; every reduction is type checked and adds its code, until an
error stops the code but not the parsing.
-/

namespace ExprCompiler

/-- A parse in progress. -/
structure Parser where
  stack : ParseStack := {}
  diagnostics : DiagnosticQueue := {}
  code : List Instruction := []
deriving DecidableEq, Repr, Inhabited

namespace Parser

/-- Reports a fault in the form of the expression. -/
def report (parser : Parser) (fault : ParseFault) (location : Location) : Parser :=
  { parser with
    diagnostics := parser.diagnostics.add (fault.diagnostic (some location)) }

/-- Reduces the topmost handle. Once there was an error, no code is added. -/
def reduce (scopes : ScopeStack) (parser : Parser) : Parser :=
  let (handle, stack) := parser.stack.popHandle
  let reduction := Reduction.ofHandle scopes handle
  {
    stack := stack.pushReduced reduction.operand
    diagnostics := reduction.problem?.elim parser.diagnostics parser.diagnostics.add
    code :=
      if parser.diagnostics.hasErrors then parser.code else parser.code ++ reduction.code
  }

/-- Reducing makes the stack lighter. -/
theorem weight_reduce_lt (scopes : ScopeStack) {parser : Parser}
    (notEnd : parser.stack.top ≠ .finish)
    : (parser.reduce scopes).stack.weight < parser.stack.weight :=
  ParseStack.weight_popHandle_lt notEnd _

/-- Whether a token is a line break that the expression goes on after. -/
def skips (parser : Parser) (token : Token) : Bool :=
  token.kind = .endOfLine && parser.stack.expectsOperand

/-- Why a token cannot stand on top of the stack. -/
def misplaced (stack : ParseStack) (token : Token) : ParseFault :=
  match Category.ofKind token.kind with
  | .closeParen => .missingLeftParen
  | .operand | .openParen =>
      if stack.afterOperand then .missingOperator else .unexpected token.kind
  | _ => .unexpected token.kind

/-- Reports a token that cannot stand here, and goes on as if an operand followed it. -/
def recover (parser : Parser) (token : Token) : Parser :=
  let reported := parser.report (misplaced parser.stack token) token.location
  { reported with stack := (parser.stack.mark.pushToken token).pushReduced .placeholder }

/-- Reports that the expression cannot end here, and gives it up. -/
def giveUp (parser : Parser) (token : Token) : Parser :=
  let fault :=
    if parser.stack.top = .openParen then ParseFault.missingRightParen else .unexpectedEnd
  let reported := parser.report fault token.location
  { reported with stack := parser.stack.collapse .placeholder }

/-- The parse after a token: it wants more tokens, or it is done and the token stays. -/
inductive Progress where
  | more (parser : Parser)
  | done (parser : Parser)
deriving DecidableEq, Repr, Inhabited

/-- Nothing is reduced on the bottom marker, by inspection of the precedences. -/
theorem top_ne_finish_of_reduce {top incoming : Category}
    (reduces : action top incoming = .reduce)
    : top ≠ .finish := by
  rintro rfl
  cases incoming <;> simp [action] at reduces

/-- Takes one token into the parse, after all reductions that it calls for. -/
def feed (scopes : ScopeStack) (parser : Parser) (token : Token) : Progress :=
  if parser.skips token then .more parser
  else
    let incoming := Category.ofKind token.kind
    if parser.stack.top = .finish ∧ incoming = .finish then .done parser
    else
      match _decision : action parser.stack.top incoming with
      | .shift => .more { parser with stack := parser.stack.mark.pushToken token }
      | .equal => .more { parser with stack := parser.stack.pushToken token }
      | .reduce => feed scopes (parser.reduce scopes) token
      | .error =>
          if incoming = .finish then .done (parser.giveUp token)
          else .more (parser.recover token)
termination_by parser.stack.weight
decreasing_by exact weight_reduce_lt scopes (top_ne_finish_of_reduce _decision)

end Parser

/-- What came of parsing one expression. -/
structure ExprOutcome where
  /-- The first error, if there was one. -/
  status : FirstError
  type : ExprType
  /-- The token after the expression; after a lexical fault there is none. -/
  terminator? : Option Token
  diagnostics : List Diagnostic
  code : List Instruction
deriving DecidableEq, Repr, Inhabited

namespace Parser

/-- Ends a parse before `terminator`. An expression must be left. -/
def finish (parser : Parser) (terminator : Token) : ExprOutcome :=
  let ended :=
    match parser.stack.result? with
    | some _ => parser
    | none => parser.report .expectedExpression terminator.location
  {
    status := ended.diagnostics.firstError
    type := (parser.stack.result?.map Reduced.type).getD .undefined
    terminator? := some terminator
    diagnostics := ended.diagnostics.flush.1
    code := ended.code
  }

/-- Ends a parse at a lexical fault, which becomes its status. -/
def abort (parser : Parser) (error : LexicalError) : ExprOutcome where
  status := ⟨some .lexical⟩
  type := .undefined
  terminator? := none
  diagnostics := (parser.diagnostics.add error.diagnostic).flush.1
  code := parser.code

/-- Before the end of an expression everything is reduced, except an open parenthesis and
the bottom itself.
-/
theorem action_finish (top : Category)
    : action top .finish
      = if top = .openParen then .error else if top = .finish then .equal else .reduce := by
  cases top <;> rfl

/-- The end of file ends every parse, by induction over the reductions before it. -/
theorem feed_endOfFile (scopes : ScopeStack) (parser : Parser) {token : Token}
    (atEnd : token.kind = .endOfFile)
    : ∃ ended, feed scopes parser token = .done ended := by
  have incoming : Category.ofKind token.kind = .finish := by rw [atEnd]; rfl
  fun_induction feed scopes parser token with
  | case1 parser skipped => simp [skips, atEnd] at skipped
  | case2 parser _ _ => exact ⟨_, rfl⟩
  | case3 parser _ category notBoth decision => grind [action_finish]
  | case4 parser _ category notBoth decision => grind [action_finish]
  | case5 parser _ _ _ _ ih => exact ih
  | case6 parser _ _ _ _ _ => exact ⟨_, rfl⟩
  | case7 parser _ _ _ _ notFinish => exact absurd incoming notFinish

/-- A parse asks for more only after a token that is not the end of file. -/
theorem kind_ne_of_feed_eq_more {scopes : ScopeStack} {parser advanced : Parser}
    {token : Token} (progress : feed scopes parser token = .more advanced)
    : token.kind ≠ .endOfFile := by
  intro atEnd
  obtain ⟨ended, done⟩ := feed_endOfFile scopes parser atEnd
  simp [done] at progress

/-- How many tokens a parse may still take, the one in hand included. -/
def budget {Source : Type} [TokenSource Source] (token : Token) (source : Source) : Nat :=
  2 * TokenSource.remaining source + if token.kind = .endOfFile then 0 else 1

/-- Reading a token after one that is not the end of file uses up the budget. -/
theorem budget_lt {Source : Type} [TokenSource Source] {token following : Token}
    {source rest : Source} (notEnd : token.kind ≠ .endOfFile)
    (reading : TokenSource.next source = (.ok following, rest))
    : budget following rest < budget token source := by
  have noMore := TokenSource.remaining_next_le source
  have fewer := TokenSource.remaining_next_lt source
  grind [budget, Reading.isEnd]

/-- Parses on from `token` with the tokens of `source`. -/
def parseFrom {Source : Type} [TokenSource Source] (scopes : ScopeStack) (parser : Parser)
    (token : Token) (source : Source) : ExprOutcome × Source :=
  match _progress : feed scopes parser token with
  | .done ended => (ended.finish token, source)
  | .more advanced =>
      match _reading : TokenSource.next source with
      | (.error error, rest) => (advanced.abort error, rest)
      | (.ok following, rest) => parseFrom scopes advanced following rest
termination_by budget token source
decreasing_by exact budget_lt (kind_ne_of_feed_eq_more _progress) _reading

/-- What is left of the source after a parse is no more than before it. -/
theorem remaining_parseFrom_le {Source : Type} [TokenSource Source] (scopes : ScopeStack)
    (parser : Parser) (token : Token) (source : Source)
    : TokenSource.remaining (parseFrom scopes parser token source).2
      ≤ TokenSource.remaining source := by
  fun_induction parseFrom scopes parser token source with
  | case1 => exact Nat.le_refl _
  | case2 parser token source _ _ error rest reading =>
      have noMore := TokenSource.remaining_next_le source
      rwa [reading] at noMore
  | case3 parser token source _ _ token rest reading ih =>
      have noMore := TokenSource.remaining_next_le source
      rw [reading] at noMore
      exact Nat.le_trans ih noMore

end Parser

/-- Parses the expression that starts with `first` and goes on in `source`. -/
def parseExpression {Source : Type} [TokenSource Source] (scopes : ScopeStack)
    (first : Token) (source : Source) : ExprOutcome × Source :=
  Parser.parseFrom scopes {} first source

end ExprCompiler

import ExprCompiler.Proofs.Expression.Errors

/-! The error events of a parse, in the order in which they happen. Main statement: a parse
offers its queue the diagnostics of exactly these events, so that the first error it knows of is
the first event.
-/

namespace ExprCompiler

/-- Something that goes wrong in a run. -/
inductive ErrorEvent where
  /-- The check of an operand or an operator fails. -/
  | failedCheck (fault : TypeFault) (location : Location)
  /-- A handle has the shape of no production. -/
  | malformedHandle (fault : ParseFault) (location? : Option Location)
  /-- A token has no place in the table of precedences. -/
  | misplacedToken (fault : ParseFault) (location : Location)
  /-- Nothing is left of an expression at its end. -/
  | emptyExpression (location : Location)
  /-- A token follows an expression on its line. -/
  | trailingToken (token : Token)
  /-- No token can be read. -/
  | lexical (error : LexicalError)
deriving DecidableEq, Repr

/-- The diagnostic of an event. -/
def ErrorEvent.diagnostic : ErrorEvent → Diagnostic
  | .failedCheck fault location => .errorAt fault.code fault.message location
  | .malformedHandle fault location? => fault.diagnostic location?
  | .misplacedToken fault location => fault.diagnostic (some location)
  | .emptyExpression location => ParseFault.expectedExpression.diagnostic (some location)
  | .trailingToken token =>
      .errorAt .syntactic ("unexpected " ++ token.kind.description ++ " after expression")
        token.location
  | .lexical error => error.diagnostic

/-- Every event is reported as an error. -/
theorem ErrorEvent.isError_diagnostic (event : ErrorEvent) : event.diagnostic.isError = true := by
  cases event <;> rfl

/-- The diagnostics of some events. -/
def diagnosticsOf (events : List ErrorEvent) : List Diagnostic :=
  events.map ErrorEvent.diagnostic

@[simp] theorem diagnosticsOf_nil : diagnosticsOf [] = [] := by
  simp [diagnosticsOf]

@[simp] theorem diagnosticsOf_append (first second : List ErrorEvent)
    : diagnosticsOf (first ++ second) = diagnosticsOf first ++ diagnosticsOf second :=
  List.map_append

/-- The diagnostics of events are all errors. -/
theorem isError_of_mem_diagnosticsOf {events : List ErrorEvent} {diagnostic : Diagnostic}
    (member : diagnostic ∈ diagnosticsOf events)
    : diagnostic.isError = true := by
  obtain ⟨event, _, rfl⟩ := List.mem_map.mp member
  exact event.isError_diagnostic

/-- The event of a check that fails. -/
def checkEvent? (location : Location) : Except TypeFault Checked → Option ErrorEvent
  | .ok _ => none
  | .error fault => some (.failedCheck fault location)

/-- The event of a reduction: its check fails, or the handle is malformed and nothing in it was
reported before.
-/
def handleEvent? (scopes : ScopeStack) (handle : List StackItem) : Option ErrorEvent :=
  match Production.ofHandle handle with
  | .primary value location => checkEvent? location (checkPrimary scopes value)
  | .notNil operand location => checkEvent? location (checkNotNil operand)
  | .parens _ => none
  | .binary op left right location => checkEvent? location (checkBinary op left right)
  | .malformed fault =>
      if isPoisoned handle then none
      else some (.malformedHandle fault (handleLocation? handle))

/-- The problem of a check is that of its event. -/
theorem Reduction.problem?_ofCheck (location : Location) (check : Except TypeFault Checked)
    : (ofCheck location check).problem?
      = (checkEvent? location check).map ErrorEvent.diagnostic := by
  cases check <;> rfl

/-- The problem of a reduction is that of its event. -/
theorem Reduction.problem?_ofHandle (scopes : ScopeStack) (handle : List StackItem)
    : (ofHandle scopes handle).problem?
      = (handleEvent? scopes handle).map ErrorEvent.diagnostic := by
  unfold ofHandle handleEvent?
  cases Production.ofHandle handle with
  | primary value location => exact problem?_ofCheck location _
  | notNil operand location => exact problem?_ofCheck location _
  | parens inner => rfl
  | binary op left right location => exact problem?_ofCheck location _
  | malformed fault => cases isPoisoned handle <;> rfl

namespace Parser

/-- The event of a token that the table refuses. -/
def refusal (parser : Parser) (token : Token) : ErrorEvent :=
  if Category.ofKind token.kind = .finish then
    .misplacedToken
      (if parser.stack.top = .openParen then .missingRightParen else .unexpectedEnd)
      token.location
  else .misplacedToken (misplaced parser.stack token) token.location

/-- The events while one token is taken: those of the reductions before it, and then its own if
the table refuses it.
-/
def feedEvents (scopes : ScopeStack) (parser : Parser) (token : Token) : List ErrorEvent :=
  if parser.skips token then []
  else
    let incoming := Category.ofKind token.kind
    if parser.stack.top = .finish ∧ incoming = .finish then []
    else
      match _decision : action parser.stack.top incoming with
      | .shift => []
      | .equal => []
      | .reduce =>
          (handleEvent? scopes parser.stack.popHandle.1).toList
            ++ feedEvents scopes (parser.reduce scopes) token
      | .error => [parser.refusal token]
termination_by parser.stack.weight
decreasing_by exact weight_reduce_lt scopes (top_ne_finish_of_reduce _decision)

/-- The events of a token for which the table has decided. -/
def actionEvents (scopes : ScopeStack) (parser : Parser) (token : Token)
    : Action → List ErrorEvent
  | .shift => []
  | .equal => []
  | .reduce =>
      (handleEvent? scopes parser.stack.popHandle.1).toList
        ++ feedEvents scopes (parser.reduce scopes) token
  | .error => [parser.refusal token]

/-- The table decides about a token that is neither skipped nor the end of all. -/
theorem feedEvents_eq {scopes : ScopeStack} {parser : Parser} {token : Token} {decided : Action}
    (moves : ¬parser.skips token = true)
    (notBoth : ¬(parser.stack.top = .finish ∧ Category.ofKind token.kind = .finish))
    (decision : action parser.stack.top (Category.ofKind token.kind) = decided)
    : feedEvents scopes parser token = actionEvents scopes parser token decided := by
  subst decision
  rw [feedEvents.eq_def, if_neg moves, if_neg notBoth]
  split <;> simp_all [actionEvents]

/-- A reduction offers its event. -/
theorem diagnostics_reduce (scopes : ScopeStack) (parser : Parser)
    : (parser.reduce scopes).diagnostics
      = parser.diagnostics.addAll
          (diagnosticsOf (handleEvent? scopes parser.stack.popHandle.1).toList) := by
  simp only [reduce, Reduction.problem?_ofHandle]
  cases handleEvent? scopes parser.stack.popHandle.1 <;> rfl

/-- Taking a token offers its events, by induction over the reductions before it. -/
theorem diagnostics_feed (scopes : ScopeStack) (parser : Parser) (token : Token)
    : (feed scopes parser token).state.diagnostics
      = parser.diagnostics.addAll (diagnosticsOf (feedEvents scopes parser token)) := by
  fun_induction feed scopes parser token with
  | case1 parser skipped =>
      rw [feedEvents, if_pos skipped]
      rfl
  | case2 parser moves incoming ends =>
      rw [feedEvents, if_neg moves, if_pos ends]
      rfl
  | case3 parser moves incoming notBoth decision =>
      rw [feedEvents_eq moves notBoth decision]
      rfl
  | case4 parser moves incoming notBoth decision =>
      rw [feedEvents_eq moves notBoth decision]
      rfl
  | case5 parser moves incoming notBoth decision ih =>
      rw [ih, feedEvents_eq moves notBoth decision, actionEvents, diagnosticsOf_append,
        DiagnosticQueue.addAll_append, diagnostics_reduce]
  | case6 parser moves incoming notBoth decision isEnd =>
      rw [feedEvents_eq moves notBoth decision, actionEvents, refusal, if_pos isEnd]
      rfl
  | case7 parser moves incoming notBoth decision notEnd =>
      rw [feedEvents_eq moves notBoth decision, actionEvents, refusal, if_neg notEnd]
      rfl

/-- The events at the end of an expression before `terminator`. -/
def finishEvents (parser : Parser) (terminator : Token) : List ErrorEvent :=
  if parser.stack.result?.isSome then [] else [.emptyExpression terminator.location]

/-- The events of a parse that goes on from `token` with the tokens of `source`. -/
def parseEvents {Source : Type} [TokenSource Source] (scopes : ScopeStack) (parser : Parser)
    (token : Token) (source : Source) : List ErrorEvent :=
  feedEvents scopes parser token
    ++ match _progress : feed scopes parser token with
      | .done ended => ended.finishEvents token
      | .more advanced =>
          match _reading : TokenSource.next source with
          | (.error error, _) => [.lexical error]
          | (.ok following, rest) => parseEvents scopes advanced following rest
termination_by budget token source
decreasing_by exact budget_lt (kind_ne_of_feed_eq_more _progress) _reading

/-- Ending an expression offers its last events and hands out what was kept. -/
theorem diagnostics_finish_eq (parser : Parser) (terminator : Token)
    : (parser.finish terminator).diagnostics
        = (parser.diagnostics.addAll (diagnosticsOf (parser.finishEvents terminator))).flush.1
      ∧ (parser.finish terminator).status
        = (parser.diagnostics.addAll (diagnosticsOf (parser.finishEvents terminator))).firstError
    := by
  unfold finish finishEvents
  cases parser.stack.result? <;> exact ⟨rfl, rfl⟩

theorem parseEvents_of_done {Source : Type} [TokenSource Source] {scopes : ScopeStack}
    {parser ended : Parser} {token : Token} (done : feed scopes parser token = .done ended)
    (source : Source)
    : parseEvents scopes parser token source
      = feedEvents scopes parser token ++ ended.finishEvents token := by
  rw [parseEvents]
  split <;> simp_all

theorem parseEvents_of_error {Source : Type} [TokenSource Source] {scopes : ScopeStack}
    {parser advanced : Parser} {token : Token} {source rest : Source} {error : LexicalError}
    (more : feed scopes parser token = .more advanced)
    (reading : TokenSource.next source = (.error error, rest))
    : parseEvents scopes parser token source
      = feedEvents scopes parser token ++ [.lexical error] := by
  rw [parseEvents]
  split
  · simp_all
  · split <;> simp_all

theorem parseEvents_of_more {Source : Type} [TokenSource Source] {scopes : ScopeStack}
    {parser advanced : Parser} {token following : Token} {source rest : Source}
    (more : feed scopes parser token = .more advanced)
    (reading : TokenSource.next source = (.ok following, rest))
    : parseEvents scopes parser token source
      = feedEvents scopes parser token ++ parseEvents scopes advanced following rest := by
  rw [parseEvents.eq_def]
  split
  · simp_all
  · split <;> simp_all

/-- A parse hands out what its queue keeps of its events, by induction over the tokens. -/
theorem diagnostics_parseFrom {Source : Type} [TokenSource Source] (scopes : ScopeStack)
    (parser : Parser) (token : Token) (source : Source)
    : (parseFrom scopes parser token source).1.diagnostics
      = (parser.diagnostics.addAll
          (diagnosticsOf (parseEvents scopes parser token source))).flush.1 := by
  fun_induction parseFrom scopes parser token source with
  | case1 parser token source ended progress =>
      have taken := diagnostics_feed scopes parser token
      rw [progress, Progress.state] at taken
      rw [parseEvents_of_done progress, (diagnostics_finish_eq ..).1, taken,
        diagnosticsOf_append, DiagnosticQueue.addAll_append]
  | case2 parser token source advanced progress error rest reading =>
      have taken := diagnostics_feed scopes parser token
      rw [progress, Progress.state] at taken
      rw [parseEvents_of_error progress reading, diagnosticsOf_append,
        DiagnosticQueue.addAll_append, ← taken]
      rfl
  | case3 parser token source advanced progress following rest reading ih =>
      have taken := diagnostics_feed scopes parser token
      rw [progress, Progress.state] at taken
      rw [ih, parseEvents_of_more progress reading, diagnosticsOf_append,
        DiagnosticQueue.addAll_append, ← taken]

/-- The status of a parse that reaches a terminator is that of its first event, and the status
of any other is that of the lexical fault. By induction over the tokens.
-/
theorem status_parseFrom {Source : Type} [TokenSource Source] (scopes : ScopeStack)
    (parser : Parser) (token : Token) (source : Source)
    : (parseFrom scopes parser token source).1.status
      = if (parseFrom scopes parser token source).1.terminator?.isSome then
          (parser.diagnostics.addAll
            (diagnosticsOf (parseEvents scopes parser token source))).firstError
        else ⟨some .lexical⟩ := by
  fun_induction parseFrom scopes parser token source with
  | case1 parser token source ended progress =>
      have taken := diagnostics_feed scopes parser token
      rw [progress, Progress.state] at taken
      rw [parseEvents_of_done progress, (diagnostics_finish_eq ..).2, taken,
        diagnosticsOf_append, DiagnosticQueue.addAll_append]
      rfl
  | case2 parser token source advanced progress error rest reading => rfl
  | case3 parser token source advanced progress following rest reading ih =>
      have taken := diagnostics_feed scopes parser token
      rw [progress, Progress.state] at taken
      rw [ih, parseEvents_of_more progress reading, diagnosticsOf_append,
        DiagnosticQueue.addAll_append, ← taken]

end Parser

end ExprCompiler

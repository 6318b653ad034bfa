import ExprCompiler.Proofs.Expression.Binding
import ExprCompiler.Proofs.Expression.PartialTrees
import ExprCompiler.Proofs.Lexical.TokenStream

/-! Runs of the parser over tokens. A run that takes some tokens is part of every parse of these
tokens. On a stack of trees, the table says what one token does to it.
-/

namespace ExprCompiler

/-- The parser takes some tokens one after the other and wants more after each. -/
inductive Parser.Consumes (scopes : ScopeStack) : Parser → List Token → Parser → Prop
  | nil {parser : Parser}
    : Consumes scopes parser [] parser
  | cons {parser next advanced : Parser} {token : Token} {tokens : List Token}
    (step : feed scopes parser token = .more next)
    (following : Consumes scopes next tokens advanced)
    : Consumes scopes parser (token :: tokens) advanced

namespace Parser

variable {scopes : ScopeStack} {parser middle advanced : Parser}

/-- Two runs one after the other are a run, by induction on the first. -/
theorem Consumes.append {front back : List Token} (first : Consumes scopes parser front middle)
    (second : Consumes scopes middle back advanced)
    : Consumes scopes parser (front ++ back) advanced := by
  induction first with
  | nil => exact second
  | cons step _ ih => exact .cons step (ih second)

theorem parseFrom_of_done {Source : Type} [TokenSource Source] {ended : Parser} {token : Token}
    (done : feed scopes parser token = .done ended) (source : Source)
    : parseFrom scopes parser token source = (ended.finish token, source) := by
  unfold parseFrom
  split <;> simp_all

/-- Parsing goes on with the next token of the source. -/
theorem parseFrom_of_more {Source : Type} [TokenSource Source] {token following : Token}
    {source rest : Source} (more : feed scopes parser token = .more advanced)
    (reading : TokenSource.next source = (.ok following, rest))
    : parseFrom scopes parser token source = parseFrom scopes advanced following rest := by
  rw [parseFrom.eq_def]
  split
  · simp_all
  · split <;> simp_all

/-- A lexical fault after a token aborts the parse. -/
theorem parseFrom_of_error {Source : Type} [TokenSource Source] {token : Token}
    {source rest : Source} {error : LexicalError}
    (more : feed scopes parser token = .more advanced)
    (reading : TokenSource.next source = (.error error, rest))
    : parseFrom scopes parser token source = (advanced.abort error, rest) := by
  rw [parseFrom.eq_def]
  split
  · simp_all
  · split <;> simp_all

/-- Parsing reads a run and the token that ends it, by induction on the run. -/
theorem Consumes.parseFrom_eq {Source : Type} [TokenSource Source] {ended : Parser}
    {consumed read : List Token} {token terminator : Token} {source rest : Source}
    (run : Consumes scopes parser consumed advanced)
    (ends : feed scopes advanced terminator = .done ended)
    (split : token :: read = consumed ++ [terminator]) (reads : Reads source read rest)
    : parseFrom scopes parser token source = (ended.finish terminator, rest) := by
  induction run generalizing token source read with
  | nil =>
      obtain ⟨rfl, rfl⟩ : token = terminator ∧ read = [] := by simpa using split
      cases reads
      exact parseFrom_of_done ends _
  | cons step _ ih =>
      obtain ⟨rfl, tail⟩ := List.cons.inj split
      cases reads with
      | nil => simp at tail
      | cons reading following =>
          rw [parseFrom_of_more step reading]
          exact ih ends tail following

/-- A parser that expects an operand takes line breaks and stays as it is, by induction on
them.
-/
theorem Consumes.lineBreaks (expects : parser.stack.expectsOperand = true)
    {breaks : List Token} (allBreaks : ∀ lineBreak ∈ breaks, lineBreak.kind = .endOfLine)
    : Consumes scopes parser breaks parser := by
  induction breaks with
  | nil => exact .nil
  | cons lineBreak breaks ih =>
      obtain ⟨isBreak, others⟩ := List.forall_mem_cons.mp allBreaks
      refine .cons ?_ (ih others)
      rw [feed, if_pos (by simp [skips, isBreak, expects])]

/-- What is done with a token. -/
def act (scopes : ScopeStack) (parser : Parser) (token : Token) : Action → Progress
  | .shift => .more { parser with stack := parser.stack.mark.pushToken token }
  | .equal => .more { parser with stack := parser.stack.pushToken token }
  | .reduce => feed scopes (parser.reduce scopes) token
  | .error =>
      if Category.ofKind token.kind = .finish then .done (parser.giveUp token)
      else .more (parser.recover token)

/-- The table says what is done with a token that is neither skipped nor the end of all. -/
theorem feed_eq_act_of_moves {token : Token} {decided : Action}
    (moves : ¬parser.skips token = true)
    (notBoth : ¬(parser.stack.top = .finish ∧ Category.ofKind token.kind = .finish))
    (decision : action parser.stack.top (Category.ofKind token.kind) = decided)
    : feed scopes parser token = act scopes parser token decided := by
  subst decision
  rw [feed.eq_def, if_neg moves, if_neg notBoth]
  split <;> simp_all [act]

theorem feed_eq_act {token : Token} (notBreak : token.kind ≠ .endOfLine)
    (notBoth : ¬(parser.stack.top = .finish ∧ Category.ofKind token.kind = .finish))
    : feed scopes parser token
      = act scopes parser token (action parser.stack.top (Category.ofKind token.kind)) :=
  feed_eq_act_of_moves (by simp [skips, notBreak]) notBoth rfl

theorem kind_ne_endOfLine_of_shift {below : Category} {token : Token}
    (shifts : action below (Category.ofKind token.kind) = .shift)
    : token.kind ≠ .endOfLine := by
  intro isBreak
  exact Category.ne_finish_of_shift shifts (by rw [isBreak]; rfl)

/-- A token that starts a handle goes on the stack of trees. -/
theorem exists_feed_of_shift {trees : Shape ExprTree} (tracks : Tracks scopes parser trees)
    {token : Token} (shifts : action trees.category (Category.ofKind token.kind) = .shift)
    : ∃ advanced, feed scopes parser token = .more advanced
        ∧ Tracks scopes advanced (trees.push token) := by
  have inside := Category.ne_finish_of_shift shifts
  have notClose := Category.ne_closeParen_of_shift shifts
  refine ⟨_, ?_, tracks.shift (by simp [notClose])⟩
  rw [feed_eq_act (kind_ne_endOfLine_of_shift shifts) (by simp [inside]), tracks.top, shifts]
  rfl

/-- A token looks at the stack of trees again after a handle is reduced before it. -/
theorem feed_of_reduce {trees : Shape ExprTree} (tracks : Tracks scopes parser trees)
    {token : Token} (notBreak : token.kind ≠ .endOfLine)
    (reduces : action trees.category (Category.ofKind token.kind) = .reduce)
    : feed scopes parser token = feed scopes (parser.reduce scopes) token := by
  have notBottom : parser.stack.top ≠ .finish := tracks.top ▸ top_ne_finish_of_reduce reduces
  rw [feed_eq_act notBreak (by simp [notBottom]), tracks.top, reduces]
  rfl

end Parser

end ExprCompiler

import ExprCompiler.Proofs.Expression.Grouping
import ExprCompiler.Proofs.Lexical.TokenStream

/-! Soundness of expression parsing. Main statement: if a parse reports no error, the tokens
before its terminator are those of a tree of the grammar, and type and code of the outcome are
the ones that the typing rules give to this tree.
-/

namespace ExprCompiler

/-- Whether a token is no line break. -/
def Token.isVisible (token : Token) : Bool :=
  token.kind ≠ .endOfLine

/-- A token of the expression is no line break, which only ends it or is skipped. -/
theorem Token.isVisible_of_category_ne_finish {token : Token}
    (inside : Category.ofKind token.kind ≠ .finish)
    : token.isVisible = true := by
  simp only [isVisible, decide_not, Bool.not_eq_true', decide_eq_false_iff_not]
  intro isBreak
  rw [isBreak] at inside
  exact inside rfl

namespace Parser

variable {scopes : ScopeStack} {parser : Parser}

/-- What a token leads to, if the tokens before it explain the parser. -/
def Progress.Explained (scopes : ScopeStack) (tokens : List Token) (token : Token)
    : Progress → Prop
  | .more advanced =>
      ∀ next, advanced.Explained scopes (tokens ++ [token].filter Token.isVisible) next
  | .done ended =>
      Category.ofKind token.kind = .finish
        ∧ ended.Explained scopes tokens .finish
        ∧ (ended.diagnostics.hasErrors = false → ended.stack.top = .finish)

/-- A token on top of a grouped stack explains the parser, whatever comes next. -/
theorem explained_push {advanced : Parser} {trees : Shape ExprTree} {token : Token}
    (tracks : Tracks scopes advanced (trees.push token)) (grouped : trees.Grouped)
    (left : ∀ tree ∈ trees.top?, (Category.ofKind token.kind).before.Derives tree)
    (follows
      : action trees.category (Category.ofKind token.kind) = .shift
        ∨ (trees.category = .openParen ∧ Category.ofKind token.kind = .closeParen))
    (next : Category)
    : advanced.Explained scopes (trees.tokens ++ [token].filter Token.isVisible) next := by
  intro _
  have inside : Category.ofKind token.kind ≠ .finish := by
    rcases follows with shifted | ⟨_, closing⟩
    · exact Category.ne_finish_of_shift shifted
    · simp [closing]
  have layer : Layer.Grouped ⟨token, none⟩ trees := ⟨by simp, left, follows⟩
  refine ⟨trees.push token, tracks, ⟨layer, grouped⟩, ?_, by simp⟩
  simp [Shape.tokens, Shape.gather_push, Token.isVisible_of_category_ne_finish inside]

/-- One token keeps what explains the parser, by induction over the reductions before it. -/
theorem explained_feed {tokens : List Token} {token : Token}
    (explained : parser.Explained scopes tokens (Category.ofKind token.kind))
    : (feed scopes parser token).Explained scopes tokens token := by
  fun_induction feed scopes parser token with
  | case1 parser skipped =>
      -- A line break is skipped only where no tree is on top.
      intro next sound
      obtain ⟨isBreak, expects⟩ : token.kind = .endOfLine ∧ parser.stack.expectsOperand = true := by
        simpa [skips] using skipped
      obtain ⟨trees, tracks, grouped, rfl, _⟩ := explained sound
      have free : trees.top? = none := by
        rw [tracks.expectsOperand] at expects
        simp_all
      exact ⟨trees, tracks, grouped, by simp [Token.isVisible, isBreak], by simp [free]⟩
  | case2 parser _ incoming ends =>
      refine ⟨ends.2, ?_, fun _ => ends.1⟩
      rw [← ends.2]
      exact explained
  | case3 parser _ incoming notBoth decision =>
      intro next sound
      obtain ⟨trees, tracks, grouped, rfl, left⟩ := explained sound
      have shifted : action trees.category (Category.ofKind token.kind) = .shift := by
        rw [← tracks.top]
        exact decision
      have notClose := Category.ne_closeParen_of_shift shifted
      exact explained_push (tracks.shift (by simp [notClose])) grouped left (.inl shifted) next
        sound
  | case4 parser _ incoming notBoth decision =>
      intro next sound
      obtain ⟨trees, tracks, grouped, rfl, left⟩ := explained sound
      obtain ⟨opens, closes⟩ := Category.eq_parens_of_equal decision notBoth
      rw [tracks.top] at opens
      exact explained_push (tracks.close opens closes) grouped left (.inr ⟨opens, closes⟩) next
        sound
  -- The token looks at the stack again after the reduction, which reads nothing.
  | case5 parser _ _ _ decision ih => exact ih (explained_reduce explained decision)
  -- The two ways to go on after a token that fits nowhere are both reported.
  | case6 parser _ incoming _ _ isEnd =>
      have errors : (parser.giveUp token).diagnostics.hasErrors = true :=
        hasErrors_report parser _ _
      refine ⟨isEnd, fun sound => ?_, fun sound => ?_⟩ <;> simp [errors] at sound
  | case7 parser _ incoming _ _ _ =>
      have errors : (parser.recover token).diagnostics.hasErrors = true :=
        hasErrors_report parser _ _
      intro next sound
      simp [errors] at sound

/-- A parse that ends without an error has one tree left. -/
theorem exists_tree_of_finish {tokens : List Token} {terminator : Token}
    (explained : parser.Explained scopes tokens .finish)
    (atBottom : parser.diagnostics.hasErrors = false → parser.stack.top = .finish)
    (sound : (parser.finish terminator).status.isSet = false)
    : ∃ tree : ExprTree, tokens = tree.tokens ∧ Stratum.relational.Derives tree
        ∧ Compiles scopes tree (parser.finish terminator).type (parser.finish terminator).code := by
  cases result : parser.stack.result? with
  | none =>
      have errors := hasErrors_report parser .expectedExpression terminator.location
      simp only [finish, result] at sound
      exact absurd errors (by simp [DiagnosticQueue.hasErrors, sound])
  | some operand =>
      have noErrors : parser.diagnostics.hasErrors = false := by
        simp only [finish, result] at sound
        exact sound
      -- The stack is at its bottom, so the tree above it is the only one.
      obtain ⟨⟨layers, base?⟩, tracks, grouped, rfl, derived⟩ := explained noErrors
      obtain rfl : layers = [] := grouped.layers_eq_nil (tracks.top ▸ atBottom noErrors)
      have left : base?.map (ExprTree.reduced scopes) = some operand := by
        rw [← result, tracks.stack]
        exact (Shape.result?_stack _).symm
      obtain ⟨tree, rfl, rfl⟩ := Option.map_eq_some_iff.mp left
      have noFailures : (tree.verdict scopes).failures = [] := by
        simpa [noErrors, Shape.failures, Shape.gather] using tracks.hasErrors_iff
      have code : parser.code = (tree.verdict scopes).code := by
        simpa [Shape.code, Shape.failures, Shape.gather, noFailures] using tracks.code
      refine ⟨tree, by simp [Shape.tokens, Shape.gather], derived tree rfl, ?_⟩
      obtain ⟨type, seen⟩ :=
        Option.isSome_iff_exists.mp (ExprTree.type?_isSome_of_failures_eq_nil noFailures)
      have typeLeft : (parser.finish terminator).type = type := by
        simp [finish, result, ExprTree.reduced, Verdict.operand, seen]
      have codeLeft : (parser.finish terminator).code = (tree.verdict scopes).code := by
        simp [finish, result, code]
      rw [ExprTree.compiles_iff, typeLeft, codeLeft, ← seen, ← noFailures]

/-- A parse without an error has read the tokens of a tree, by induction over the tokens. -/
theorem exists_tree_of_parseFrom {Source : Type} [TokenSource Source] {token : Token}
    {source rest : Source} {outcome : ExprOutcome} {tokens : List Token}
    (explained : ∀ next, parser.Explained scopes tokens next)
    (parsed : parseFrom scopes parser token source = (outcome, rest))
    (sound : outcome.status.isSet = false)
    : ∃ (read consumed : List Token) (terminator : Token) (tree : ExprTree),
        Reads source read rest
        ∧ token :: read = consumed ++ [terminator]
        ∧ outcome.terminator? = some terminator
        ∧ Category.ofKind terminator.kind = .finish
        ∧ tokens ++ consumed.filter Token.isVisible = tree.tokens
        ∧ Stratum.relational.Derives tree
        ∧ Compiles scopes tree outcome.type outcome.code := by
  fun_induction parseFrom scopes parser token source generalizing tokens with
  | case1 parser token source ended progress =>
      obtain ⟨rfl, rfl⟩ := Prod.mk.inj parsed
      have step := explained_feed (explained (Category.ofKind token.kind))
      rw [progress] at step
      obtain ⟨isEnd, explained, atBottom⟩ := step
      obtain ⟨tree, rfl, derived, compiles⟩ := exists_tree_of_finish explained atBottom sound
      exact ⟨[], [], token, tree, .nil, rfl, rfl, isEnd, by simp, derived, compiles⟩
  | case2 parser token source advanced progress error rest reading =>
      obtain ⟨rfl, rfl⟩ := Prod.mk.inj parsed
      simp [abort, FirstError.isSet] at sound
  | case3 parser token source advanced progress following rest reading ih =>
      have step := explained_feed (explained (Category.ofKind token.kind))
      rw [progress] at step
      obtain ⟨read, consumed, terminator, tree, reads, split, ends, isEnd, yield, derived,
        compiles⟩ := ih step parsed
      refine ⟨following :: read, token :: consumed, terminator, tree, .cons reading reads,
        by simp [split], ends, isEnd, ?_, derived, compiles⟩
      rw [← yield, List.append_assoc, ← List.filter_append, List.singleton_append]

/-- Before the first token there is nothing to explain. -/
theorem explained_start (scopes : ScopeStack) (next : Category)
    : ({} : Parser).Explained scopes [] next := by
  intro _
  refine ⟨{}, Tracks.start scopes, ?_, rfl, ?_⟩
  · rintro _ ⟨⟩
  · rintro _ ⟨⟩

end Parser

/-- If parsing an expression reports no error, it has read the tokens of a tree of the grammar,
with line breaks between them, up to a terminator. Its type and code are those that the typing
rules give to this tree.
-/
theorem parseExpression_sound {Source : Type} [TokenSource Source] {scopes : ScopeStack}
    {first : Token} {source rest : Source} {outcome : ExprOutcome}
    (parsed : parseExpression scopes first source = (outcome, rest))
    (sound : outcome.status.isSet = false)
    : ∃ (read consumed : List Token) (terminator : Token) (tree : ExprTree),
        Reads source read rest
        ∧ first :: read = consumed ++ [terminator]
        ∧ outcome.terminator? = some terminator
        ∧ Category.ofKind terminator.kind = .finish
        ∧ consumed.filter Token.isVisible = tree.tokens
        ∧ Stratum.relational.Derives tree
        ∧ Compiles scopes tree outcome.type outcome.code :=
  Parser.exists_tree_of_parseFrom (Parser.explained_start scopes) parsed sound

/-- The parse of `count ?? 1 + 2 * 3` with a line break after the first operator, where `count`
is an integer that may be nil.
-/
theorem parseExpression_sound_lineBreak
    : let token := Place.token {}
      let count : Symbol :=
        { name := "count", uid := 7, kind := .integer, nilable := true, initialized := true }
      let scopes : ScopeStack := ⟨[{ slots := #[.occupied count], count := 1 }]⟩
      let first := token (.identifier "count")
      let source := Lookahead.ofList
        [token (.operator .coalesce), token .endOfLine, token (.int 1),
          token (.operator .plus), token (.int 2), token (.operator .star), token (.int 3),
          token .endOfLine]
      let (outcome, rest) := parseExpression scopes first source
      outcome.status.isSet = false
        ∧ ∃ (read consumed : List Token) (terminator : Token) (tree : ExprTree),
            Reads source read rest
            ∧ first :: read = consumed ++ [terminator]
            ∧ outcome.terminator? = some terminator
            ∧ Category.ofKind terminator.kind = .finish
            ∧ consumed.filter Token.isVisible = tree.tokens
            ∧ Stratum.relational.Derives tree
            ∧ Compiles scopes tree outcome.type outcome.code := by
  intro token count scopes first source
  have sound : (parseExpression scopes first source).1.status.isSet = false := by
    decide +kernel
  exact ⟨sound, parseExpression_sound rfl sound⟩

end ExprCompiler

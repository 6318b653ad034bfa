import ExprCompiler.Proofs.Expression.Runs

/-! Where an expression ends. Main statement: the kinds of its tokens alone say which token ends
an expression, whatever is declared and whatever is wrong with it.
-/

namespace ExprCompiler

/-- Whether an expression goes on after a line break that follows tokens of some categories, the
latest first: there are none, the latest is an operator, or it is an opening parenthesis that does
not stand right after an operand.
-/
def goesOn : List Category → Bool
  | [] => true
  | last :: earlier =>
      last ∈ [.multiplicative, .additive, .coalesce, .relational]
        ∨ (last = .openParen
          ∧ ∀ previous ∈ earlier.head?, previous ∉ [.operand, .closeParen, .notNil])

/-- How many of the coming tokens belong to an expression that has tokens of the categories
`seen` so far: all before the first one that is no part of it and no line break to skip.
-/
def lengthFrom? (seen : List Category) : List TokenKind → Option Nat
  | [] => none
  | kind :: later =>
      if kind = .endOfLine ∧ goesOn seen then (lengthFrom? seen later).map (· + 1)
      else if Category.ofKind kind = .finish then some 0
      else (lengthFrom? (Category.ofKind kind :: seen) later).map (· + 1)

/-- How many tokens belong to the expression at the start of a list, the line breaks between them
included.
-/
def expressionLength? (kinds : List TokenKind) : Option Nat :=
  lengthFrom? [] kinds

/-- A token that can neither be part of an expression nor be skipped ends it, by induction on the
tokens.
-/
theorem isSome_lengthFrom? {kinds : List TokenKind}
    (ends : ∃ kind ∈ kinds, kind ≠ .endOfLine ∧ Category.ofKind kind = .finish)
    (seen : List Category)
    : (lengthFrom? seen kinds).isSome = true := by
  induction kinds generalizing seen with
  | nil => simp at ends
  | cons kind later ih =>
      rw [lengthFrom?]
      obtain ⟨ending, member, notBreak, isEnd⟩ := ends
      rcases List.mem_cons.mp member with rfl | isLater
      · rw [if_neg (by simp [notBreak]), if_pos isEnd]
        rfl
      · have laterEnds := ih ⟨ending, isLater, notBreak, isEnd⟩
        split
        · simpa using laterEnds seen
        · split
          · rfl
          · simpa using laterEnds _

namespace Category

theorem action_ne_error_of_isOperator (top : Category) {incoming : Category}
    (operator : incoming.isOperator = true)
    : action top incoming ≠ .error := by
  cases incoming <;> cases top <;> first | decide | cases operator

theorem isOperator_eq (category : Category)
    : category.isOperator
      = decide (category ∈ [multiplicative, additive, coalesce, relational]) := by
  cases category <;> rfl

theorem endsOperand_eq (category : Category)
    : category.endsOperand = decide (category ∈ [operand, closeParen, notNil]) := by
  cases category <;> rfl

/-- An opening parenthesis is never the reason to reduce. -/
theorem action_openParen (top : Category)
    : action top .openParen = if top.endsOperand then .error else .shift := by
  cases top <;> rfl

end Category

namespace Parser

variable (scopes : ScopeStack) {parser : Parser} {token : Token}

/-- The stack shows what the rule knows of the tokens so far: their latest category, and whether
a line break would be skipped.
-/
structure Follows (parser : Parser) (seen : List Category) : Prop where
  top : parser.stack.top = seen.head?.getD .finish
  expectsOperand : parser.stack.expectsOperand = goesOn seen

theorem follows_start : Follows {} [] :=
  ⟨rfl, rfl⟩

/-- A token of the expression other than an opening parenthesis is taken after all reductions that
it calls for, by induction over these.
-/
theorem exists_feed_of_inside (inside : Category.ofKind token.kind ≠ .finish)
    (notOpening : Category.ofKind token.kind ≠ .openParen)
    : ∃ advanced, feed scopes parser token = .more advanced
        ∧ advanced.stack.top = Category.ofKind token.kind
        ∧ advanced.stack.expectsOperand = (Category.ofKind token.kind).isOperator := by
  have endsOrOperates
      : (!(Category.ofKind token.kind).endsOperand) = (Category.ofKind token.kind).isOperator := by
    generalize Category.ofKind token.kind = category at inside notOpening
    cases category <;> first | rfl | contradiction
  fun_induction feed scopes parser token with
  | case1 parser skipped =>
      have isBreak : token.kind = .endOfLine := by
        simp only [skips, Bool.and_eq_true, decide_eq_true_eq] at skipped
        exact skipped.1
      exact absurd (by rw [isBreak]; rfl) inside
  | case2 parser _ incoming ends => exact absurd ends.2 inside
  | case3 parser _ incoming _ _ => exact ⟨_, rfl, rfl, endsOrOperates⟩
  | case4 parser _ incoming _ _ => exact ⟨_, rfl, rfl, endsOrOperates⟩
  | case5 parser _ incoming _ _ ih => exact ih
  | case6 parser _ incoming _ _ isEnd => exact absurd isEnd inside
  | case7 parser _ incoming _ decision _ =>
      refine ⟨_, rfl, rfl, ?_⟩
      cases operator : (Category.ofKind token.kind).isOperator with
      | false => rfl
      | true => exact absurd decision (Category.action_ne_error_of_isOperator _ operator)

/-- An opening parenthesis is taken at once. Where an operand stands before it, it is reported and
an operand is made up after it.
-/
theorem exists_feed_of_opening (opening : Category.ofKind token.kind = .openParen)
    : ∃ advanced, feed scopes parser token = .more advanced
        ∧ advanced.stack.top = .openParen
        ∧ advanced.stack.expectsOperand = !parser.stack.top.endsOperand := by
  have inside : Category.ofKind token.kind ≠ .finish := by simp [opening]
  have notBreak : token.kind ≠ .endOfLine := by
    intro isBreak
    rw [isBreak] at opening
    cases opening
  rw [feed_eq_act notBreak (by simp [inside]), opening, Category.action_openParen]
  cases parser.stack.top.endsOperand with
  | true =>
      rw [if_pos rfl, act, if_neg inside]
      exact ⟨_, rfl, opening, rfl⟩
  | false => exact ⟨_, rfl, opening, congrArg (!Category.endsOperand ·) opening⟩

/-- A token of the expression is taken, and the parser goes on following the rule. -/
theorem Follows.exists_feed {seen : List Category} (follows : parser.Follows seen)
    (inside : Category.ofKind token.kind ≠ .finish)
    : ∃ advanced, feed scopes parser token = .more advanced
        ∧ advanced.Follows (Category.ofKind token.kind :: seen) := by
  by_cases opening : Category.ofKind token.kind = .openParen
  · obtain ⟨advanced, taken, top, expects⟩ := exists_feed_of_opening scopes opening
    refine ⟨advanced, taken, top.trans opening.symm, ?_⟩
    rw [expects, follows.top, goesOn, opening]
    cases seen <;> simp [Category.endsOperand_eq]
  · obtain ⟨advanced, taken, top, expects⟩ :=
      exists_feed_of_inside scopes inside opening
    refine ⟨advanced, taken, top, ?_⟩
    simp [expects, goesOn, opening, Category.isOperator_eq]

/-- A token that is no part of the expression and is not skipped ends it: after a reduction the
stack has an operand on top, so that the token is not skipped later. By induction over the
reductions.
-/
theorem exists_feed_of_finish (isEnd : Category.ofKind token.kind = .finish)
    (notSkipped : parser.skips token = false)
    : ∃ ended, feed scopes parser token = .done ended := by
  fun_induction feed scopes parser token with
  | case1 parser skipped => simp [notSkipped] at skipped
  | case2 parser _ _ => exact ⟨_, rfl⟩
  | case3 parser _ incoming _ decision =>
      exact absurd isEnd (Category.ne_finish_of_shift decision)
  | case4 parser _ incoming notBoth decision =>
      have closing := (Category.eq_parens_of_equal decision notBoth).2
      exact absurd (isEnd.symm.trans closing) (by decide)
  | case5 parser _ incoming _ _ ih =>
      apply ih
      simp [skips, reduce, ParseStack.expectsOperand, ParseStack.pushReduced]
  | case6 parser _ incoming _ _ _ => exact ⟨_, rfl⟩
  | case7 parser _ incoming _ _ notFinish => exact absurd isEnd notFinish

/-- The parser does with one token what the rule says: the token ends the expression, or it is
taken and the rule goes on with the tokens after it.
-/
theorem Follows.feed {seen : List Category} (follows : parser.Follows seen)
    {later : List TokenKind} {length : Nat}
    (ends : lengthFrom? seen (token.kind :: later) = some length)
    : (length = 0 ∧ ∃ ended, Parser.feed scopes parser token = .done ended)
      ∨ ∃ next nextSeen nextLength, Parser.feed scopes parser token = .more next
          ∧ next.Follows nextSeen ∧ lengthFrom? nextSeen later = some nextLength
          ∧ length = nextLength + 1 := by
  have skips_iff : parser.skips token = true ↔ token.kind = .endOfLine ∧ goesOn seen = true := by
    simp [skips, follows.expectsOperand]
  rw [lengthFrom?] at ends
  split at ends
  · next skipped =>
      obtain ⟨nextLength, nextEnds, rfl⟩ := Option.map_eq_some_iff.mp ends
      refine .inr ⟨parser, seen, nextLength, ?_, follows, nextEnds, rfl⟩
      rw [Parser.feed, if_pos (skips_iff.mpr skipped)]
  · next notSkipped =>
      split at ends
      · next isEnd =>
          refine .inl ⟨(Option.some.inj ends).symm, ?_⟩
          exact exists_feed_of_finish scopes isEnd
            (Bool.eq_false_iff.mpr (mt skips_iff.mp notSkipped))
      · next inside =>
          obtain ⟨nextLength, nextEnds, rfl⟩ := Option.map_eq_some_iff.mp ends
          obtain ⟨next, taken, nextFollows⟩ := follows.exists_feed scopes inside
          exact .inr ⟨next, _, nextLength, taken, nextFollows, nextEnds, rfl⟩

/-- The parser takes the tokens that the rule counts to the expression, and the next one ends it.
By induction on the tokens.
-/
theorem Follows.exists_consumes {seen : List Category} (follows : parser.Follows seen)
    {tokens : List Token} {length : Nat}
    (ends : lengthFrom? seen (tokens.map Token.kind) = some length)
    : ∃ consumed terminator later advanced ended,
        tokens = consumed ++ terminator :: later ∧ consumed.length = length
        ∧ Consumes scopes parser consumed advanced
        ∧ Parser.feed scopes advanced terminator = .done ended := by
  induction tokens generalizing parser seen length with
  | nil => cases ends
  | cons token tokens ih =>
      rcases follows.feed scopes ends
        with ⟨rfl, ended, done⟩ | ⟨next, nextSeen, nextLength, taken, nextFollows, nextEnds, rfl⟩
      · exact ⟨[], token, tokens, parser, ended, rfl, rfl, .nil, done⟩
      · obtain ⟨consumed, terminator, later, advanced, ended, rfl, rfl, run, done⟩ :=
          ih nextFollows nextEnds
        exact ⟨token :: consumed, terminator, later, advanced, ended, rfl, rfl,
          .cons taken run, done⟩

end Parser

/-- What a source still gives after some of its tokens, by induction on these. -/
theorem Reads.split {Source : Type} [TokenSource Source] {source rest : Source}
    {front back : List Token} (reads : Reads source (front ++ back) rest)
    : ∃ middle, Reads source front middle ∧ Reads middle back rest := by
  induction front generalizing source with
  | nil => exact ⟨source, .nil, reads⟩
  | cons token front ih =>
      cases reads with
      | cons reading following =>
          obtain ⟨middle, first, second⟩ := ih following
          exact ⟨middle, .cons reading first, second⟩

end ExprCompiler

import ExprCompiler.Proofs.Expression.CodeSafety
import ExprCompiler.Proofs.Expression.Runs
import ExprCompiler.Proofs.Expression.StackOrder

/-! The parse stack in the course of a parse. Main statement: whenever a parse looks at a token, of
whatever tokens and after whatever errors, its stack is in order. A reduction finds the start of
its handle and takes a token off, and where the end of the expression meets the bottom, at most one
operand is left.
-/

namespace ExprCompiler

namespace Category

/-- Nothing is shifted onto a token that ends an operand, by the table. -/
theorem endsOperand_eq_false_of_shift {below incoming : Category}
    (shifts : action below incoming = .shift)
    : below.endsOperand = false := by
  revert shifts
  cases below <;> cases incoming <;> decide

/-- Nothing is reduced before a token that starts an operand, by the table. -/
theorem startsOperand_eq_false_of_reduce {top incoming : Category}
    (reduces : action top incoming = .reduce)
    : incoming.startsOperand = false := by
  revert reduces
  cases top <;> cases incoming <;> decide

end Category

namespace Shape

variable {shape : Shape Reduced}

/-- Every operand has its place: nothing stands above a token that ends an operand, and no operand
stands right under a token that starts one. This is kept up to the first error.
-/
inductive Spaced : Shape Reduced → Prop
  | bottom (base? : Option Reduced)
    : Spaced ⟨[], base?⟩
  | push {below : Shape Reduced} {token : Token} {operand? : Option Reduced}
    (spaced : Spaced below) (opens : below.category.endsOperand = false)
    (starts : (Category.ofKind token.kind).startsOperand = true → below.top? = none)
    (ends : (Category.ofKind token.kind).endsOperand = true → operand? = none)
    : Spaced ((below.push token).setTop operand?)

theorem length_operandItems_le (operand? : Option Reduced)
    : (operandItems operand?).length ≤ 1 := by
  cases operand? <;> simp [operandItems]

theorem Spaced.setTop (spaced : shape.Spaced) {operand? : Option Reduced}
    (ends : shape.category.endsOperand = true → operand? = none)
    : (shape.setTop operand?).Spaced := by
  cases spaced with
  | bottom base? => exact .bottom operand?
  | push spaced opens starts _ =>
      rw [setTop_setTop]
      exact .push spaced opens starts (by simpa using ends)

/-- A handle of operands in their places has at most three items. By cases on whether it is a pair
of parentheses, which has no operand on either side.
-/
theorem Spaced.cut (spaced : shape.Spaced) (notBottom : shape.category ≠ .finish)
    : shape.cut.1.length ≤ 3 ∧ shape.cut.2.Spaced
      ∧ shape.cut.2.category.endsOperand = false := by
  have leaves {below : Shape Reduced} (spaced : below.Spaced)
      (opens : below.category.endsOperand = false) (handle : List StackItem)
      : (below.cutUnder handle).2.Spaced
        ∧ (below.cutUnder handle).2.category.endsOperand = false :=
    ⟨spaced.setTop fun _ => rfl, by simpa [cutUnder] using opens⟩
  cases spaced with
  | bottom base? => exact absurd rfl notBottom
  | @push below closing outer? spaced opens _ ends =>
      by_cases pair
          : below.category = .openParen ∧ Category.ofKind closing.kind = .closeParen
      · cases spaced with
        | bottom base? => cases pair.1
        | @push below opening inner? spaced opensBelow starts _ =>
            have isOpening : Category.ofKind opening.kind = .openParen := by simpa using pair.1
            have noLeft : below.top? = none := starts (by rw [isOpening]; rfl)
            have noRight : outer? = none := ends (by rw [pair.2]; rfl)
            have inner := length_operandItems_le inner?
            rw [cut_push_push (by simp [isPair, isOpening, pair.2])]
            refine ⟨?_, leaves spaced opensBelow _⟩
            simp only [cutUnder, noLeft, noRight, Layer.handle, operandItems_none, List.nil_append,
              List.length_append, List.length_cons, List.length_nil]
            omega
      · have left := length_operandItems_le below.top?
        have right := length_operandItems_le outer?
        rw [cut_push pair]
        refine ⟨?_, leaves spaced opens _⟩
        simp only [cutUnder, Layer.handle, List.length_append, List.length_cons]
        omega

end Shape

/-- A check that passes by its ruling gives a sound operand. -/
theorem Ruling.sound_of_checked {ruling : Ruling} {checked : Checked}
    (passed : ruling.checked = .ok checked)
    : checked.operand.poisoned = false := by
  cases ruling with
  | error fault => cases passed
  | ok rule =>
      cases passed
      rfl

/-- A check without a problem has passed. -/
theorem Reduction.exists_of_ofCheck {location : Location} {check : Except TypeFault Checked}
    (noProblem : (ofCheck location check).problem? = none)
    : ∃ checked, check = .ok checked ∧ (ofCheck location check).operand = checked.operand := by
  cases check with
  | error fault => cases noProblem
  | ok checked => exact ⟨checked, rfl, rfl⟩

/-- Sound operands reduce to a sound one unless there is a problem, by the form of the handle. -/
theorem Reduction.sound_ofHandle {scopes : ScopeStack} {handle : List StackItem}
    (sound : ∀ operand ∈ handle.filterMap StackItem.operand?, operand.poisoned = false)
    (noProblem : (ofHandle scopes handle).problem? = none)
    : (ofHandle scopes handle).operand.poisoned = false := by
  have uses := Production.uses_ofHandle handle
  unfold ofHandle at noProblem ⊢
  cases form : Production.ofHandle handle with simp only [form] at noProblem uses ⊢
  | primary value location =>
      obtain ⟨checked, passed, same⟩ := exists_of_ofCheck noProblem
      rw [checkPrimary_eq] at passed
      rw [same]
      cases ruled : value.ruling scopes with
      | error fault => simp [ruled, Except.map] at passed
      | ok rule =>
          rw [ruled] at passed
          cases passed
          rfl
  | notNil operand location =>
      obtain ⟨checked, passed, same⟩ := exists_of_ofCheck noProblem
      rw [checkNotNil_eq (sound operand (by simp [uses.1]))] at passed
      rw [same]
      exact Ruling.sound_of_checked passed
  | parens inner => exact sound inner (by simp [show _ = [inner] from uses])
  | binary op left right location =>
      have operands : handle.filterMap StackItem.operand? = [left, right] := uses
      obtain ⟨checked, passed, same⟩ := exists_of_ofCheck noProblem
      rw [checkBinary_eq (sound left (by simp [operands])) (sound right (by simp [operands]))]
        at passed
      rw [same]
      exact Ruling.sound_of_checked passed
  | malformed fault =>
      have notPoisoned : isPoisoned handle = false := by
        rw [isPoisoned_eq, List.any_eq_false]
        simpa using sound
      simp [notPoisoned] at noProblem

-----------------------------------------------------------------------------------------
-- What every step keeps
-----------------------------------------------------------------------------------------

namespace Parser

variable {scopes : ScopeStack} {taken : List Token} {parser : Parser} {token : Token}
  {shape : Shape Reduced}

/-- What holds of a parser that has taken some tokens, by the shape of its stack. -/
structure Shaped (taken : List Token) (parser : Parser) (shape : Shape Reduced) : Prop where
  stack : parser.stack = shape.stack
  inside
    : ∀ token ∈ parser.stack.items.filterMap StackItem.token?,
        Category.ofKind token.kind ≠ .finish
  spaced : parser.diagnostics.hasErrors = false → shape.Spaced
  sound
    : parser.diagnostics.hasErrors = false →
        ∀ operand ∈ parser.stack.items.filterMap StackItem.operand?, operand.poisoned = false
  empty_iff : parser.stack.items = [] ↔ ∀ token ∈ taken, token.kind = .endOfLine

namespace Shaped

theorem start : Shaped [] {} {} where
  stack := rfl
  inside := fun _ member => absurd member List.not_mem_nil
  spaced := fun _ => .bottom none
  sound := fun _ _ member => absurd member List.not_mem_nil
  empty_iff := by simp

theorem top (shaped : parser.Shaped taken shape) : parser.stack.top = shape.category := by
  rw [shaped.stack, Shape.top_stack]

/-- A stack with a token goes back to a token that was no line break. -/
theorem not_all_endOfLine (shaped : parser.Shaped taken shape)
    (notBottom : shape.category ≠ .finish)
    : ¬∀ token ∈ taken, token.kind = .endOfLine := by
  intro allBreaks
  apply notBottom
  rw [← shaped.top, ParseStack.top, shaped.empty_iff.mpr allBreaks]
  rfl

/-- After one more token that is part of the expression, not all are line breaks. -/
theorem not_all_endOfLine_append (inside : Category.ofKind token.kind ≠ .finish)
    : ¬∀ other ∈ taken ++ [token], other.kind = .endOfLine := by
  intro allBreaks
  have isBreak := allBreaks token (by simp)
  exact inside (by rw [isBreak]; rfl)

theorem reduce (shaped : parser.Shaped taken shape) (notBottom : shape.category ≠ .finish)
    : (parser.reduce scopes).Shaped taken
        (shape.cut.2.setTop (some (Reduction.ofHandle scopes shape.cut.1).operand)) := by
  have pops : parser.stack.popHandle = (shape.cut.1, shape.cut.2.stack) := by
    rw [shaped.stack, Shape.popHandle_stack notBottom]
  refine ⟨?_, ?_, ?_, ?_, ?_⟩
  · rw [← Shape.stack_pushReduced (Shape.top?_cut notBottom)]
    simp only [Parser.reduce, pops]
  · intro token onStack
    apply shaped.inside token
    rw [← tokens_popHandle]
    exact List.mem_append_right _ onStack
  · intro noErrors
    obtain ⟨_, spaced, opens⟩ := (shaped.spaced (sound_of_reduce noErrors).2).cut notBottom
    exact spaced.setTop (by simp [opens])
  · intro noErrors
    obtain ⟨noProblem, noneBefore⟩ := sound_of_reduce noErrors
    have sound := shaped.sound noneBefore
    rw [← operands_popHandle, List.forall_mem_append] at sound
    have handleSound := fun operand inHandle => sound.1 operand (List.mem_reverse.mpr inHandle)
    exact List.forall_mem_cons.mpr ⟨Reduction.sound_ofHandle handleSound noProblem, sound.2⟩
  · exact iff_of_false (List.cons_ne_nil _ _) (shaped.not_all_endOfLine notBottom)

theorem inside_pushToken (shaped : parser.Shaped taken shape) {stack : ParseStack}
    (sameTokens
      : stack.items.filterMap StackItem.token? = parser.stack.items.filterMap StackItem.token?)
    (inside : Category.ofKind token.kind ≠ .finish)
    : ∀ other ∈ (stack.pushToken token).items.filterMap StackItem.token?,
        Category.ofKind other.kind ≠ .finish := by
  have onStack : (stack.pushToken token).items.filterMap StackItem.token?
      = token :: parser.stack.items.filterMap StackItem.token? := by
    rw [← sameTokens]
    rfl
  rw [onStack]
  exact List.forall_mem_cons.mpr ⟨inside, shaped.inside⟩

/-- A token that is part of the expression goes on top, whether or not it starts a handle. -/
theorem pushToken (shaped : parser.Shaped taken shape) {stack : ParseStack}
    (sameOperands
      : stack.items.filterMap StackItem.operand?
        = parser.stack.items.filterMap StackItem.operand?)
    (sameTokens
      : stack.items.filterMap StackItem.token? = parser.stack.items.filterMap StackItem.token?)
    (pushed : stack.pushToken token = (shape.push token).stack)
    (inside : Category.ofKind token.kind ≠ .finish)
    (spaced : parser.diagnostics.hasErrors = false → (shape.push token).Spaced)
    : Shaped (taken ++ [token]) { parser with stack := stack.pushToken token }
        (shape.push token) where
  stack := pushed
  inside := shaped.inside_pushToken sameTokens inside
  spaced := spaced
  sound := fun noErrors operand onStack =>
    shaped.sound noErrors operand (sameOperands ▸ onStack)
  empty_iff := iff_of_false (List.cons_ne_nil _ _) (not_all_endOfLine_append inside)

theorem shift (shaped : parser.Shaped taken shape)
    (shifts : action shape.category (Category.ofKind token.kind) = .shift)
    (fresh : parser.diagnostics.hasErrors = false →
      (Category.ofKind token.kind).startsOperand = true → shape.top? = none)
    : Shaped (taken ++ [token]) { parser with stack := parser.stack.mark.pushToken token }
        (shape.push token) := by
  have notClose := Category.ne_closeParen_of_shift shifts
  refine shaped.pushToken (filterMap_mark (fun _ _ => rfl) _) (filterMap_mark (fun _ _ => rfl) _)
    ?_ (Category.ne_finish_of_shift shifts) ?_
  · rw [shaped.stack, Shape.stack_mark_pushToken (by simp [notClose])]
  · intro noErrors
    exact .push (shaped.spaced noErrors) (Category.endsOperand_eq_false_of_shift shifts)
      (fresh noErrors) fun _ => rfl

/-- A closing parenthesis goes on top of an opening one. -/
theorem close (shaped : parser.Shaped taken shape) (opening : shape.category = .openParen)
    (closing : Category.ofKind token.kind = .closeParen)
    : Shaped (taken ++ [token]) { parser with stack := parser.stack.pushToken token }
        (shape.push token) := by
  refine shaped.pushToken rfl rfl ?_ (by simp [closing]) ?_
  · rw [shaped.stack, Shape.stack_pushToken opening closing]
  · intro noErrors
    exact .push (shaped.spaced noErrors) (by rw [opening]; rfl)
      (by simp [closing, Category.startsOperand]) fun _ => rfl

theorem recover (shaped : parser.Shaped taken shape)
    (inside : Category.ofKind token.kind ≠ .finish)
    (refused : action shape.category (Category.ofKind token.kind) = .error)
    : (parser.recover token).Shaped (taken ++ [token])
        ((shape.push token).setTop (some .placeholder)) := by
  have notPair : ¬(shape.category = .openParen ∧ Category.ofKind token.kind = .closeParen) := by
    rintro ⟨opening, closing⟩
    rw [opening, closing] at refused
    cases refused
  have errors : (parser.recover token).diagnostics.hasErrors = true := hasErrors_report _ _ _
  refine ⟨?_, ?_, by simp [errors], by simp [errors], ?_⟩
  · rw [← Shape.stack_pushReduced rfl, ← Shape.stack_mark_pushToken notPair, ← shaped.stack]
    rfl
  · exact shaped.inside_pushToken (filterMap_mark (fun _ _ => rfl) parser.stack) inside
  · exact iff_of_false (List.cons_ne_nil _ _) (not_all_endOfLine_append inside)

theorem giveUp (shaped : parser.Shaped taken shape) (notBottom : shape.category ≠ .finish)
    : (parser.giveUp token).Shaped taken ⟨[], some .placeholder⟩ := by
  have errors : (parser.giveUp token).diagnostics.hasErrors = true := hasErrors_report _ _ _
  exact ⟨rfl, fun _ member => absurd member List.not_mem_nil, by simp [errors],
    by simp [errors], iff_of_false (List.cons_ne_nil _ _) (shaped.not_all_endOfLine notBottom)⟩

/-- Skipping a line break changes nothing. -/
theorem skip (shaped : parser.Shaped taken shape) (isBreak : token.kind = .endOfLine)
    : parser.Shaped (taken ++ [token]) shape where
  stack := shaped.stack
  inside := shaped.inside
  spaced := shaped.spaced
  sound := shaped.sound
  empty_iff := by simp [shaped.empty_iff, isBreak, or_imp, forall_and]

end Shaped

/-- The parser looks at a token after it has taken some. Up to the first error, a token that starts
an operand finds none on top of the stack.
-/
def ReadyFor (taken : List Token) (parser : Parser) (token : Token) : Prop :=
  ∃ shape, parser.Shaped taken shape
    ∧ (parser.diagnostics.hasErrors = false →
        (Category.ofKind token.kind).startsOperand = true → shape.top? = none)

/-- After a token the parser is ready for any other; if the token is the last one, it is not
taken.
-/
def Progress.Shaped (taken : List Token) (token : Token) : Progress → Prop
  | .more advanced => ∀ following, advanced.ReadyFor (taken ++ [token]) following
  | .done ended => ∃ shape, ended.Shaped taken shape

theorem ReadyFor.reduce (ready : parser.ReadyFor taken token)
    (reduces : action parser.stack.top (Category.ofKind token.kind) = .reduce)
    : (parser.reduce scopes).ReadyFor taken token := by
  obtain ⟨shape, shaped, _⟩ := ready
  rw [shaped.top] at reduces
  refine ⟨_, shaped.reduce (top_ne_finish_of_reduce reduces), ?_⟩
  simp [Category.startsOperand_eq_false_of_reduce reduces]

/-- Taking a token keeps the parser in shape, by induction over the reductions before it. -/
theorem ReadyFor.feed (ready : parser.ReadyFor taken token)
    : (Parser.feed scopes parser token).Shaped taken token := by
  fun_induction Parser.feed scopes parser token with
  | case1 parser skipped =>
      obtain ⟨shape, shaped, _⟩ := ready
      obtain ⟨isBreak, expects⟩ : token.kind = .endOfLine ∧ parser.stack.expectsOperand = true := by
        simpa [skips] using skipped
      rw [shaped.stack, Shape.expectsOperand_stack] at expects
      have free : shape.top? = none :=
        Option.isNone_iff_eq_none.mp (Bool.and_eq_true_iff.mp expects).1
      intro following
      exact ⟨shape, shaped.skip isBreak, fun _ _ => free⟩
  | case2 parser _ _ _ =>
      obtain ⟨shape, shaped, _⟩ := ready
      exact ⟨shape, shaped⟩
  | case3 parser _ incoming _ shifts =>
      obtain ⟨shape, shaped, fresh⟩ := ready
      intro following
      exact ⟨_, shaped.shift (shaped.top ▸ shifts) fresh, fun _ _ => rfl⟩
  | case4 parser _ incoming notBoth continues =>
      obtain ⟨shape, shaped, _⟩ := ready
      obtain ⟨opening, closing⟩ := Category.eq_parens_of_equal continues notBoth
      intro following
      exact ⟨_, shaped.close (shaped.top ▸ opening) closing, fun _ _ => rfl⟩
  | case5 parser _ incoming _ reduces ih => exact ih (ready.reduce reduces)
  | case6 parser _ incoming notBoth refused isEnd =>
      obtain ⟨shape, shaped, _⟩ := ready
      refine ⟨_, shaped.giveUp fun isBottom => notBoth ⟨?_, isEnd⟩⟩
      rw [shaped.top, isBottom]
  | case7 parser _ incoming _ refused inside =>
      obtain ⟨shape, shaped, _⟩ := ready
      intro following
      refine ⟨_, shaped.recover inside (shaped.top ▸ refused), ?_⟩
      intro noErrors
      have errors : (parser.recover token).diagnostics.hasErrors = true := hasErrors_report _ _ _
      simp [errors] at noErrors

-----------------------------------------------------------------------------------------
-- A whole parse
-----------------------------------------------------------------------------------------

/-- What holds of the stack of a parser that has taken some tokens. Its entries are in order, an
operand that was wrong has been reported, and nothing is on it exactly if only line breaks were
taken.
-/
structure InOrder (taken : List Token) (parser : Parser) : Prop where
  ordered : parser.stack.Ordered
  reported
    : ∀ operand ∈ parser.stack.items.filterMap StackItem.operand?,
        operand.poisoned = true → parser.diagnostics.hasErrors = true
  empty_iff : parser.stack.items = [] ↔ ∀ token ∈ taken, token.kind = .endOfLine

theorem Shaped.inOrder (shaped : parser.Shaped taken shape) : parser.InOrder taken where
  ordered := by
    have inside := shaped.inside
    rw [shaped.stack] at inside ⊢
    exact Shape.ordered_stack inside
  reported := by
    intro operand onStack poisoned
    by_contra noErrors
    simp [shaped.sound (by simpa using noErrors) operand onStack] at poisoned
  empty_iff := shaped.empty_iff

/-- The parse of an expression comes to look at a token, with what is left of the source after it:
first at the token that it starts with, then again at the same one after each reduction, and at the
next one when the last has been taken.
-/
inductive LooksAt {Source : Type} [TokenSource Source] (scopes : ScopeStack) (first : Token)
    (source : Source)
    : List Token → Parser → Token → Source → Prop
  | start
    : LooksAt scopes first source [] {} first source
  | again {taken : List Token} {parser : Parser} {token : Token} {rest : Source}
    (looks : LooksAt scopes first source taken parser token rest)
    (moves : ¬parser.skips token = true)
    (reduces : action parser.stack.top (Category.ofKind token.kind) = .reduce)
    : LooksAt scopes first source taken (parser.reduce scopes) token rest
  | next {taken : List Token} {parser advanced : Parser} {token following : Token}
    {rest later : Source} (looks : LooksAt scopes first source taken parser token rest)
    (takes : feed scopes parser token = .more advanced)
    (reading : TokenSource.next rest = (.ok following, later))
    : LooksAt scopes first source (taken ++ [token]) advanced following later

/-- What the parse does with the token that it looks at. It goes on from here, the stack is in order
and stays so. If it reduces, the handle has a marked start that stays, holds a token and, before the
first error, at most three items. Where the end meets the bottom, one operand is left, or nothing if
there were only line breaks.
-/
structure KeepsOrder {Source : Type} [TokenSource Source] (scopes : ScopeStack) (first : Token)
    (source : Source) (taken : List Token) (parser : Parser) (token : Token) (rest : Source)
    : Prop where
  onTheWay : parseExpression scopes first source = parseFrom scopes parser token rest
  before : parser.InOrder taken
  afterMore : ∀ advanced, feed scopes parser token = .more advanced →
    advanced.InOrder (taken ++ [token])
  afterDone : ∀ ended, feed scopes parser token = .done ended → ended.InOrder taken
  reduces : action parser.stack.top (Category.ofKind token.kind) = .reduce →
    ∃ above start below, parser.stack.IsHandle above start below
      ∧ (parser.reduce scopes).stack.entries
        = .operand (Reduction.ofHandle scopes above.reverse).operand :: start.unmark :: below
      ∧ (parser.diagnostics.hasErrors = false → above.length ≤ 3)
  meets : parser.stack.top = .finish → Category.ofKind token.kind = .finish →
    (∀ token ∈ taken, token.kind = .endOfLine) ∧ parser.stack.items = []
    ∨ (∃ token ∈ taken, token.kind ≠ .endOfLine)
      ∧ ∃ operand, parser.stack.items = [.reduced operand]

/-- A reduction puts an operand in the place of a handle, which has at most three items before the
first error.
-/
theorem Shaped.exists_isHandle (shaped : parser.Shaped taken shape) (scopes : ScopeStack)
    (notBottom : parser.stack.top ≠ .finish)
    : ∃ above start below, parser.stack.IsHandle above start below
        ∧ (parser.reduce scopes).stack.entries
          = .operand (Reduction.ofHandle scopes above.reverse).operand :: start.unmark :: below
        ∧ (parser.diagnostics.hasErrors = false → above.length ≤ 3) := by
  obtain ⟨above, start, below, handle⟩ := shaped.inOrder.ordered.exists_isHandle notBottom
  refine ⟨above, start, below, handle, ?_, ?_⟩
  · rw [← handle.pops, ← handle.leaves]
    rfl
  · intro noErrors
    have atMost := ((shaped.spaced noErrors).cut (shaped.top ▸ notBottom)).1
    have pops : shape.cut.1 = above.reverse := by
      rw [← handle.pops, shaped.stack, Shape.popHandle_stack (shaped.top ▸ notBottom)]
    rwa [pops, List.length_reverse] at atMost

/-- Without a token on the stack, what is left says whether there was an expression. -/
theorem InOrder.items_of_top_finish (inOrder : parser.InOrder taken)
    (noToken : parser.stack.top = .finish)
    : (∀ token ∈ taken, token.kind = .endOfLine) ∧ parser.stack.items = []
      ∨ (∃ token ∈ taken, token.kind ≠ .endOfLine)
        ∧ ∃ operand, parser.stack.items = [.reduced operand] := by
  by_cases allBreaks : ∀ token ∈ taken, token.kind = .endOfLine
  · exact .inl ⟨allBreaks, inOrder.empty_iff.mpr allBreaks⟩
  · have notEmpty : parser.stack.items ≠ [] := fun empty =>
      allBreaks (inOrder.empty_iff.mp empty)
    have single := (inOrder.ordered.items_of_top_finish noToken).resolve_left notEmpty
    exact .inr ⟨by simpa using allBreaks, single⟩

section WholeParse

variable {Source : Type} [TokenSource Source] {first : Token} {source rest : Source}

/-- A parse depends on what comes of the token only. -/
theorem parseFrom_congr {other : Parser}
    (same : feed scopes parser token = feed scopes other token) (source : Source)
    : parseFrom scopes parser token source = parseFrom scopes other token source := by
  cases progress : feed scopes other token with
  | done ended =>
      rw [parseFrom_of_done progress, parseFrom_of_done (same.trans progress)]
  | more advanced =>
      rcases reading : TokenSource.next source with ⟨error | following, later⟩
      · rw [parseFrom_of_error progress reading,
          parseFrom_of_error (same.trans progress) reading]
      · rw [parseFrom_of_more progress reading, parseFrom_of_more (same.trans progress) reading]

/-- Whatever a parse looks at, it goes on from there, by induction on what it looked at. -/
theorem LooksAt.parseExpression_eq (looks : LooksAt scopes first source taken parser token rest)
    : parseExpression scopes first source = parseFrom scopes parser token rest := by
  induction looks with
  | start => rfl
  | @again taken parser token rest _ moves reduces ih =>
      have sameFeed : feed scopes parser token = feed scopes (parser.reduce scopes) token :=
        feed_eq_act_of_moves moves (by simp [top_ne_finish_of_reduce reduces]) reduces
      exact ih.trans (parseFrom_congr sameFeed rest)
  | next _ takes reading ih => rw [ih, parseFrom_of_more takes reading]

/-- Whatever a parse looks at, it is ready for, by induction on what it looked at. -/
theorem LooksAt.readyFor (looks : LooksAt scopes first source taken parser token rest)
    : parser.ReadyFor taken token := by
  induction looks with
  | start => exact ⟨{}, .start, fun _ _ => rfl⟩
  | again _ _ reduces ih => exact ih.reduce reduces
  | @next taken parser advanced token following rest later _ takes _ ih =>
      have shaped : (feed scopes parser token).Shaped taken token := ih.feed
      rw [takes] at shaped
      exact shaped following

/-- Whenever a parse looks at a token, its stack is in order and stays so. -/
theorem LooksAt.keepsOrder (looks : LooksAt scopes first source taken parser token rest)
    : KeepsOrder scopes first source taken parser token rest := by
  have ready := looks.readyFor
  have progress : (feed scopes parser token).Shaped taken token := ready.feed
  obtain ⟨shape, shaped, _⟩ := ready
  refine ⟨looks.parseExpression_eq, shaped.inOrder, ?_, ?_, ?_, ?_⟩
  · intro advanced takes
    rw [takes] at progress
    obtain ⟨_, shaped, _⟩ := progress token
    exact shaped.inOrder
  · intro ended ends
    rw [ends] at progress
    obtain ⟨_, shaped⟩ := progress
    exact shaped.inOrder
  · intro reduces
    exact shaped.exists_isHandle scopes (top_ne_finish_of_reduce reduces)
  · intro noToken _
    exact shaped.inOrder.items_of_top_finish noToken

end WholeParse

/-- After an operand, an opening parenthesis that cannot stand there, and a closing one, the stack
is in order before the end of file.
-/
theorem LooksAt.keepsOrder_after_misplacedParen
    : let one : Token := { kind := .int 1, location := ⟨1, 1⟩ }
      let opening : Token := { kind := .operator .openParen, location := ⟨1, 3⟩ }
      let closing : Token := { kind := .operator .closeParen, location := ⟨1, 4⟩ }
      let ending : Token := { kind := .endOfFile, location := ⟨1, 5⟩ }
      let shifted : Parser := { stack := ({} : ParseStack).mark.pushToken one }
      let recovered : Parser := shifted.recover opening
      let closed : Parser := { recovered with stack := recovered.stack.pushToken closing }
      KeepsOrder {} one (Lookahead.ofList [opening, closing, ending]) [one, opening, closing]
        closed ending ⟨[], ending.location⟩ := by
  intro one opening closing ending shifted recovered closed
  let source : Lookahead := .ofList [opening, closing, ending]
  have atOpening
      : LooksAt {} one source [one] shifted opening ⟨[closing, ending], opening.location⟩ :=
    .next .start (by decide +kernel) rfl
  have atClosing
      : LooksAt {} one source [one, opening] recovered closing ⟨[ending], closing.location⟩ :=
    .next atOpening (by decide +kernel) rfl
  exact keepsOrder (.next atClosing (by decide +kernel) rfl)

end Parser

end ExprCompiler

import ExprCompiler.Proofs.Expression.Binding
import ExprCompiler.Proofs.Expression.Errors
import ExprCompiler.Proofs.Expression.PartialTrees

/-! Stacks of trees that the grammar can still complete. Every operand on such a stack is of the
stratum that the tokens around it call for. A reduction that reports no error keeps this: the
handle it takes off is a production, and the tree it puts there fits in the handle's place.
-/

namespace ExprCompiler

/-- A layer fits on what is below it: the operand above its token and the one on the left of
its token are of the strata that the token calls for, and the token was shifted there or closes
a parenthesis.
-/
structure Layer.Grouped (layer : Layer ExprTree) (below : Shape ExprTree) : Prop where
  operand : ∀ tree ∈ layer.operand?, layer.category.above.Derives tree
  left : ∀ tree ∈ below.top?, layer.category.before.Derives tree
  follows
    : action below.category layer.category = .shift
      ∨ (below.category = .openParen ∧ layer.category = .closeParen)

/-- Every layer fits on what is below it. -/
def groupedLayers (base? : Option ExprTree) : List (Layer ExprTree) → Prop
  | [] => ∀ tree ∈ base?, Stratum.relational.Derives tree
  | layer :: below => layer.Grouped ⟨below, base?⟩ ∧ groupedLayers base? below

namespace Shape

/-- Every operand of a stack of trees is of the stratum that the tokens around it call for. -/
def Grouped (trees : Shape ExprTree) : Prop :=
  groupedLayers trees.base? trees.layers

/-- A stack with a token is one with a token put on top and an operand above it. -/
theorem exists_push_of_category_ne_finish {trees : Shape ExprTree}
    (notBottom : trees.category ≠ .finish)
    : ∃ (below : Shape ExprTree) (token : Token) (operand? : Option ExprTree),
        trees = (below.push token).setTop operand? := by
  obtain ⟨layers, base?⟩ := trees
  cases layers with
  | nil => exact absurd rfl notBottom
  | cons layer below => exact ⟨⟨below, base?⟩, layer.token, layer.operand?, rfl⟩

theorem exists_setTop (trees : Shape ExprTree)
    : ∃ (below : Shape ExprTree) (operand? : Option ExprTree),
        below.top? = none ∧ trees = below.setTop operand? :=
  ⟨trees.setTop none, trees.top?, by simp, by simp⟩

/-- Grouping of a stack is that of its topmost layer and of what is below. -/
theorem grouped_push_setTop {below : Shape ExprTree} {token : Token}
    {operand? : Option ExprTree}
    : ((below.push token).setTop operand?).Grouped
      ↔ Layer.Grouped ⟨token, operand?⟩ below ∧ below.Grouped :=
  Iff.rfl

/-- An operand of the right stratum may be put on top. -/
theorem Grouped.setTop {trees : Shape ExprTree} (grouped : trees.Grouped)
    {operand? : Option ExprTree}
    (fits : ∀ tree ∈ operand?, trees.category.above.Derives tree)
    : (trees.setTop operand?).Grouped := by
  obtain ⟨layers, base?⟩ := trees
  cases layers with
  | nil => exact fits
  | cons layer below => exact ⟨⟨fits, grouped.1.left, grouped.1.follows⟩, grouped.2⟩

theorem Grouped.of_setTop {trees : Shape ExprTree} {operand? : Option ExprTree}
    (grouped : (trees.setTop operand?).Grouped) (free : trees.top? = none)
    : trees.Grouped := by
  have emptied : ((trees.setTop operand?).setTop none).Grouped := grouped.setTop (by simp)
  rwa [setTop_setTop, setTop_of_top?_eq free] at emptied

/-- Only at the bottom of a grouped stack the topmost token is the end marker. -/
theorem Grouped.layers_eq_nil {trees : Shape ExprTree} (grouped : trees.Grouped)
    (atBottom : trees.category = .finish)
    : trees.layers = [] := by
  obtain ⟨layers, base?⟩ := trees
  cases layers with
  | nil => rfl
  | cons layer below =>
      have isEnd : layer.category = .finish := atBottom
      rcases grouped.1.follows with shifted | ⟨_, closing⟩
      · exact absurd isEnd (Category.ne_finish_of_shift shifted)
      · simp [isEnd] at closing

end Shape

-----------------------------------------------------------------------------------------
-- A reduction without an error forms a tree
-----------------------------------------------------------------------------------------

/-- The shape of a handle with one token. -/
theorem Production.ofHandle_single (left? right? : Option Reduced) (terminal : Terminal)
    : ofHandle (operandItems left? ++ .terminal terminal :: operandItems right?)
      = match left?, right? with
        | none, none => ofToken terminal.token
        | some left, none => ofPostfix left terminal
        | some left, some right => ofInfix left terminal.token right
        | none, some _ =>
            .malformed
              (if terminal.category.isOperator then .missingFirstOperand
              else .unexpectedTerminal) := by
  cases left? <;> cases right? <;> rfl

/-- Only the exclamation mark forms a production with an operand before it alone. -/
theorem Production.category_of_ofPostfix {operand : Reduced} {terminal : Terminal}
    (isProduction : ∀ fault, ofPostfix operand terminal ≠ .malformed fault)
    : terminal.category = .notNil := by
  by_cases mark : terminal.category = .notNil
  · exact mark
  · by_cases operator : terminal.category.isOperator <;>
      simp [ofPostfix, mark, operator] at isProduction

theorem Production.eq_sign_of_binaryOperator? {token : Token} {op : BinaryOperator}
    (stands : binaryOperator? token = some op)
    : token.kind = .operator op.sign := by
  unfold binaryOperator? at stands
  split at stands
  · next sign kind => rw [kind, Operator.eq_sign_of_binary? stands]
  · cases stands

/-- The shape of a handle with two parentheses and whatever stands around them. -/
theorem Production.ofHandle_parens {opening closing : Token} (pair : isPair opening closing)
    (outer? inner? right? : Option Reduced)
    : ofHandle
        (operandItems outer?
          ++ (Layer.handle ⟨opening, inner?⟩ ++ Layer.handle ⟨closing, right?⟩))
      = match outer?, inner?, right? with
        | none, some inner, none => .parens inner
        | none, none, none => .malformed .missingOperand
        | _, _, _ => .malformed .unexpectedTerminal := by
  have parens : areParens { token := opening } { token := closing } = true := pair
  cases outer? <;> cases inner? <;> cases right? <;>
    simp [operandItems, Layer.handle, ofHandle, parens]

theorem ExprTree.poisoned_reduced_eq_false {scopes : ScopeStack} {tree : ExprTree}
    (sound : (tree.verdict scopes).failures = [])
    : (tree.reduced scopes).poisoned = false := by
  simpa [reduced, Verdict.operand] using type?_isSome_of_failures_eq_nil sound

theorem isPoisoned_append (first second : List StackItem)
    : isPoisoned (first ++ second) = (isPoisoned first || isPoisoned second) :=
  List.any_append

theorem Layer.isPoisoned_handle (layer : Layer Reduced)
    : isPoisoned layer.handle = isPoisoned (operandItems layer.operand?) := by
  simp [isPoisoned, Layer.handle]

/-- The operand on top of a stack without failures is not wrong. -/
theorem Shape.isPoisoned_top? {scopes : ScopeStack} {trees : Shape ExprTree}
    (sound : trees.failures scopes = [])
    : isPoisoned (operandItems (trees.map (ExprTree.reduced scopes)).top?) = false := by
  have topSound : trees.top?.elim [] (fun tree => (tree.verdict scopes).failures) = [] := by
    obtain ⟨layers, base?⟩ := trees
    cases layers <;> simp_all [failures, gather, top?]
  rw [top?_map]
  cases top : trees.top? with
  | none => rfl
  | some tree =>
      rw [top] at topSound
      simpa [operandItems, isPoisoned] using ExprTree.poisoned_reduced_eq_false topSound

/-- Every handle of a stack without failures is free of operands that were wrong. -/
theorem Shape.isPoisoned_cut {scopes : ScopeStack} {trees : Shape ExprTree}
    (sound : trees.failures scopes = [])
    : isPoisoned (trees.map (ExprTree.reduced scopes)).cut.1 = false := by
  obtain ⟨layers, base?⟩ := trees
  have cleanTop := isPoisoned_top? sound
  cases layers with
  | nil => rfl
  | cons layer below =>
      have soundBelow : (⟨below, base?⟩ : Shape ExprTree).failures scopes = [] := by
        simp_all [failures, gather]
      have cleanNext := isPoisoned_top? soundBelow
      cases below with
      | nil =>
          simpa [map, cut, cutUnder, isPoisoned_append, Layer.isPoisoned_handle]
            using ⟨cleanNext, cleanTop⟩
      | cons next rest =>
          have soundRest : (⟨rest, base?⟩ : Shape ExprTree).failures scopes = [] := by
            simp_all [failures, gather]
          have cleanRest := isPoisoned_top? soundRest
          by_cases pair : isPair next.token layer.token
          · simpa [map, cut, pair, cutUnder, isPoisoned_append, Layer.isPoisoned_handle]
              using ⟨cleanRest, cleanNext, cleanTop⟩
          · simpa [map, cut, pair, cutUnder, isPoisoned_append, Layer.isPoisoned_handle]
              using ⟨cleanNext, cleanTop⟩

/-- A handle that is no production is reported, if there was no error before. -/
theorem Tracks.hasErrors_reduce_malformed {scopes : ScopeStack} {parser : Parser}
    {trees : Shape ExprTree} (tracks : Tracks scopes parser trees)
    (notBottom : trees.category ≠ .finish) (sound : trees.failures scopes = [])
    {fault : ParseFault}
    (malformed
      : Production.ofHandle (trees.map (ExprTree.reduced scopes)).cut.1 = .malformed fault)
    : (parser.reduce scopes).diagnostics.hasErrors = true := by
  have clean := Shape.isPoisoned_cut sound
  have hasToken : (trees.map (ExprTree.reduced scopes)).category ≠ .finish := by
    simpa using notBottom
  have popped := Shape.popHandle_stack hasToken
  simp only [Parser.reduce, tracks.stack, popped, Reduction.ofHandle, malformed, clean]
  exact DiagnosticQueue.hasErrors_add rfl

/-- The trees of a parser between two steps, if there was no error: a grouped stack with all
tokens so far, whose topmost tree may stand on the left of what comes next.
-/
def Parser.Explained (scopes : ScopeStack) (parser : Parser) (tokens : List Token)
    (next : Category)
    : Prop :=
  parser.diagnostics.hasErrors = false →
    ∃ trees : Shape ExprTree, Tracks scopes parser trees ∧ trees.Grouped ∧ trees.tokens = tokens
      ∧ ∀ tree ∈ trees.top?, next.before.Derives tree

namespace Parser

variable {scopes : ScopeStack} {parser : Parser} {below : Shape ExprTree} {incoming : Category}

/-- A tree in the place of a handle explains the parser after the reduction, if its stratum
binds strongly enough for the tokens on its two sides.
-/
theorem explained_of_tree {tree : ExprTree} {built : Stratum} {tokens : List Token}
    (tracks : Tracks scopes (parser.reduce scopes) (below.setTop (some tree)))
    (grouped : below.Grouped) (free : below.top? = none) (derived : built.Derives tree)
    (fitsAbove : below.category.above.rank ≤ built.rank)
    (fitsBefore : incoming.before.rank ≤ built.rank)
    (sameTokens : below.tokens ++ tree.tokens = tokens)
    : (parser.reduce scopes).Explained scopes tokens incoming := by
  intro _
  refine ⟨below.setTop (some tree), tracks, grouped.setTop ?_, ?_, ?_⟩
  · rintro _ ⟨⟩
    exact derived.weaken fitsAbove
  · rw [← sameTokens, Shape.tokens, Shape.gather_setTop _ _ free]
    rfl
  · rw [Shape.top?_setTop]
    rintro _ ⟨⟩
    exact derived.weaken fitsBefore

/-- Without an error, the handle that was reduced is a production. -/
theorem not_malformed_of_reduce {trees : Shape ExprTree} (tracks : Tracks scopes parser trees)
    (notBottom : trees.category ≠ .finish)
    (sound : (parser.reduce scopes).diagnostics.hasErrors = false) (fault : ParseFault)
    : Production.ofHandle (trees.map (ExprTree.reduced scopes)).cut.1 ≠ .malformed fault := by
  intro malformed
  have soundBefore : trees.failures scopes = [] := by
    simpa [(sound_of_reduce sound).2] using tracks.hasErrors_iff
  have errors := tracks.hasErrors_reduce_malformed notBottom soundBefore malformed
  simp [sound] at errors

/-- Reducing a handle with one token: a value, an operand with an exclamation mark, or two
operands with a binary operator between them.
-/
theorem explained_reduce_single {token : Token} {left? right? : Option ExprTree}
    (tracks : Tracks scopes parser (((below.setTop left?).push token).setTop right?))
    (free : below.top? = none) (grouped : below.Grouped)
    (layer : Layer.Grouped ⟨token, right?⟩ (below.setTop left?))
    (shifted : action below.category (Category.ofKind token.kind) = .shift)
    (reduces : action (Category.ofKind token.kind) incoming = .reduce)
    : (parser.reduce scopes).Explained scopes
        (((below.setTop left?).push token).setTop right?).tokens incoming := by
  intro sound
  have fitsAbove := Category.above_le_built_of_shift shifted
  have fitsBefore := Category.before_le_built_of_reduce reduces
  have noPair := Category.ne_closeParen_of_shift shifted
  have notBottom : (((below.setTop left?).push token).setTop right?).category ≠ .finish := by
    simpa using top_ne_finish_of_reduce reduces
  -- A handle that is no production would have been reported, so the operands around the token
  -- are those that one of the productions has.
  have isProduction := not_malformed_of_reduce tracks notBottom sound
  rw [Tracks.cut_map_push scopes free noPair, Production.ofHandle_single] at isProduction
  match left?, right? with
  | none, none =>
      cases stands : token.kind.primary? with
      | none => simp [Production.ofToken, stands] at isProduction
      | some value =>
          obtain ⟨place, rfl⟩ := Token.exists_place (TokenKind.eq_kind_of_primary? stands)
          rw [Shape.setTop_of_top?_eq free] at tracks ⊢
          rw [Place.token_kind, Primary.category_kind] at fitsAbove fitsBefore
          exact explained_of_tree (tracks.reduce_primary free) grouped free .primary fitsAbove
            fitsBefore (by simp [Shape.tokens, Shape.gather_push, ExprTree.tokens]) sound
  | some left, none =>
      have mark : Category.ofKind token.kind = .notNil :=
        Production.category_of_ofPostfix isProduction
      have markSign : (Category.ofKind token.kind).sign? = some .bang := by rw [mark]; rfl
      obtain ⟨place, rfl⟩ := Token.exists_place (Category.eq_operator_of_sign? markSign)
      exact explained_of_tree (tracks.reduce_notNil free) grouped free
        (.notNil (layer.left left (Shape.top?_setTop _ _))) fitsAbove fitsBefore
        (by simp [Shape.tokens, Shape.gather_push, Shape.gather_setTop _ _ free,
          ExprTree.tokens]) sound
  | some left, some right =>
      cases stands : Production.binaryOperator? token with
      | none => simp [Production.ofInfix, stands] at isProduction
      | some op =>
          obtain ⟨place, rfl⟩ :=
            Token.exists_place (Production.eq_sign_of_binaryOperator? stands)
          rw [Place.token_kind, BinaryOperator.category_sign, BinaryOperator.built_category]
            at fitsAbove fitsBefore
          have leftDerived := layer.left left (Shape.top?_setTop _ _)
          have rightDerived := layer.operand right rfl
          simp only [Layer.category, Place.token_kind, BinaryOperator.category_sign,
            BinaryOperator.before_category, BinaryOperator.above_category]
            at leftDerived rightDerived
          exact explained_of_tree (tracks.reduce_binary free) grouped free
            (BinaryOperator.derives leftDerived rightDerived) fitsAbove fitsBefore
            (by simp [Shape.tokens, Shape.gather_push_setTop, Shape.gather_setTop _ _ free,
              ExprTree.tokens]) sound
  | none, some right => simp at isProduction

/-- Reducing a handle with a closing parenthesis: an operand between the two parentheses. -/
theorem explained_reduce_parens {opening closing : Token}
    {outer? inner? right? : Option ExprTree}
    (tracks : Tracks scopes parser
      ((((((below.setTop outer?).push opening).setTop inner?).push closing)).setTop right?))
    (free : below.top? = none) (grouped : below.Grouped)
    (inner : Layer.Grouped ⟨opening, inner?⟩ (below.setTop outer?))
    (opens : Category.ofKind opening.kind = .openParen)
    (closes : Category.ofKind closing.kind = .closeParen)
    (reduces : action .closeParen incoming = .reduce)
    : (parser.reduce scopes).Explained scopes
        ((((((below.setTop outer?).push opening).setTop inner?).push closing)).setTop
          right?).tokens incoming := by
  intro sound
  have fitsBefore := Category.before_le_built_of_reduce reduces
  have fitsAbove : below.category.above.rank ≤ Stratum.suffixed.rank := by
    cases below.category <;> decide
  have openSign : (Category.ofKind opening.kind).sign? = some .openParen := by rw [opens]; rfl
  have closeSign : (Category.ofKind closing.kind).sign? = some .closeParen := by
    rw [closes]; rfl
  have pair : isPair opening closing := by simp [isPair, opens, closes]
  have isProduction := not_malformed_of_reduce tracks (by simp [closes]) sound
  simp only [Shape.map_setTop, Shape.map_push, Shape.cut_push_push pair, Shape.cutUnder,
    Shape.top?_setTop, Production.ofHandle_parens pair] at isProduction
  -- only an operand between the parentheses and none beside them makes a production
  rcases outer? with _ | outer
  · rcases inner? with _ | tree
    · rcases right? with _ | right <;> simp at isProduction
    · rcases right? with _ | right
      · obtain ⟨left, rfl⟩ := Token.exists_place (Category.eq_operator_of_sign? openSign)
        obtain ⟨right, rfl⟩ := Token.exists_place (Category.eq_operator_of_sign? closeSign)
        rw [Shape.setTop_of_top?_eq free] at tracks ⊢
        exact explained_of_tree (tracks.reduce_parens free) grouped free
          (.parens (inner.operand tree rfl)) fitsAbove fitsBefore
          (by simp [Shape.tokens, Shape.gather_push, Shape.gather_push_setTop,
            ExprTree.tokens]) sound
      · simp at isProduction
  · simp at isProduction

/-- Reducing keeps what explains the parser, by the two kinds of handles. -/
theorem explained_reduce {tokens : List Token}
    (explained : parser.Explained scopes tokens incoming)
    (reduces : action parser.stack.top incoming = .reduce)
    : (parser.reduce scopes).Explained scopes tokens incoming := by
  intro sound
  obtain ⟨trees, tracks, grouped, rfl, _⟩ := explained (sound_of_reduce sound).2
  rw [tracks.top] at reduces
  obtain ⟨below, token, right?, rfl⟩ :=
    Shape.exists_push_of_category_ne_finish (top_ne_finish_of_reduce reduces)
  obtain ⟨layer, groupedBelow⟩ := Shape.grouped_push_setTop.mp grouped
  rw [Shape.category_setTop, Shape.category_push] at reduces
  -- The topmost token was shifted and is alone in its handle, or it closes the parenthesis below.
  rcases layer.follows with shifted | ⟨opens, closes⟩
  · obtain ⟨below, left?, free, rfl⟩ := below.exists_setTop
    rw [Shape.category_setTop] at shifted
    exact explained_reduce_single tracks free (groupedBelow.of_setTop free) layer shifted
      reduces sound
  · obtain ⟨outer, opening, inner?, rfl⟩ :=
      Shape.exists_push_of_category_ne_finish (by rw [opens]; decide)
    obtain ⟨inner, groupedOuter⟩ := Shape.grouped_push_setTop.mp groupedBelow
    obtain ⟨outer, outer?, free, rfl⟩ := outer.exists_setTop
    rw [Shape.category_setTop, Shape.category_push] at opens
    exact explained_reduce_parens tracks free (groupedOuter.of_setTop free) inner opens closes
      (closes ▸ reduces) sound

end Parser

end ExprCompiler

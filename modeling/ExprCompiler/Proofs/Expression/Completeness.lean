import ExprCompiler.Proofs.Expression.Runs

/-! Completeness of expression parsing. Main statement: the tokens of a tree of the grammar, with
line breaks wherever an operand is expected, are parsed to that tree. The outcome has its code
and its type, or else reports exactly what its type check finds.
-/

namespace ExprCompiler

/-- The parser has taken the tokens of some trees. It may have reductions left, but makes them
before any token that ends the stratum of the topmost tree.
-/
def Awaits (scopes : ScopeStack) (parser : Parser) (trees : Shape ExprTree)
    (stratum : Stratum)
    : Prop :=
  ∀ token : Token, token.kind ≠ .endOfLine → stratum.EndsBefore (Category.ofKind token.kind) →
    ∃ settled, Tracks scopes settled trees
      ∧ Parser.feed scopes parser token = Parser.feed scopes settled token

namespace Awaits

variable {scopes : ScopeStack} {parser : Parser} {trees reduced : Shape ExprTree}
  {stratum inner : Stratum}

/-- Without reductions left, the parser awaits whatever comes. -/
theorem of_tracks (tracks : Tracks scopes parser trees) : Awaits scopes parser trees stratum := by
  intro token _ _
  exact ⟨parser, tracks, rfl⟩

/-- One more handle is reduced before what ends the stratum that it builds. -/
theorem reduce (awaits : Awaits scopes parser trees inner) (notOpen : trees.category ≠ .openParen)
    (notBottom : trees.category ≠ .finish) (weaker : stratum.rank ≤ inner.rank)
    (builds : stratum.rank ≤ trees.category.built.rank)
    (forms : ∀ settled, Tracks scopes settled trees →
      Tracks scopes (settled.reduce scopes) reduced)
    : Awaits scopes parser reduced stratum := by
  intro token notBreak ends
  obtain ⟨settled, tracks, same⟩ := awaits token notBreak (ends.strengthen weaker)
  have reduces := ends trees.category notOpen notBottom builds
  exact ⟨settled.reduce scopes, forms settled tracks,
    same.trans (Parser.feed_of_reduce tracks notBreak reduces)⟩

/-- A token that ends the topmost tree and starts a handle goes on top. -/
theorem exists_feed_of_shift (awaits : Awaits scopes parser trees stratum) (token : Token)
    (ends : stratum.EndsBefore (Category.ofKind token.kind))
    (shifts : action trees.category (Category.ofKind token.kind) = .shift)
    : ∃ advanced, Parser.feed scopes parser token = .more advanced
        ∧ Tracks scopes advanced (trees.push token) := by
  have notBreak : token.kind ≠ .endOfLine := Parser.kind_ne_endOfLine_of_shift shifts
  obtain ⟨settled, tracks, same⟩ := awaits token notBreak ends
  rw [same]
  exact Parser.exists_feed_of_shift tracks shifts

/-- A closing parenthesis goes on top of the tree after an opening one. -/
theorem exists_feed_of_close (awaits : Awaits scopes parser trees .relational)
    (opening : trees.category = .openParen) (place : Place)
    : ∃ advanced, Parser.feed scopes parser (place.token (.operator .closeParen)) = .more advanced
        ∧ Tracks scopes advanced (trees.push (place.token (.operator .closeParen))) := by
  obtain ⟨settled, tracks, same⟩ := awaits (place.token (.operator .closeParen)) (by simp)
    (Category.before_endsBefore .closeParen rfl)
  refine ⟨_, ?_, tracks.close opening rfl⟩
  have continues : action .openParen (Category.ofKind (.operator .closeParen)) = .equal := rfl
  rw [same, Parser.feed_eq_act (by simp) (by simp), tracks.top, opening, Place.token_kind,
    continues]
  rfl

end Awaits

/-- Wherever a tree of the stratum is expected, the parser takes the tokens of this tree, with
line breaks in all possible places, and has the tree on top then.
-/
def TakenAs (scopes : ScopeStack) (stratum : Stratum) (tree : ExprTree) : Prop :=
  ∀ (parser : Parser) (below : Shape ExprTree) (laid : List Token),
    Tracks scopes parser below → below.top? = none → below.category.opensOperand = true →
    below.category.above.rank ≤ stratum.rank → LaidOut true tree.tokens laid →
    ∃ advanced, Parser.Consumes scopes parser laid advanced
      ∧ Awaits scopes advanced (below.setTop (some tree)) stratum

namespace TakenAs

variable {scopes : ScopeStack}

/-- A tree taken as one of a strong stratum is taken as one of a weaker stratum. -/
theorem weaken {strong weak : Stratum} {tree : ExprTree} (taken : TakenAs scopes strong tree)
    (le : weak.rank ≤ strong.rank)
    : TakenAs scopes weak tree := by
  intro parser below laid tracks free opens fits layout
  obtain ⟨advanced, run, awaits⟩ :=
    taken parser below laid tracks free opens (Nat.le_trans fits le) layout
  refine ⟨advanced, run, ?_⟩
  intro token notBreak ends
  exact awaits token notBreak (ends.strengthen le)

/-- A token that starts an operand is taken after any line breaks. -/
theorem exists_consumes_start {parser : Parser} {below : Shape ExprTree} {token : Token}
    {tokens laid : List Token} (tracks : Tracks scopes parser below) (free : below.top? = none)
    (opens : below.category.opensOperand = true)
    (starts : (Category.ofKind token.kind).startsOperand = true)
    (layout : LaidOut true (token :: tokens) laid)
    : ∃ (front rest : List Token) (advanced : Parser),
        laid = front ++ rest
        ∧ Parser.Consumes scopes parser front advanced
        ∧ Tracks scopes advanced (below.push token)
        ∧ LaidOut token.expectsOperand tokens rest := by
  obtain ⟨breaks, rest, rfl, allBreaks, restLaid⟩ := layout.cons_of_expecting
  have expects : parser.stack.expectsOperand = true := by
    simp [tracks.expectsOperand, free, Category.not_endsOperand_of_opensOperand opens]
  have shifts := Category.action_eq_shift_of_startsOperand opens starts
  obtain ⟨advanced, step, pushed⟩ := Parser.exists_feed_of_shift tracks shifts
  exact ⟨breaks ++ [token], rest, advanced, by simp,
    (Parser.Consumes.lineBreaks expects allBreaks).append (.cons step .nil), pushed, restLaid⟩

/-- A value is shifted, and reduced before what ends it. -/
theorem primary (value : Primary) (place : Place)
    : TakenAs scopes .suffixed (.primary value place) := by
  intro parser below laid tracks free opens fits layout
  obtain ⟨front, rest, advanced, rfl, run, pushed, restLaid⟩ :=
    exists_consumes_start tracks free opens (by simp [Category.startsOperand]) layout
  obtain rfl : rest = [] := by
    apply LaidOut.eq_nil_of_not_expecting
    simpa [Token.expectsOperand, Category.isOperator, Category.strength?] using restLaid
  rw [List.append_nil]
  exact ⟨advanced, run, (Awaits.of_tracks pushed).reduce (by simp) (by simp) (Nat.le_refl _)
    (by simp [Category.built]) (fun _ settled => settled.reduce_primary free)⟩

/-- An exclamation mark is shifted after its operand, and reduced before what ends it. -/
theorem notNil {operand : ExprTree} (taken : TakenAs scopes .suffixed operand) (place : Place)
    : TakenAs scopes .suffixed (operand.notNil place) := by
  intro parser below laid tracks free opens fits layout
  obtain ⟨front, back, rfl, operandLaid, backLaid⟩ := LaidOut.split layout
  rw [ExprTree.not_expectsAfter_tokens] at backLaid
  obtain ⟨rest, rfl, restLaid⟩ := backLaid.cons_of_not_expecting
  obtain rfl := restLaid.eq_nil_of_not_expecting
  obtain ⟨middle, operandRun, awaits⟩ := taken parser below front tracks free opens fits operandLaid
  have shifts : action below.category .notNil = .shift :=
    Category.action_eq_shift opens (by decide) (by decide) fits
  obtain ⟨advanced, step, pushed⟩ :=
    awaits.exists_feed_of_shift (place.token (.operator .bang))
      (Category.before_endsBefore .notNil rfl) (by simpa using shifts)
  exact ⟨advanced, operandRun.append (.cons step .nil),
    (Awaits.of_tracks pushed).reduce (by simp) (by simp) (Nat.le_refl _)
      (by simp [Category.built]) (fun _ settled => settled.reduce_notNil free)⟩

/-- A tree in parentheses is taken between them, and reduced before what ends it. -/
theorem parens {inner : ExprTree} (taken : TakenAs scopes .relational inner)
    (opening closing : Place)
    : TakenAs scopes .suffixed (.parens opening inner closing) := by
  intro parser below laid tracks free opens fits layout
  obtain ⟨front, back, first, rfl, firstRun, opened, backLaid⟩ :=
    exists_consumes_start tracks free opens (by simp [Category.startsOperand]) layout
  obtain ⟨front, back, rfl, innerLaid, closeLaid⟩ := LaidOut.split backLaid
  rw [ExprTree.not_expectsAfter_tokens] at closeLaid
  obtain ⟨rest, rfl, restLaid⟩ := closeLaid.cons_of_not_expecting
  obtain rfl := restLaid.eq_nil_of_not_expecting
  obtain ⟨middle, innerRun, awaits⟩ := taken first _ front opened rfl rfl (Nat.le_refl _) innerLaid
  obtain ⟨advanced, step, pushed⟩ := awaits.exists_feed_of_close rfl closing
  exact ⟨advanced, firstRun.append (innerRun.append (.cons step .nil)),
    (Awaits.of_tracks pushed).reduce (by simp) (by simp) (Nat.le_refl _)
      (by simp [Category.built]) (fun _ settled => settled.reduce_parens free)⟩

/-- A binary operator is shifted between its operands, and reduced before what ends it. -/
theorem binary (op : BinaryOperator) {left right : ExprTree}
    (leftTaken : TakenAs scopes op.leftStratum left)
    (rightTaken : TakenAs scopes op.rightStratum right) (place : Place)
    : TakenAs scopes op.stratum (.binary op left place right) := by
  intro parser below laid tracks free opens fits layout
  obtain ⟨front, back, rfl, leftLaid, backLaid⟩ := LaidOut.split layout
  rw [ExprTree.not_expectsAfter_tokens] at backLaid
  obtain ⟨rest, rfl, rightLaid⟩ := backLaid.cons_of_not_expecting
  -- The operator ends its left side, and whatever is below it waits for more than that.
  obtain ⟨middle, leftRun, awaits⟩ := leftTaken parser below front tracks free opens
    (Nat.le_trans fits op.stratum_le_leftStratum) leftLaid
  have operator := Category.isOperator_ofBinary op
  have ends := Category.before_endsBefore (.ofBinary op)
    (Category.not_startsOperand_of_isOperator operator)
  have shifts : action below.category (.ofBinary op) = .shift :=
    Category.action_eq_shift opens (Category.ne_closeParen_of_isOperator operator)
      (Category.ne_finish_of_isOperator operator) (by simpa using fits)
  obtain ⟨next, step, pushed⟩ :=
    awaits.exists_feed_of_shift (place.token (.operator op.sign)) (by simpa using ends)
      (by simpa using shifts)
  have expects : (place.token (.operator op.sign)).expectsOperand = true := by
    simp [Token.expectsOperand]
  rw [expects] at rightLaid
  -- What ends the operation also ends its right side, so both are reduced before it.
  obtain ⟨advanced, rightRun, rightAwaits⟩ := rightTaken next _ rest pushed rfl
    (by simp [Category.opensOperand]) (by simp) rightLaid
  refine ⟨advanced, leftRun.append (.cons step rightRun), ?_⟩
  exact rightAwaits.reduce (by simp [Category.ne_openParen_of_isOperator])
    (by simp [Category.ne_finish_of_isOperator]) op.stratum_le_rightStratum (by simp)
    (fun _ settled => settled.reduce_binary free)

end TakenAs

/-- The parser takes every tree of the grammar, by induction on its derivation. -/
theorem Stratum.Derives.takenAs (scopes : ScopeStack) {stratum : Stratum} {tree : ExprTree}
    (derived : stratum.Derives tree)
    : TakenAs scopes stratum tree := by
  induction derived with
  | comparison _ _ leftIH rightIH => exact .binary (.compare _) leftIH rightIH _
  | nilCheck _ _ leftIH rightIH => exact .binary .coalesce leftIH rightIH _
  | sum isSum _ _ leftIH rightIH =>
      obtain rfl | rfl := isSum
      · exact .binary (.arithmetic .add) leftIH rightIH _
      · exact .binary (.arithmetic .subtract) leftIH rightIH _
  | product isProduct _ _ leftIH rightIH =>
      obtain rfl | rfl := isProduct
      · exact .binary (.arithmetic .multiply) leftIH rightIH _
      · exact .binary (.arithmetic .divide) leftIH rightIH _
  | ofCoalescing _ ih | ofAdditive _ ih | ofMultiplicative _ ih | ofSuffixed _ ih =>
      exact ih.weaken (by decide)
  | notNil _ ih => exact ih.notNil _
  | parens _ ih => exact ih.parens _ _
  | primary => exact .primary _ _

namespace Tracks

variable {scopes : ScopeStack} {parser : Parser} {tree : ExprTree}

theorem result?_eq (tracks : Tracks scopes parser ⟨[], some tree⟩)
    : parser.stack.result? = some (tree.reduced scopes) := by
  rw [tracks.stack]
  exact Shape.result?_stack _

theorem failures_single (scopes : ScopeStack) (tree : ExprTree)
    : (⟨[], some tree⟩ : Shape ExprTree).failures scopes = (tree.verdict scopes).failures :=
  List.append_nil _

/-- The status of a parse with one tree left is the first failure of the tree. -/
theorem status_finish (tracks : Tracks scopes parser ⟨[], some tree⟩) (terminator : Token)
    : (parser.finish terminator).status
      = ⟨(tree.verdict scopes).failures.head?.map Diagnostic.code⟩ := by
  simp only [Parser.finish, tracks.result?_eq, tracks.firstError, failures_single]

/-- The diagnostics of a parse with one tree left are the failures of the tree. -/
theorem diagnostics_finish (tracks : Tracks scopes parser ⟨[], some tree⟩) (terminator : Token)
    : (parser.finish terminator).diagnostics
      = (dropRepeats (tree.verdict scopes).failures).mergeSort Diagnostic.inOrder := by
  simp only [Parser.finish, tracks.result?_eq, tracks.diagnostics, failures_single,
    DiagnosticQueue.flush_addAll_new]

/-- Type and code of a parse with one tree left are those of the tree, if it has any. -/
theorem compiled_finish (tracks : Tracks scopes parser ⟨[], some tree⟩) (terminator : Token)
    {type : ExprType} {code : List Instruction} (compiles : Compiles scopes tree type code)
    : (parser.finish terminator).type = type ∧ (parser.finish terminator).code = code := by
  have verdict := ExprTree.compiles_iff.mp compiles
  have sameCode : parser.code = code := by
    rw [tracks.code (by rw [failures_single, verdict]), Shape.code]
    simp [Shape.gather, verdict]
  simp [Parser.finish, tracks.result?_eq, ExprTree.reduced, Verdict.operand, verdict, sameCode]

end Tracks

/-- Parsing the tokens of a tree leaves this tree alone on the stack. -/
theorem Stratum.Derives.exists_parseExpression_eq {Source : Type} [TokenSource Source]
    (scopes : ScopeStack) {tree : ExprTree} {laid following : List Token}
    {first terminator : Token} {source rest : Source}
    (derived : Stratum.relational.Derives tree) (layout : LaidOut true tree.tokens laid)
    (isEnd : Category.ofKind terminator.kind = .finish)
    (notBreak : terminator.kind ≠ .endOfLine)
    (stream : first :: following = laid ++ [terminator]) (reads : Reads source following rest)
    : ∃ parser, Tracks scopes parser ⟨[], some tree⟩
        ∧ parseExpression scopes first source = (parser.finish terminator, rest) := by
  obtain ⟨advanced, run, awaits⟩ :=
    derived.takenAs scopes {} {} laid (Tracks.start scopes) rfl rfl (Nat.le_refl _) layout
  have ends : Stratum.relational.EndsBefore (Category.ofKind terminator.kind) := by
    rw [isEnd]
    exact Category.before_endsBefore .finish rfl
  obtain ⟨settled, tracks, same⟩ := awaits terminator notBreak ends
  have done : Parser.feed scopes settled terminator = .done settled := by
    rw [Parser.feed, if_neg (by simp [Parser.skips, notBreak]), if_pos ⟨tracks.top, isEnd⟩]
  exact ⟨settled, tracks, run.parseFrom_eq (same.trans done) stream reads⟩

/-- The tokens of a tree of the grammar, with line breaks wherever an operand is expected, are
parsed up to the terminator, with nothing wrong in the form of the expression. If the typing
rules give the tree a type and code, the outcome has both and no error. Otherwise its status is
the first failure of the type check, and its diagnostics are always all failures without
repetitions, by place.
-/
theorem parseExpression_complete {Source : Type} [TokenSource Source] (scopes : ScopeStack)
    {tree : ExprTree} {laid following : List Token} {first terminator : Token}
    {source rest : Source}
    (derived : Stratum.relational.Derives tree) (layout : LaidOut true tree.tokens laid)
    (isEnd : Category.ofKind terminator.kind = .finish)
    (notBreak : terminator.kind ≠ .endOfLine)
    (stream : first :: following = laid ++ [terminator]) (reads : Reads source following rest)
    : ∃ outcome, parseExpression scopes first source = (outcome, rest)
        ∧ outcome.terminator? = some terminator
        ∧ (∀ diagnostic ∈ outcome.diagnostics, diagnostic.code ≠ .syntactic)
        ∧ (∀ type code, Compiles scopes tree type code →
            outcome.status = {} ∧ outcome.type = type ∧ outcome.code = code)
        ∧ ((¬∃ type code, Compiles scopes tree type code) →
            ∃ failure ∈ (tree.verdict scopes).failures.head?,
              outcome.status = ⟨some failure.code⟩)
        ∧ outcome.diagnostics
            = (dropRepeats (tree.verdict scopes).failures).mergeSort Diagnostic.inOrder := by
  obtain ⟨parser, tracks, parsed⟩ :=
    derived.exists_parseExpression_eq scopes layout isEnd notBreak stream reads
  refine ⟨parser.finish terminator, parsed, rfl, ?_, ?_, ?_, tracks.diagnostics_finish _⟩
  · intro diagnostic reported
    rw [tracks.diagnostics_finish, List.mem_mergeSort] at reported
    exact ExprTree.code_ne_syntactic_of_mem_failures (mem_of_mem_dropRepeats reported)
  · intro type code compiles
    refine ⟨?_, tracks.compiled_finish terminator compiles⟩
    rw [tracks.status_finish, ExprTree.compiles_iff.mp compiles]
    rfl
  · intro untyped
    rw [ExprTree.exists_compiles_iff] at untyped
    obtain ⟨failure, later, failures⟩ := List.exists_cons_of_ne_nil untyped
    exact ⟨failure, by simp [failures], by simp [tracks.status_finish, failures]⟩

/-- The parse of `1 < "a" * (total)` with line breaks after the operators and the parenthesis,
where `total` is not declared: the product is not checked then, and neither is the comparison.
-/
theorem parseExpression_complete_undeclared
    : let place : Place := {}
      let total : ExprTree := .parens place (.primary (.name "total") place) place
      let tree : ExprTree :=
        .binary (.compare .less) (.primary (.int 1) place) place
          (.binary (.arithmetic .multiply) (.primary (.string "a") place) place total)
      let lineBreak := place.token .endOfLine
      let first := place.token (.int 1)
      let following :=
        [place.token (.operator .less), lineBreak, place.token (.string "a"),
          place.token (.operator .star), lineBreak, lineBreak,
          place.token (.operator .openParen), lineBreak, place.token (.identifier "total"),
          place.token (.operator .closeParen), place.token .endOfFile]
      let rest : Lookahead := ⟨[], .start⟩
      Stratum.relational.Derives tree
        ∧ LaidOut true tree.tokens (first :: following.dropLast)
        ∧ Reads (Lookahead.ofList following) following rest
        ∧ (¬∃ type code, Compiles {} tree type code)
        ∧ ∃ outcome, parseExpression {} first (Lookahead.ofList following) = (outcome, rest)
          ∧ outcome.terminator? = some (place.token .endOfFile)
          ∧ (∀ diagnostic ∈ outcome.diagnostics, diagnostic.code ≠ .syntactic)
          ∧ (∀ type code, Compiles {} tree type code →
              outcome.status = {} ∧ outcome.type = type ∧ outcome.code = code)
          ∧ ((¬∃ type code, Compiles {} tree type code) →
              ∃ failure ∈ (tree.verdict {}).failures.head?,
                outcome.status = ⟨some failure.code⟩)
          ∧ outcome.diagnostics
              = (dropRepeats (tree.verdict {}).failures).mergeSort Diagnostic.inOrder := by
  intro place total tree lineBreak first following rest
  have derived : Stratum.relational.Derives tree :=
    .comparison (.weaken .primary (by decide))
      (.weaken (.product (.inl rfl) (.weaken .primary (by decide))
        (.parens (.weaken .primary (by decide)))) (by decide))
  have layout : LaidOut true tree.tokens (first :: following.dropLast) :=
    .token (.token (.lineBreak rfl (.token (.token (.lineBreak rfl (.lineBreak rfl
      (.token (.lineBreak rfl (.token (.token .nil))))))))))
  have reads : Reads (Lookahead.ofList following) following rest :=
    Lookahead.reads_tokens following .start
  have untyped : ¬∃ type code, Compiles {} tree type code := by
    rw [ExprTree.exists_compiles_iff]
    decide +kernel
  exact ⟨derived, layout, reads, untyped,
    parseExpression_complete {} derived layout rfl (by decide) rfl reads⟩

end ExprCompiler

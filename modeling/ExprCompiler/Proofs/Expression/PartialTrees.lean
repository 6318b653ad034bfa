import ExprCompiler.Proofs.Expression.Checks
import ExprCompiler.Proofs.Expression.StackShape
import ExprCompiler.Proofs.Report.QueueHistory

/-! Parse stacks whose operands are trees. As long as the operands on the stack are trees, the
parser has reported exactly the failures of these trees and, if there are none, has added
exactly their code. Reducing a handle of the grammar keeps this.
-/

namespace ExprCompiler

namespace Shape

/-- What the tokens and operands of a shape give, from the bottom up. -/
def gather {α β : Type} (ofToken : Token → List β) (ofOperand : α → List β)
    (shape : Shape α) : List β :=
  shape.base?.elim [] ofOperand
    ++ shape.layers.reverse.flatMap fun layer =>
        ofToken layer.token ++ layer.operand?.elim [] ofOperand

/-- A token on top adds what it gives. -/
theorem gather_push {α β : Type} (ofToken : Token → List β) (ofOperand : α → List β)
    (shape : Shape α) (token : Token)
    : (shape.push token).gather ofToken ofOperand
      = shape.gather ofToken ofOperand ++ ofToken token := by
  simp [gather, push]

/-- An operand on top adds what it gives. -/
theorem gather_setTop {α β : Type} (ofToken : Token → List β) (ofOperand : α → List β)
    {shape : Shape α} (free : shape.top? = none) (operand : α)
    : (shape.setTop (some operand)).gather ofToken ofOperand
      = shape.gather ofToken ofOperand ++ ofOperand operand := by
  obtain ⟨layers, base?⟩ := shape
  cases layers with
  | nil =>
      obtain rfl : base? = none := free
      simp [gather, setTop]
  | cons layer below =>
      obtain ⟨token, operand?⟩ := layer
      obtain rfl : operand? = none := free
      simp [gather, setTop]

theorem gather_push_setTop {α β : Type} (ofToken : Token → List β) (ofOperand : α → List β)
    (shape : Shape α) (token : Token) (operand : α)
    : ((shape.push token).setTop (some operand)).gather ofToken ofOperand
      = shape.gather ofToken ofOperand ++ ofToken token ++ ofOperand operand := by
  rw [gather_setTop _ _ (top?_push shape token), gather_push]

/-- The tokens of a stack of trees from left to right. -/
def tokens (trees : Shape ExprTree) : List Token :=
  trees.gather (fun token => [token]) ExprTree.tokens

/-- The code of a stack of trees. -/
def code (scopes : ScopeStack) (trees : Shape ExprTree) : List Instruction :=
  trees.gather (fun _ => []) fun tree => (tree.verdict scopes).code

/-- The failures of a stack of trees. -/
def failures (scopes : ScopeStack) (trees : Shape ExprTree) : List Diagnostic :=
  trees.gather (fun _ => []) fun tree => (tree.verdict scopes).failures

end Shape

/-- The diagnostic reports a fault of the type check. -/
def Diagnostic.ReportsFault (diagnostic : Diagnostic) : Prop :=
  ∃ (fault : TypeFault) (location : Location), diagnostic = fault.report location

/-- The check of a node adds at most a fault of its own. -/
theorem Verdict.reportsFault_of_mem_settle {operands : Verdict} {failure : Diagnostic}
    (known : failure ∈ operands.failures → failure.ReportsFault) {location : Location}
    {ruling : Ruling} (member : failure ∈ (operands.settle location ruling).failures)
    : failure.ReportsFault := by
  cases ruling with
  | ok rule => exact known member
  | error fault =>
      rcases List.mem_append.mp member with earlier | own
      · exact known earlier
      · exact ⟨fault, location, List.mem_singleton.mp own⟩

/-- Every failure of a tree is a fault of the type check, by induction on the tree. -/
theorem ExprTree.reportsFault_of_mem_failures {scopes : ScopeStack} {tree : ExprTree}
    {failure : Diagnostic} (member : failure ∈ (tree.verdict scopes).failures)
    : failure.ReportsFault := by
  induction tree with
  | primary value place => exact Verdict.reportsFault_of_mem_settle (by simp) member
  | notNil operand place ih =>
      rw [verdict] at member
      split at member
      · exact Verdict.reportsFault_of_mem_settle ih member
      · exact ih member
  | parens opening inner closing ih => exact ih member
  | binary op left place right leftIH rightIH =>
      have joined
          : failure ∈ ((left.verdict scopes).join (right.verdict scopes)).failures →
            failure.ReportsFault :=
        fun member => (List.mem_append.mp member).elim leftIH rightIH
      rw [verdict] at member
      split at member
      · exact Verdict.reportsFault_of_mem_settle joined member
      · exact joined member

/-- Every failure of a tree is an error. -/
theorem ExprTree.isError_of_mem_failures {scopes : ScopeStack} {tree : ExprTree}
    {failure : Diagnostic} (member : failure ∈ (tree.verdict scopes).failures)
    : failure.isError := by
  obtain ⟨fault, location, rfl⟩ := reportsFault_of_mem_failures member
  rfl

/-- No failure of a tree is about the form of the expression. -/
theorem ExprTree.code_ne_syntactic_of_mem_failures {scopes : ScopeStack} {tree : ExprTree}
    {failure : Diagnostic} (member : failure ∈ (tree.verdict scopes).failures)
    : failure.code ≠ .syntactic := by
  obtain ⟨fault, location, rfl⟩ := reportsFault_of_mem_failures member
  cases fault <;> simp [TypeFault.report, TypeFault.reportedAs]

-----------------------------------------------------------------------------------------
-- A parser that follows a stack of trees
-----------------------------------------------------------------------------------------

/-- The parser has the stack of these trees, has reported their failures and, if there are none,
has added their code.
-/
structure Tracks (scopes : ScopeStack) (parser : Parser) (trees : Shape ExprTree) : Prop where
  stack : parser.stack = (trees.map (ExprTree.reduced scopes)).stack
  diagnostics : parser.diagnostics = ({} : DiagnosticQueue).addAll (trees.failures scopes)
  code : trees.failures scopes = [] → parser.code = trees.code scopes

namespace Tracks

variable {scopes : ScopeStack} {parser : Parser} {trees : Shape ExprTree}

/-- A new parser follows the empty stack. -/
theorem start (scopes : ScopeStack) : Tracks scopes {} {} :=
  ⟨rfl, rfl, fun _ => rfl⟩

theorem top (tracks : Tracks scopes parser trees) : parser.stack.top = trees.category := by
  rw [tracks.stack, Shape.top_stack, Shape.category_map]

theorem expectsOperand (tracks : Tracks scopes parser trees)
    : parser.stack.expectsOperand = (trees.top?.isNone && !trees.category.endsOperand) := by
  rw [tracks.stack, Shape.expectsOperand_stack, Shape.category_map, Shape.top?_map,
    Option.isNone_map]

/-- The first error is the first failure of the trees. -/
theorem firstError (tracks : Tracks scopes parser trees)
    : parser.diagnostics.firstError
      = ⟨(trees.failures scopes).head?.map Diagnostic.code⟩ := by
  rw [tracks.diagnostics]
  apply DiagnosticQueue.firstError_addAll_errors
  intro failure member
  obtain ⟨layers, base?⟩ := trees
  rcases List.mem_append.mp member with inBase | inLayers
  · cases base? with
    | none => simp at inBase
    | some tree => exact ExprTree.isError_of_mem_failures inBase
  · obtain ⟨layer, _, inLayer⟩ := List.mem_flatMap.mp inLayers
    cases operand : layer.operand? with
    | none => simp [operand] at inLayer
    | some tree => exact ExprTree.isError_of_mem_failures (by simpa [operand] using inLayer)

theorem hasErrors_iff (tracks : Tracks scopes parser trees)
    : parser.diagnostics.hasErrors = true ↔ trees.failures scopes ≠ [] := by
  rw [DiagnosticQueue.hasErrors, FirstError.isSet, tracks.firstError]
  cases trees.failures scopes <;> simp

/-- A token that starts a handle goes on top of the trees. -/
theorem shift (tracks : Tracks scopes parser trees) {token : Token}
    (notPair : ¬(trees.category = .openParen ∧ Category.ofKind token.kind = .closeParen))
    : Tracks scopes { parser with stack := parser.stack.mark.pushToken token }
        (trees.push token) where
  stack := by
    rw [tracks.stack, Shape.map_push]
    exact Shape.stack_mark_pushToken (by simpa using notPair)
  diagnostics := by
    simpa [Shape.failures, Shape.gather_push] using tracks.diagnostics
  code := by
    simpa [Shape.failures, Shape.code, Shape.gather_push] using tracks.code

/-- A closing parenthesis goes on top of the trees. -/
theorem close (tracks : Tracks scopes parser trees) {token : Token}
    (opening : trees.category = .openParen)
    (closing : Category.ofKind token.kind = .closeParen)
    : Tracks scopes { parser with stack := parser.stack.pushToken token }
        (trees.push token) where
  stack := by
    rw [tracks.stack, Shape.map_push]
    exact Shape.stack_pushToken (by simpa using opening) closing
  diagnostics := by
    simpa [Shape.failures, Shape.gather_push] using tracks.diagnostics
  code := by
    simpa [Shape.failures, Shape.code, Shape.gather_push] using tracks.code

/-- Reducing a handle puts the tree it forms in its place, if the failures and the code of the
tree are those of the handle and of the reduction.
-/
theorem reduce (tracks : Tracks scopes parser trees) {below : Shape ExprTree}
    {tree : ExprTree} {handle : List StackItem} {operands : Verdict}
    (free : below.top? = none) (notBottom : trees.category ≠ .finish)
    (cut : (trees.map (ExprTree.reduced scopes)).cut
      = (handle, below.map (ExprTree.reduced scopes)))
    (settles : (Reduction.ofHandle scopes handle).Settles operands (tree.verdict scopes)
      tree.isZero)
    (code : trees.code scopes = below.code scopes ++ operands.code)
    (failures : trees.failures scopes = below.failures scopes ++ operands.failures)
    : Tracks scopes (parser.reduce scopes) (below.setTop (some tree)) := by
  have popped
      : parser.stack.popHandle = (handle, (below.map (ExprTree.reduced scopes)).stack) := by
    rw [tracks.stack, Shape.popHandle_stack (by simpa using notBottom), cut]
  have allFailures
      : (below.setTop (some tree)).failures scopes
        = trees.failures scopes ++ (Reduction.ofHandle scopes handle).problem?.toList := by
    rw [Shape.failures, Shape.gather_setTop _ _ free, settles.failures, failures,
      List.append_assoc]
    rfl
  have allCode
      : (below.setTop (some tree)).code scopes
        = trees.code scopes ++ (Reduction.ofHandle scopes handle).code := by
    rw [Shape.code, Shape.gather_setTop _ _ free, settles.code, code, List.append_assoc]
    rfl
  -- The stack, the diagnostics, and the code; code is added only as long as nothing failed.
  refine ⟨?_, ?_, ?_⟩
  · simp only [Parser.reduce, popped, settles.operand, Shape.map_setTop, Option.map_some]
    exact Shape.stack_pushReduced (by simp [free]) _
  · rw [allFailures]
    simp only [Parser.reduce, popped, tracks.diagnostics]
    cases (Reduction.ofHandle scopes handle).problem? <;>
      simp [DiagnosticQueue.addAll]
  · intro sound
    rw [allFailures] at sound
    obtain ⟨soundBefore, _⟩ := List.append_eq_nil_iff.mp sound
    have noErrors : parser.diagnostics.hasErrors = false := by
      rw [← Bool.not_eq_true, tracks.hasErrors_iff]
      simp [soundBefore]
    simp only [Parser.reduce, popped, noErrors, tracks.code soundBefore, allCode]
    rfl

/-- A token that closes no parenthesis forms a handle with the trees on its two sides. -/
theorem cut_map_push (scopes : ScopeStack) {below : Shape ExprTree} (free : below.top? = none)
    {token : Token} (noPair : Category.ofKind token.kind ≠ .closeParen)
    (left? right? : Option ExprTree)
    : ((((below.setTop left?).push token).setTop right?).map (ExprTree.reduced scopes)).cut
      = (operandItems (left?.map (ExprTree.reduced scopes))
            ++ .terminal { token } :: operandItems (right?.map (ExprTree.reduced scopes)),
          below.map (ExprTree.reduced scopes)) := by
  rw [Shape.map_setTop, Shape.map_push, Shape.map_setTop, Shape.cut_push (by simp [noPair])]
  simp [Shape.cutUnder, Layer.handle, Shape.setTop_of_top?_eq, free]

/-- A pair of parentheses forms a handle with the tree between them. -/
theorem cut_map_parens (scopes : ScopeStack) {below : Shape ExprTree}
    (free : below.top? = none) {opening closing : Token} (pair : isPair opening closing)
    (inner : ExprTree)
    : ((((below.push opening).setTop (some inner)).push closing).map
          (ExprTree.reduced scopes)).cut
      = ([.terminal { token := opening }, .reduced (inner.reduced scopes),
            .terminal { token := closing }],
          below.map (ExprTree.reduced scopes)) := by
  have cut := Shape.cut_push_push pair (below.map (ExprTree.reduced scopes))
    (some (inner.reduced scopes)) none
  simpa [Shape.cutUnder, Layer.handle, Shape.setTop_of_top?_eq, free, operandItems] using cut

/-- A value on top becomes a leaf. -/
theorem reduce_primary {below : Shape ExprTree} {value : Primary} {place : Place}
    (free : below.top? = none)
    (tracks : Tracks scopes parser (below.push (place.token value.kind)))
    : Tracks scopes (parser.reduce scopes) (below.setTop (some (.primary value place))) := by
  have noPair : Category.ofKind (place.token value.kind).kind ≠ .closeParen := by simp
  have cut := cut_map_push scopes free noPair none none
  have handle
      : Reduction.ofHandle scopes [.terminal { token := place.token value.kind }]
        = .ofCheck place.location (checkPrimary scopes value) := by
    simp [Reduction.ofHandle, Production.ofHandle, Production.ofToken, Place.token]
  rw [Shape.setTop_of_top?_eq free] at cut
  refine tracks.reduce free (by simp) cut (handle ▸ Reduction.primary_settles scopes value place)
    ?_ ?_
  · simp [Shape.code, Shape.gather_push]
  · simp [Shape.failures, Shape.gather_push]

/-- An operand with an exclamation mark after it becomes one operand. -/
theorem reduce_notNil {below : Shape ExprTree} {operand : ExprTree} {place : Place}
    (free : below.top? = none)
    (tracks : Tracks scopes parser
      ((below.setTop (some operand)).push (place.token (.operator .bang))))
    : Tracks scopes (parser.reduce scopes) (below.setTop (some (operand.notNil place))) := by
  have noPair : Category.ofKind (place.token (.operator .bang)).kind ≠ .closeParen := by simp
  have cut := cut_map_push scopes free noPair (some operand) none
  have handle
      : Reduction.ofHandle scopes
          [.reduced (operand.reduced scopes), .terminal { token := place.token (.operator .bang) }]
        = .ofCheck place.location (checkNotNil (operand.reduced scopes)) := by
    rfl
  refine tracks.reduce free (by simp) cut
    (handle ▸ Reduction.notNil_settles scopes operand place) ?_ ?_
  · simp [Shape.code, Shape.gather_push, Shape.gather_setTop _ _ free]
  · simp [Shape.failures, Shape.gather_push, Shape.gather_setTop _ _ free]

/-- An operand in parentheses becomes one operand. -/
theorem reduce_parens {below : Shape ExprTree} {inner : ExprTree} {opening closing : Place}
    (free : below.top? = none)
    (tracks : Tracks scopes parser
      (((below.push (opening.token (.operator .openParen))).setTop (some inner)).push
        (closing.token (.operator .closeParen))))
    : Tracks scopes (parser.reduce scopes)
        (below.setTop (some (.parens opening inner closing))) := by
  have pair
      : isPair (opening.token (.operator .openParen)) (closing.token (.operator .closeParen)) :=
    rfl
  have handle
      : Reduction.ofHandle scopes
          [.terminal { token := opening.token (.operator .openParen) },
            .reduced (inner.reduced scopes),
            .terminal { token := closing.token (.operator .closeParen) }]
        = { operand := inner.reduced scopes } := by
    rfl
  have settles
      : ({ operand := inner.reduced scopes } : Reduction).Settles (inner.verdict scopes)
          ((ExprTree.parens opening inner closing).verdict scopes) inner.isZero :=
    ⟨rfl, (List.append_nil _).symm, (List.append_nil _).symm⟩
  refine tracks.reduce free (by simp) (cut_map_parens scopes free pair inner)
    (handle ▸ settles) ?_ ?_
  · simp [Shape.code, Shape.gather_push, Shape.gather_push_setTop]
  · simp [Shape.failures, Shape.gather_push, Shape.gather_push_setTop]

/-- Two operands with a binary operator between them become one operand. -/
theorem reduce_binary {below : Shape ExprTree} {op : BinaryOperator} {left right : ExprTree}
    {place : Place} (free : below.top? = none)
    (tracks : Tracks scopes parser
      (((below.setTop (some left)).push (place.token (.operator op.sign))).setTop (some right)))
    : Tracks scopes (parser.reduce scopes)
        (below.setTop (some (.binary op left place right))) := by
  have noPair : Category.ofKind (place.token (.operator op.sign)).kind ≠ .closeParen := by
    simp [Category.ne_closeParen_of_isOperator]
  have cut := cut_map_push scopes free noPair (some left) (some right)
  have handle
      : Reduction.ofHandle scopes
          [.reduced (left.reduced scopes),
            .terminal { token := place.token (.operator op.sign) },
            .reduced (right.reduced scopes)]
        = .ofCheck place.location
            (checkBinary op (left.reduced scopes) (right.reduced scopes)) := by
    simp [Reduction.ofHandle, Production.ofHandle, Production.ofInfix, Production.binaryOperator?,
      Place.token]
  refine tracks.reduce free (by simp [Category.ne_finish_of_isOperator]) cut
    (handle ▸ Reduction.binary_settles scopes op left right place) ?_ ?_
  · simp [Shape.code, Shape.gather_push_setTop, Shape.gather_setTop _ _ free, Verdict.join]
  · simp [Shape.failures, Shape.gather_push_setTop, Shape.gather_setTop _ _ free, Verdict.join]

end Tracks

end ExprCompiler

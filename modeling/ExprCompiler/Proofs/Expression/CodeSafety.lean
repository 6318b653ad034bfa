import ExprCompiler.Proofs.Expression.Errors
import ExprCompiler.Proofs.Expression.ReductionSafety
import ExprCompiler.Proofs.Lexical.TokenStream

/-! Safety of the code of expressions. Main statement: whatever the tokens are, the code that
parsing them adds never touches values that are not its own, and never applies an instruction
to values of the wrong type. If parsing reports no error, the code leaves one value of the type
of the expression.
-/

namespace ExprCompiler

namespace Parser

/-- The code so far runs on top of `base`. Until the first error, the operands on the stack
stand for the values that the code leaves, topmost first. An exclamation mark on the stack means
that nil never stands for a value.
-/
structure Safe (machine : Machine) (nilOccurs : Prop) (base : List Value) (parser : Parser)
    : Prop where
  code
    : machine.Reaches base.length parser.code base fun final =>
        parser.diagnostics.hasErrors = false →
          ∃ values, final = values ++ base
            ∧ List.Forall₂ (Value.Represents nilOccurs) values
                (parser.stack.items.filterMap StackItem.operand?)
  marks
    : ∀ token ∈ parser.stack.items.filterMap StackItem.token?,
        token.kind = .operator .bang → ¬nilOccurs

variable {machine : Machine} {nilOccurs : Prop} {base : List Value} {scopes : ScopeStack}
  {parser : Parser}

/-- What a handle takes off and what it leaves are the operands that were there. -/
theorem operands_popHandle (stack : ParseStack)
    : (stack.popHandle.1.filterMap StackItem.operand?).reverse
        ++ stack.popHandle.2.items.filterMap StackItem.operand?
      = stack.items.filterMap StackItem.operand? :=
  ParseStack.filterMap_splitHandle (fun _ _ => rfl) [] stack.items

/-- What a handle takes off and what it leaves are the tokens that were there. -/
theorem tokens_popHandle (stack : ParseStack)
    : (stack.popHandle.1.filterMap StackItem.token?).reverse
        ++ stack.popHandle.2.items.filterMap StackItem.token?
      = stack.items.filterMap StackItem.token? :=
  ParseStack.filterMap_splitHandle (fun _ _ => rfl) [] stack.items

/-- Before the first token there is no code and nothing on the stack. -/
theorem Safe.start (machine : Machine) (nilOccurs : Prop) (base : List Value)
    : Safe machine nilOccurs base {} where
  code := fun _ => ⟨[], rfl, .nil⟩
  marks := by
    intro token onStack
    cases onStack

/-- The values of two lists of operands are those of the first and those of the second. -/
theorem exists_append_of_forall₂ {values : List Value} {first second : List Reduced}
    (represented : List.Forall₂ (Value.Represents nilOccurs) values (first ++ second))
    : ∃ front back, values = front ++ back
        ∧ List.Forall₂ (Value.Represents nilOccurs) front first
        ∧ List.Forall₂ (Value.Represents nilOccurs) back second :=
  ⟨_, _, (List.take_append_drop first.length values).symm,
    List.forall₂_take_append values first second represented,
    List.forall₂_drop_append values first second represented⟩

/-- Reducing keeps the code safe. Before the first error, the values of the handle are on top of
those of the rest of the stack, and the code of the reduction replaces them.
-/
theorem Safe.reduce (safe : parser.Safe machine nilOccurs base)
    (types : machine.Types nilOccurs scopes)
    : (parser.reduce scopes).Safe machine nilOccurs base where
  marks := by
    intro token onStack
    apply safe.marks token
    rw [← tokens_popHandle]
    exact List.mem_append_right _ onStack
  code := by
    cases errors : parser.diagnostics.hasErrors with
    | true =>
        -- No code is added after the first error.
        have same : (parser.reduce scopes).code = parser.code := if_pos errors
        rw [same]
        refine safe.code.weaken ?_
        intro final _ sound
        simp [(sound_of_reduce sound).2] at errors
    | false =>
        have added
            : (parser.reduce scopes).code
              = parser.code ++ (Reduction.ofHandle scopes parser.stack.popHandle.1).code := by
          simp [Parser.reduce, errors]
        rw [added]
        refine safe.code.append ?_
        intro final mirrors
        obtain ⟨values, rfl, represented⟩ := mirrors errors
        -- The values of the handle are on top of those of the operands that stay.
        rw [← operands_popHandle] at represented
        obtain ⟨own, below, rfl, ofHandle, ofRest⟩ := exists_append_of_forall₂ represented
        have above : base.length ≤ (below ++ base).length := by simp
        have marks : ∀ token ∈ parser.stack.popHandle.1.filterMap StackItem.token?,
            token.kind = .operator .bang → ¬nilOccurs := by
          intro token inHandle
          apply safe.marks token
          rw [← tokens_popHandle]
          exact List.mem_append_left _ (List.mem_reverse.mpr inHandle)
        rw [List.append_assoc]
        refine (Reduction.reaches_ofHandle types above ofHandle marks).weaken ?_
        intro final leaves sound
        obtain ⟨value, rfl, fits⟩ := leaves (sound_of_reduce sound).1
        exact ⟨value :: below, rfl, .cons fits ofRest⟩

/-- Marking the topmost token changes nothing but marks, by induction on the items above it. -/
theorem filterMap_mark {α : Type} {view : StackItem → Option α}
    (unmarked : ∀ terminal marked, view (.terminal { terminal with marked })
      = view (.terminal terminal))
    (stack : ParseStack)
    : stack.mark.items.filterMap view = stack.items.filterMap view := by
  have marked {items changed : List StackItem} (found : ParseStack.markFirst? items = some changed)
      : changed.filterMap view = items.filterMap view := by
    induction items generalizing changed with
    | nil => cases found
    | cons item rest ih =>
        cases item with
        | terminal terminal =>
            cases found
            simp only [List.filterMap_cons, unmarked]
        | reduced operand =>
            obtain ⟨below, inRest, rfl⟩ := Option.map_eq_some_iff.mp found
            simp only [List.filterMap_cons, ih inRest]
  unfold ParseStack.mark
  split
  · next found => exact marked found
  · rfl

/-- A token on top keeps the code safe. -/
theorem Safe.push {stack : ParseStack} {token : Token}
    (safe : parser.Safe machine nilOccurs base)
    (sameOperands
      : stack.items.filterMap StackItem.operand?
        = parser.stack.items.filterMap StackItem.operand?)
    (sameTokens
      : stack.items.filterMap StackItem.token? = parser.stack.items.filterMap StackItem.token?)
    (fresh : token.kind = .operator .bang → ¬nilOccurs)
    : Safe machine nilOccurs base { parser with stack := stack.pushToken token } where
  code := by
    refine safe.code.weaken ?_
    intro final mirrors sound
    obtain ⟨values, isFinal, represented⟩ := mirrors sound
    exact ⟨values, isFinal, by rw [← sameOperands] at represented; exact represented⟩
  marks := by
    have onStack : (stack.pushToken token).items.filterMap StackItem.token?
        = token :: parser.stack.items.filterMap StackItem.token? := by
      rw [← sameTokens]
      rfl
    simp only [onStack, List.forall_mem_cons]
    exact ⟨fresh, safe.marks⟩

/-- After an error the stack no longer matters to the code. -/
theorem Safe.of_hasErrors {failed : Parser} (safe : parser.Safe machine nilOccurs base)
    (sameCode : failed.code = parser.code) (errors : failed.diagnostics.hasErrors = true)
    (marks : ∀ token ∈ failed.stack.items.filterMap StackItem.token?,
      token.kind = .operator .bang → ¬nilOccurs)
    : failed.Safe machine nilOccurs base where
  code := by
    rw [sameCode]
    refine safe.code.weaken ?_
    intro final _ sound
    simp [errors] at sound
  marks := marks

/-- One token keeps the code safe, by induction over the reductions before it. -/
theorem Safe.feed {token : Token} (safe : parser.Safe machine nilOccurs base)
    (types : machine.Types nilOccurs scopes)
    (fresh : token.kind = .operator .bang → ¬nilOccurs)
    : (feed scopes parser token).state.Safe machine nilOccurs base := by
  fun_induction Parser.feed scopes parser token with
  | case1 parser _ => exact safe
  | case2 parser _ _ _ => exact safe
  | case3 parser _ _ _ _ =>
      exact safe.push (filterMap_mark (fun _ _ => rfl) _) (filterMap_mark (fun _ _ => rfl) _) fresh
  | case4 parser _ _ _ _ => exact safe.push rfl rfl fresh
  | case5 parser _ _ _ _ ih => exact ih (safe.reduce types)
  | case6 parser _ _ _ _ _ =>
      refine safe.of_hasErrors rfl (hasErrors_report parser _ _) ?_
      intro token onStack
      cases onStack
  | case7 parser _ _ _ _ _ =>
      have pushed := safe.push (filterMap_mark (fun _ _ => rfl) _)
        (filterMap_mark (fun _ _ => rfl) _) fresh
      exact pushed.of_hasErrors rfl (hasErrors_report parser _ _) pushed.marks

/-- The code of a finished parse is safe, and without an error it leaves the one value of the
result.
-/
theorem Safe.finish (safe : parser.Safe machine nilOccurs base) (terminator : Token)
    : machine.Reaches base.length (parser.finish terminator).code base fun final =>
        (parser.finish terminator).status.isSet = false →
          ∃ value, final = value :: base
            ∧ value.Fits nilOccurs (parser.finish terminator).type := by
  cases result : parser.stack.result? with
  | none =>
      have errors := hasErrors_report parser .expectedExpression terminator.location
      simp only [Parser.finish, result]
      refine safe.code.weaken ?_
      intro final _ sound
      exact absurd errors (by simp [DiagnosticQueue.hasErrors, sound])
  | some operand =>
      have items : parser.stack.items = [.reduced operand] := by
        unfold ParseStack.result? at result
        split at result
        · next items => cases result; exact items
        · cases result
      simp only [Parser.finish, result]
      refine safe.code.weaken ?_
      intro final mirrors sound
      obtain ⟨values, rfl, represented⟩ := mirrors sound
      rw [items] at represented
      obtain _ | ⟨fits, ⟨⟩⟩ := represented
      exact ⟨_, rfl, fits.2⟩

/-- Parsing keeps the code safe, by induction over the tokens. -/
theorem Safe.parseFrom {Source : Type} [TokenSource Source] {token : Token}
    {source rest : Source} {outcome : ExprOutcome}
    (safe : parser.Safe machine nilOccurs base) (types : machine.Types nilOccurs scopes)
    (fresh : ∀ read next, Reads source read next → ∀ following ∈ token :: read,
      following.kind = .operator .bang → ¬nilOccurs)
    (parsed : parseFrom scopes parser token source = (outcome, rest))
    : machine.Reaches base.length outcome.code base fun final =>
        outcome.status.isSet = false →
          ∃ value, final = value :: base ∧ value.Fits nilOccurs outcome.type := by
  have stepped := safe.feed types (fresh [] source .nil token List.mem_cons_self)
  fun_induction Parser.parseFrom scopes parser token source with
  | case1 parser token source ended progress =>
      obtain ⟨rfl, rfl⟩ := Prod.mk.inj parsed
      rw [progress] at stepped
      exact stepped.finish token
  | case2 parser token source advanced progress error rest reading =>
      obtain ⟨rfl, rfl⟩ := Prod.mk.inj parsed
      rw [progress] at stepped
      refine stepped.code.weaken ?_
      intro final _ sound
      simp [abort, FirstError.isSet] at sound
  | case3 parser token source advanced progress following rest reading ih =>
      rw [progress] at stepped
      have freshRest : ∀ read next, Reads rest read next → ∀ token ∈ following :: read,
          token.kind = .operator .bang → ¬nilOccurs := by
        intro read next reads token inStream
        exact fresh _ next (.cons reading reads) token (List.mem_cons_of_mem _ inStream)
      exact ih stepped freshRest parsed
        (stepped.feed types (freshRest [] rest .nil following List.mem_cons_self))

end Parser

/-- Run on any stack, the code of an expression never touches the values that were there before,
and never applies an instruction to values of the wrong type; the only trap is a division by
zero. This holds for all tokens and for all values of the variables that respect their
declarations; with an exclamation mark among the tokens, variables must not hold nil. If the
parse reports no error and nothing traps, exactly one value is added. It is of the type of the
expression, and not nil unless the type says so.
-/
theorem parseExpression_code_safe {Source : Type} [TokenSource Source] {scopes : ScopeStack}
    {first : Token} {source rest : Source} {outcome : ExprOutcome} {machine : Machine}
    (parsed : parseExpression scopes first source = (outcome, rest))
    (declares : scopes.DeclaresValues) (respects : machine.Respects scopes)
    (noNil : (∃ read next, Reads source read next
      ∧ ∃ token ∈ first :: read, token.kind = .operator .bang) → machine.HoldsNoNil scopes)
    (base : List Value)
    : match machine.run base.length outcome.code base with
      | .error trap => trap = .divisionByZero
      | .ok final =>
          outcome.status.isSet = false →
            ∃ value, final = value :: base
              ∧ (value.type = outcome.type.base ∨ (value = .nil ∧ outcome.type.nilable = true))
              ∧ (outcome.type.mayBeNil = false → value ≠ .nil) := by
  have types := respects.types declares (fun always => noNil (Classical.not_not.mp always))
  have runs := (Parser.Safe.start machine _ base).parseFrom types
    (fun read next reads token inStream isBang occurs =>
      occurs ⟨read, next, reads, token, inStream, isBang⟩) parsed
  unfold Machine.Reaches at runs
  split
  · next trap ran =>
      rw [ran] at runs
      exact runs
  · next final ran =>
      rw [ran] at runs
      intro sound
      obtain ⟨value, rfl, fits⟩ := runs sound
      refine ⟨value, rfl, fits.imp_right fun ⟨isNil, nilable, _⟩ => ⟨isNil, nilable⟩, ?_⟩
      intro noNil
      obtain ⟨notNilable, notNil⟩ : outcome.type.nilable = false ∧ outcome.type.base ≠ .nil := by
        simpa [ExprType.mayBeNil] using noNil
      rintro rfl
      exact notNil (fits.type_eq notNilable).symm

/-- The code of `count! * 2.5` on a stack with one value, where `count` may be nil but is 4. -/
theorem parseExpression_code_safe_unwrapped
    : let token := Place.token {}
      let count : Symbol :=
        { name := "count", uid := 7, kind := .integer, nilable := true, initialized := true }
      let scopes : ScopeStack := ⟨[{ slots := #[.occupied count], count := 1 }]⟩
      let first := token (.identifier "count")
      let source := Lookahead.ofList
        [token (.operator .bang), token (.operator .star), token (.double (.ofRatio false 5 2))]
      let machine : Machine :=
        { valueOf := fun _ _ _ => .int 4
          ints := fun _ left _ => left
          floats := fun _ left _ => left
          toFloat := fun value => .ofRatio false value.toNatClampNeg 1
          compare := fun _ left right => left = right }
      let outcome := (parseExpression scopes first source).1
      scopes.DeclaresValues ∧ machine.Respects scopes ∧ machine.HoldsNoNil scopes
        ∧ outcome.status.isSet = false
        ∧ match machine.run 1 outcome.code [.nil] with
          | .error trap => trap = .divisionByZero
          | .ok final =>
              outcome.status.isSet = false →
                ∃ value, final = value :: [.nil]
                  ∧ (value.type = outcome.type.base
                    ∨ (value = .nil ∧ outcome.type.nilable = true))
                  ∧ (outcome.type.mayBeNil = false → value ≠ .nil) := by
  intro token count scopes first source machine outcome
  have declared {symbol : Symbol} {frame : SymbolTable} (inFrames : frame ∈ scopes.frames)
      (inFrame : symbol ∈ frame.symbols)
      : symbol = count := by
    obtain rfl := List.mem_singleton.mp inFrames
    exact List.mem_singleton.mp inFrame
  have found {name : String} {symbol : Symbol} {depth : Nat}
      (found : scopes.getInitialized name = .ok (symbol, depth))
      : symbol = count := by
    obtain ⟨_, frame, inFrames, inFrame⟩ :=
      (ScopeStack.getInitialized_eq_ok_iff.mp found).exists_mem
    exact declared inFrames inFrame
  have declares : scopes.DeclaresValues := by
    intro frame inFrames symbol inFrame _ _
    rw [declared inFrames inFrame]
    rfl
  have respects : machine.Respects scopes := by
    intro name symbol depth resolved _
    rw [found resolved]
    exact .inl rfl
  have noNil : machine.HoldsNoNil scopes := by
    intro name symbol depth _ _ isNil
    cases isNil
  have sound : outcome.status.isSet = false := by decide +kernel
  exact ⟨declares, respects, noNil, sound,
    parseExpression_code_safe rfl declares respects (fun _ => noNil) [.nil]⟩

end ExprCompiler

import ExprCompiler.Proofs.Expression.CodeSafety
import ExprCompiler.Proofs.Expression.ErrorEvents
import ExprCompiler.Proofs.Expression.Terminator
import ExprCompiler.Proofs.Report.QueueHistory

/-! Where the errors of an expression are. Main statement: every parse of tokens without a fault
ends at the token that their kinds call for, and each of its diagnostics stands at a token that it
read.
-/

namespace ExprCompiler

namespace ParseStack

/-- Whether the topmost token in a list of items is marked. -/
def topMarked : List StackItem → Bool
  | [] => false
  | .terminal terminal :: _ => terminal.marked
  | .reduced _ :: rest => topMarked rest

/-- The token that a handle stops at loses its mark, by induction on the items. -/
theorem topMarked_splitHandle (handle items : List StackItem)
    : topMarked (splitHandle handle items).2 = false := by
  fun_induction splitHandle handle items with
  | case1 | case3 => rfl
  | case2 _ _ _ ih => exact ih
  | case4 _ _ _ _ _ ih => exact ih

/-- What is in a handle stays in it, by induction on the items. -/
theorem mem_splitHandle {item : StackItem} {handle items : List StackItem} (member : item ∈ handle)
    : item ∈ (splitHandle handle items).1 := by
  fun_induction splitHandle handle items with
  | case1 | case3 => exact member
  | case2 _ _ _ ih => exact ih (List.mem_cons_of_mem _ member)
  | case4 _ _ _ _ _ ih => exact ih (List.mem_cons_of_mem _ member)

/-- A handle holds the topmost token unless that is marked, by induction on the items above it. -/
theorem tokens_splitHandle_ne_nil {items : List StackItem} (unmarked : topMarked items = false)
    (notEnd : topCategory items ≠ .finish) (handle : List StackItem)
    : (splitHandle handle items).1.filterMap StackItem.token? ≠ [] := by
  induction items generalizing handle with
  | nil => exact absurd rfl notEnd
  | cons item rest ih =>
      cases item with
      | reduced operand => exact ih unmarked notEnd _
      | terminal terminal =>
          have goesOn : (terminal.marked && !handle.isEmpty) = false := by
            rw [show terminal.marked = false from unmarked, Bool.false_and]
          rw [splitHandle, goesOn]
          refine List.ne_nil_of_mem (a := terminal.token) ?_
          exact List.mem_filterMap.mpr ⟨_, mem_splitHandle List.mem_cons_self, rfl⟩

end ParseStack

/-- Whether an event is reported at one of some tokens. -/
def ErrorEvent.IsAtOneOf (tokens : List Token) (event : ErrorEvent) : Prop :=
  ∃ token ∈ tokens, event.diagnostic.location? = some token.location

/-- The place of a production that is checked. -/
def Production.location? : Production → Option Location
  | .primary _ location | .notNil _ location | .binary _ _ _ location => some location
  | .parens _ | .malformed _ => none

/-- A production is checked at a token of its handle, by the possible shapes. -/
theorem Production.exists_token_of_location? {handle : List StackItem} {location : Location}
    (checked : (ofHandle handle).location? = some location)
    : ∃ token ∈ handle.filterMap StackItem.token?, token.location = location := by
  revert checked
  fun_cases ofHandle handle with
  | case1 terminal =>
      intro checked
      refine ⟨terminal.token, List.mem_cons_self, ?_⟩
      unfold ofToken at checked
      split at checked
      · exact Option.some.inj checked
      · cases checked
  | case2 operand terminal =>
      intro checked
      refine ⟨terminal.token, List.mem_cons_self, ?_⟩
      unfold ofPostfix at checked
      split at checked
      · exact Option.some.inj checked
      · split at checked <;> cases checked
  | case5 left terminal right =>
      intro checked
      refine ⟨terminal.token, List.mem_cons_self, ?_⟩
      unfold ofInfix at checked
      split at checked
      · exact Option.some.inj checked
      · cases checked
  | case3 | case4 | case6 | case7 | case8 =>
      intro checked
      cases checked

theorem location?_of_checkEvent? {location : Location} {check : Except TypeFault Checked}
    {event : ErrorEvent} (fails : checkEvent? location check = some event)
    : event.diagnostic.location? = some location := by
  cases check with
  | ok checked => cases fails
  | error fault =>
      cases fails
      rfl

/-- The place of a handle is that of its first token, by induction on the handle. -/
theorem handleLocation?_eq (handle : List StackItem)
    : handleLocation? handle = (handle.filterMap StackItem.token?).head?.map Token.location := by
  induction handle with
  | nil => rfl
  | cons item rest ih =>
      cases item with
      | terminal terminal => rfl
      | reduced operand => exact ih

/-- The event of a handle with a token is at one of its tokens, by the shape of the handle. -/
theorem isAtOneOf_of_handleEvent? {scopes : ScopeStack} {handle : List StackItem}
    {event : ErrorEvent} (fails : handleEvent? scopes handle = some event)
    (hasToken : handle.filterMap StackItem.token? ≠ [])
    : event.IsAtOneOf (handle.filterMap StackItem.token?) := by
  have ofCheck {location : Location} {check : Except TypeFault Checked}
      (fails : checkEvent? location check = some event)
      (checked : (Production.ofHandle handle).location? = some location)
      : event.IsAtOneOf (handle.filterMap StackItem.token?) := by
    obtain ⟨token, member, rfl⟩ := Production.exists_token_of_location? checked
    exact ⟨token, member, location?_of_checkEvent? fails⟩
  unfold handleEvent? at fails
  cases shape : Production.ofHandle handle with rw [shape] at fails
  | primary value location => exact ofCheck fails (by rw [shape]; rfl)
  | notNil operand location => exact ofCheck fails (by rw [shape]; rfl)
  | parens inner => cases fails
  | binary op left right location => exact ofCheck fails (by rw [shape]; rfl)
  | malformed fault =>
      obtain ⟨token, later, tokens⟩ := List.exists_cons_of_ne_nil hasToken
      cases poisoned : isPoisoned handle with simp only [poisoned] at fails
      | true => cases fails
      | false =>
          obtain rfl := Option.some.inj fails
          refine ⟨token, by simp [tokens], ?_⟩
          exact (handleLocation?_eq handle).trans (by rw [tokens]; rfl)

namespace Parser

/-- A parser holds only tokens that were read, and a handle starts above none but those below the
topmost one.
-/
structure HoldsOnly (read : List Token) (parser : Parser) : Prop where
  tokens : ∀ token ∈ parser.stack.items.filterMap StackItem.token?, token ∈ read
  unmarked : ParseStack.topMarked parser.stack.items = false

variable {scopes : ScopeStack} {parser : Parser} {read : List Token} {token : Token}

theorem HoldsOnly.start (read : List Token) : HoldsOnly read {} where
  tokens := by
    intro token member
    cases member
  unmarked := rfl

theorem HoldsOnly.reduce (holds : parser.HoldsOnly read)
    : (parser.reduce scopes).HoldsOnly read where
  tokens := by
    intro token member
    apply holds.tokens token
    rw [← tokens_popHandle]
    exact List.mem_append_right _ member
  unmarked := ParseStack.topMarked_splitHandle [] parser.stack.items

/-- The event of a reduction is at a token that was read. -/
theorem HoldsOnly.isAtOneOf (holds : parser.HoldsOnly read) (notEnd : parser.stack.top ≠ .finish)
    {event : ErrorEvent} (fails : handleEvent? scopes parser.stack.popHandle.1 = some event)
    : event.IsAtOneOf read := by
  have hasToken := ParseStack.tokens_splitHandle_ne_nil holds.unmarked notEnd []
  obtain ⟨token, member, place⟩ := isAtOneOf_of_handleEvent? fails hasToken
  refine ⟨token, holds.tokens token ?_, place⟩
  rw [← tokens_popHandle]
  exact List.mem_append_left _ (List.mem_reverse.mpr member)

theorem HoldsOnly.pushToken (holds : parser.HoldsOnly read) (inRead : token ∈ read)
    {stack : ParseStack}
    (same : stack.items.filterMap StackItem.token? = parser.stack.items.filterMap StackItem.token?)
    : HoldsOnly read { parser with stack := stack.pushToken token } where
  tokens := by
    have onStack : (stack.pushToken token).items.filterMap StackItem.token?
        = token :: parser.stack.items.filterMap StackItem.token? := by
      rw [← same]
      rfl
    rw [onStack]
    exact List.forall_mem_cons.mpr ⟨inRead, holds.tokens⟩
  unmarked := rfl

/-- Taking a token leaves only tokens that were read, by induction over the reductions before
it.
-/
theorem HoldsOnly.feed (holds : parser.HoldsOnly read) (inRead : token ∈ read)
    : (Parser.feed scopes parser token).state.HoldsOnly read := by
  fun_induction Parser.feed scopes parser token with
  | case1 | case2 => exact holds
  | case3 => exact holds.pushToken inRead (filterMap_mark (fun _ _ => rfl) _)
  | case4 => exact holds.pushToken inRead rfl
  | case5 parser _ _ _ _ ih => exact ih holds.reduce
  | case6 =>
      refine ⟨?_, rfl⟩
      intro token member
      cases member
  | case7 parser _ _ _ _ _ =>
      have pushed := holds.pushToken inRead (filterMap_mark (fun _ _ => rfl) parser.stack)
      exact ⟨pushed.tokens, rfl⟩

/-- The events of a token are at tokens that were read, by induction over the reductions before
it.
-/
theorem HoldsOnly.isAtOneOf_feedEvents (holds : parser.HoldsOnly read) (inRead : token ∈ read)
    : ∀ event ∈ feedEvents scopes parser token, event.IsAtOneOf read := by
  fun_induction feedEvents scopes parser token with
  | case1 | case2 | case3 | case4 =>
      intro event member
      cases member
  | case5 parser _ _ _ decision ih =>
      intro event member
      rcases List.mem_append.mp member with ofHandle | later
      · exact holds.isAtOneOf (top_ne_finish_of_reduce decision) (Option.mem_toList.mp ofHandle)
      · exact ih holds.reduce event later
  | case6 parser _ _ _ _ =>
      intro event member
      obtain rfl := List.mem_singleton.mp member
      refine ⟨token, inRead, ?_⟩
      unfold refusal
      split <;> rfl

/-- The events of a parse are at the tokens that it reads, by induction on the tokens that it
takes.
-/
theorem HoldsOnly.isAtOneOf_parseEvents {Source : Type} [TokenSource Source]
    {advanced ended : Parser} {consumed following : List Token} {terminator : Token}
    {source rest : Source} (holds : parser.HoldsOnly read)
    (run : Consumes scopes parser consumed advanced)
    (ends : Parser.feed scopes advanced terminator = .done ended)
    (split : token :: following = consumed ++ [terminator]) (reads : Reads source following rest)
    (inRead : ∀ taken ∈ token :: following, taken ∈ read)
    : ∀ event ∈ parseEvents scopes parser token source, event.IsAtOneOf read := by
  induction run generalizing token source following with
  | nil =>
      obtain ⟨rfl, rfl⟩ : token = terminator ∧ following = [] := by simpa using split
      have firstInRead := inRead token List.mem_cons_self
      rw [parseEvents_of_done ends, List.forall_mem_append]
      refine ⟨holds.isAtOneOf_feedEvents firstInRead, ?_⟩
      unfold finishEvents
      split
      · intro event member
        cases member
      · exact List.forall_mem_singleton.mpr ⟨token, firstInRead, rfl⟩
  | cons step run ih =>
      obtain ⟨rfl, tail⟩ := List.cons.inj split
      obtain ⟨firstInRead, laterInRead⟩ := List.forall_mem_cons.mp inRead
      cases reads with
      | nil => simp at tail
      | cons reading reads =>
          have next : (Parser.feed scopes _ token).state.HoldsOnly read := holds.feed firstInRead
          rw [step] at next
          rw [parseEvents_of_more step reading, List.forall_mem_append]
          refine ⟨holds.isAtOneOf_feedEvents firstInRead, ?_⟩
          exact ih next ends tail reads laterInRead

end Parser

/-- A parse that reaches a terminator has a status of its own exactly if it hands out an error:
both say that there was an event.
-/
theorem isSet_status_parseExpression {Source : Type} [TokenSource Source] {scopes : ScopeStack}
    {first : Token} {source : Source}
    (reaches : (parseExpression scopes first source).1.terminator?.isSome)
    : (parseExpression scopes first source).1.status.isSet
      = (parseExpression scopes first source).1.diagnostics.any Diagnostic.isError := by
  rw [parseExpression] at reaches ⊢
  rw [Parser.diagnostics_parseFrom, Parser.status_parseFrom, if_pos reaches]
  simp only [DiagnosticQueue.firstError_addAll_errors fun _ => isError_of_mem_diagnosticsOf,
    DiagnosticQueue.flush_addAll_new]
  cases Parser.parseEvents scopes {} first source with
  | nil => simp [dropRepeats, FirstError.isSet]
  | cons event later =>
      refine (List.any_eq_true.mpr ⟨event.diagnostic, ?_, event.isError_diagnostic⟩).symm
      exact List.mem_mergeSort.mpr List.mem_cons_self

/-- Whatever is declared, and whatever is wrong with it, an expression ends at the token that the
kinds of its tokens call for. The tokens before that one are read, in order, and no other. It has
an error exactly if it hands one out, and each of its diagnostics is at a token that was read.
-/
theorem parseExpression_ends {Source : Type} [TokenSource Source] (scopes : ScopeStack)
    {first : Token} {tokens : List Token} {source rest : Source} (reads : Reads source tokens rest)
    (ends : ∃ token ∈ first :: tokens, token.kind ≠ .endOfLine
      ∧ Category.ofKind token.kind = .finish)
    : ∃ consumed terminator later following middle,
        first :: tokens = consumed ++ terminator :: later
        ∧ expressionLength? ((first :: tokens).map Token.kind) = some consumed.length
        ∧ first :: following = consumed ++ [terminator]
        ∧ Reads source following middle ∧ Reads middle later rest
        ∧ (parseExpression scopes first source).2 = middle
        ∧ (parseExpression scopes first source).1.terminator? = some terminator
        ∧ (parseExpression scopes first source).1.status.isSet
          = (parseExpression scopes first source).1.diagnostics.any Diagnostic.isError
        ∧ ∀ diagnostic ∈ (parseExpression scopes first source).1.diagnostics,
            ∃ token ∈ consumed ++ [terminator], diagnostic.location? = some token.location := by
  obtain ⟨ending, member, endsExpression⟩ := ends
  obtain ⟨length, found⟩ := Option.isSome_iff_exists.mp
    (isSome_lengthFrom? ⟨ending.kind, List.mem_map_of_mem member, endsExpression⟩ [])
  obtain ⟨consumed, terminator, later, advanced, ended, split, rfl, run, done⟩ :=
    Parser.follows_start.exists_consumes scopes found
  obtain ⟨following, isRead, rfl⟩
      : ∃ following,
          first :: following = consumed ++ [terminator] ∧ tokens = following ++ later := by
    cases consumed with
    | nil =>
        obtain ⟨rfl, rfl⟩ := List.cons.inj split
        exact ⟨[], rfl, rfl⟩
    | cons token consumed =>
        obtain ⟨rfl, rfl⟩ := List.cons.inj split
        exact ⟨consumed ++ [terminator], rfl, by simp⟩
  obtain ⟨middle, front, back⟩ := reads.split
  have parsed := run.parseFrom_eq done isRead front
  have reaches : (parseExpression scopes first source).1.terminator? = some terminator := by
    rw [parseExpression, parsed]
    rfl
  refine ⟨consumed, terminator, later, following, middle, split, found, isRead, front, back,
    congrArg Prod.snd parsed, reaches, isSet_status_parseExpression (by rw [reaches]; rfl), ?_⟩
  intro diagnostic handedOut
  rw [parseExpression, Parser.diagnostics_parseFrom] at handedOut
  simp only [DiagnosticQueue.flush_addAll_new, List.mem_mergeSort] at handedOut
  obtain ⟨event, happens, rfl⟩ := List.mem_map.mp (mem_of_mem_dropRepeats handedOut)
  exact (Parser.HoldsOnly.start _).isAtOneOf_parseEvents run done isRead front
    (fun token member => isRead ▸ member) event happens

/-- In an expression with an operator that lacks an operand and a closing parenthesis that was not
opened, the line break after the operator is skipped and the one after the parenthesis ends it.
-/
theorem parseExpression_ends_at_second_break
    : let one : Token := { kind := .int 1, location := ⟨1, 1⟩ }
      let tokens : List Token := [
        { kind := .operator .plus, location := ⟨1, 3⟩ },
        { kind := .endOfLine, location := ⟨1, 4⟩ },
        { kind := .operator .closeParen, location := ⟨2, 1⟩ },
        { kind := .endOfLine, location := ⟨2, 2⟩ },
        { kind := .endOfFile, location := ⟨3, 1⟩ }]
      (parseExpression {} one (Lookahead.ofList tokens)).1.terminator?
        = some { kind := .endOfLine, location := ⟨2, 2⟩ } := by
  intro one tokens
  have ends : ∃ token ∈ one :: tokens, token.kind ≠ .endOfLine
      ∧ Category.ofKind token.kind = .finish := by
    decide
  obtain ⟨consumed, terminator, later, -, -, split, found, -, -, -, -, reaches, -⟩ :=
    parseExpression_ends {} (Lookahead.reads_tokens tokens .start) ends
  have four : consumed.length = 4 := Option.some.inj (found.symm.trans (by decide))
  have fifth : (one :: tokens)[4]? = some terminator := by
    simp [split, ← four]
  exact reaches.trans fifth.symm

end ExprCompiler

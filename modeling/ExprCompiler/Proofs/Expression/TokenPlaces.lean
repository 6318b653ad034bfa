import Mathlib.Data.List.Forall2
import ExprCompiler.Proofs.Expression.ErrorEvents
import ExprCompiler.Proofs.Expression.Runs

/-! Parsing looks at the kinds of tokens, and their places only pass through it. Main statement:
parses of tokens that have the same kinds and related places give the same code, end alike, and have
the same errors at related places.
-/

namespace ExprCompiler

/-- Tokens of one kind at related places. -/
structure Token.Alike (place : Location → Location → Prop) (token other : Token) : Prop where
  kind : token.kind = other.kind
  location : place token.location other.location

/-- Problems with one code and message at related places. -/
structure Diagnostic.Alike (place : Location → Location → Prop) (diagnostic other : Diagnostic)
    : Prop where
  code : diagnostic.code = other.code
  message : diagnostic.message = other.message
  location? : Option.Rel place diagnostic.location? other.location?

/-- Events that are reported alike. -/
def ErrorEvent.Alike (place : Location → Location → Prop) (event other : ErrorEvent) : Prop :=
  event.diagnostic.Alike place other.diagnostic

/-- Items that hold the same, but for the places of tokens. -/
inductive StackItem.Alike (place : Location → Location → Prop) : StackItem → StackItem → Prop
  | terminal {terminal other : Terminal} (token : terminal.token.Alike place other.token)
    (marked : terminal.marked = other.marked)
    : StackItem.Alike place (.terminal terminal) (.terminal other)
  | reduced (operand : Reduced)
    : StackItem.Alike place (.reduced operand) (.reduced operand)

/-- Productions of one shape at related places. -/
inductive Production.Alike (place : Location → Location → Prop) : Production → Production → Prop
  | primary (value : Primary) {location other : Location} (related : place location other)
    : Production.Alike place (.primary value location) (.primary value other)
  | notNil (operand : Reduced) {location other : Location} (related : place location other)
    : Production.Alike place (.notNil operand location) (.notNil operand other)
  | parens (inner : Reduced)
    : Production.Alike place (.parens inner) (.parens inner)
  | binary (op : BinaryOperator) (left right : Reduced) {location other : Location}
    (related : place location other)
    : Production.Alike place (.binary op left right location) (.binary op left right other)
  | malformed (fault : ParseFault)
    : Production.Alike place (.malformed fault) (.malformed fault)

variable {place : Location → Location → Prop}

-----------------------------------------------------------------------------------------
-- Stacks
-----------------------------------------------------------------------------------------

theorem Terminal.category_alike {terminal other : Terminal}
    (alike : terminal.token.Alike place other.token)
    : terminal.category = other.category := by
  rw [category, category, alike.kind]

namespace ParseStack

variable {items others handle otherHandle : List StackItem}

theorem topCategory_alike (alike : List.Forall₂ (StackItem.Alike place) items others)
    : topCategory items = topCategory others := by
  induction alike with
  | nil => rfl
  | cons item _ ih =>
      cases item with
      | terminal token marked => exact Terminal.category_alike token
      | reduced operand => exact ih

theorem isEmpty_alike (alike : List.Forall₂ (StackItem.Alike place) items others)
    : items.isEmpty = others.isEmpty := by
  cases alike <;> rfl

theorem markFirst?_alike (alike : List.Forall₂ (StackItem.Alike place) items others)
    : Option.Rel (List.Forall₂ (StackItem.Alike place)) (markFirst? items) (markFirst? others) := by
  induction alike with
  | nil => exact .none
  | @cons _ _ rest otherRest item alike ih =>
      cases item with
      | terminal token marked => exact .some (.cons (.terminal token rfl) alike)
      | reduced operand =>
          rw [markFirst?, markFirst?]
          generalize markFirst? rest = first, markFirst? otherRest = second at ih ⊢
          cases ih with
          | none => exact .none
          | some marked => exact .some (.cons (.reduced operand) marked)

/-- Handles that are taken off are alike, and so is what is left, by induction on the items. -/
theorem splitHandle_alike (alike : List.Forall₂ (StackItem.Alike place) items others)
    (handles : List.Forall₂ (StackItem.Alike place) handle otherHandle)
    : List.Forall₂ (StackItem.Alike place) (splitHandle handle items).1
        (splitHandle otherHandle others).1
      ∧ List.Forall₂ (StackItem.Alike place) (splitHandle handle items).2
        (splitHandle otherHandle others).2 := by
  induction alike generalizing handle otherHandle with
  | nil => exact ⟨handles, .nil⟩
  | cons item rest ih =>
      cases item with
      | reduced operand => exact ih (.cons (.reduced operand) handles)
      | terminal token marked =>
          simp only [splitHandle, marked, isEmpty_alike handles]
          split
          · exact ⟨handles, .cons (.terminal token rfl) rest⟩
          · exact ih (.cons (.terminal token rfl) handles)

/-- Stacks of items that are alike. -/
structure Alike (place : Location → Location → Prop) (stack other : ParseStack) : Prop where
  items : List.Forall₂ (StackItem.Alike place) stack.items other.items
  bottomMarked : stack.bottomMarked = other.bottomMarked

variable {stack other : ParseStack}

namespace Alike

theorem top (alike : stack.Alike place other) : stack.top = other.top :=
  topCategory_alike alike.items

theorem expectsOperand (alike : stack.Alike place other)
    : stack.expectsOperand = other.expectsOperand := by
  cases stack
  cases other
  unfold ParseStack.expectsOperand
  cases alike.items with
  | nil => rfl
  | cons item _ =>
      cases item with
      | terminal token marked => simp only [Terminal.category_alike token]
      | reduced operand => rfl

theorem afterOperand (alike : stack.Alike place other)
    : stack.afterOperand = other.afterOperand := by
  cases stack
  cases other
  unfold ParseStack.afterOperand
  cases alike.items with
  | nil => rfl
  | cons item _ =>
      cases item with
      | terminal token marked => simp only [Terminal.category_alike token]
      | reduced operand => rfl

theorem result? (alike : stack.Alike place other) : stack.result? = other.result? := by
  cases stack
  cases other
  unfold ParseStack.result?
  rcases alike.items with _ | ⟨item, _ | ⟨_, _⟩⟩
  · rfl
  · cases item <;> rfl
  · cases item <;> rfl

theorem pushToken (alike : stack.Alike place other) {token otherToken : Token}
    (tokens : token.Alike place otherToken)
    : (stack.pushToken token).Alike place (other.pushToken otherToken) :=
  ⟨.cons (.terminal tokens rfl) alike.items, alike.bottomMarked⟩

theorem pushReduced (alike : stack.Alike place other) (operand : Reduced)
    : (stack.pushReduced operand).Alike place (other.pushReduced operand) :=
  ⟨.cons (.reduced operand) alike.items, alike.bottomMarked⟩

theorem mark (alike : stack.Alike place other) : stack.mark.Alike place other.mark := by
  have marked := markFirst?_alike alike.items
  unfold ParseStack.mark
  generalize markFirst? stack.items = first, markFirst? other.items = second at marked ⊢
  cases marked with
  | none => exact ⟨alike.items, rfl⟩
  | some items => exact ⟨items, alike.bottomMarked⟩

theorem popHandle (alike : stack.Alike place other)
    : List.Forall₂ (StackItem.Alike place) stack.popHandle.1 other.popHandle.1
      ∧ stack.popHandle.2.Alike place other.popHandle.2 := by
  obtain ⟨handles, rest⟩ := splitHandle_alike alike.items .nil
  refine ⟨handles, rest, ?_⟩
  simp only [ParseStack.popHandle, alike.bottomMarked, isEmpty_alike rest]

end Alike

end ParseStack

-----------------------------------------------------------------------------------------
-- Reductions
-----------------------------------------------------------------------------------------

namespace Production

theorem ofToken_alike {token other : Token} (alike : token.Alike place other)
    : (ofToken token).Alike place (ofToken other) := by
  unfold ofToken
  rw [alike.kind]
  split
  · exact .primary _ alike.location
  · exact .malformed _

theorem ofPostfix_alike (operand : Reduced) {terminal other : Terminal}
    (alike : terminal.token.Alike place other.token)
    : (ofPostfix operand terminal).Alike place (ofPostfix operand other) := by
  unfold ofPostfix
  rw [Terminal.category_alike alike]
  split
  · exact .notNil operand alike.location
  · split <;> exact .malformed _

theorem ofInfix_alike (left right : Reduced) {token other : Token} (alike : token.Alike place other)
    : (ofInfix left token right).Alike place (ofInfix left other right) := by
  unfold ofInfix binaryOperator?
  rw [alike.kind]
  split
  · exact .binary _ left right alike.location
  · exact .malformed _

theorem areParens_alike {left right otherLeft otherRight : Terminal}
    (isLeft : left.token.Alike place otherLeft.token)
    (isRight : right.token.Alike place otherRight.token)
    : areParens left right = areParens otherLeft otherRight := by
  rw [areParens, areParens, Terminal.category_alike isLeft, Terminal.category_alike isRight]

/-- Handles that are alike have the same shape, by the possible shapes. -/
theorem ofHandle_alike {handle other : List StackItem}
    (alike : List.Forall₂ (StackItem.Alike place) handle other)
    : (ofHandle handle).Alike place (ofHandle other) := by
  rcases alike with _ | ⟨first, _ | ⟨second, _ | ⟨third, _ | ⟨fourth, _⟩⟩⟩⟩
  · exact .malformed _
  · cases first with
    | terminal token marked => exact ofToken_alike token
    | reduced operand => exact .malformed _
  · cases first with
    | terminal token marked =>
        cases second with
        | terminal next nextMarked =>
            simp only [ofHandle, areParens_alike token next]
            exact .malformed _
        | reduced operand =>
            simp only [ofHandle, Terminal.category_alike token]
            exact .malformed _
    | reduced operand =>
        cases second with
        | terminal token marked => exact ofPostfix_alike operand token
        | reduced next => exact .malformed _
  · cases first with
    | terminal left leftMarked =>
        cases second with
        | terminal middle middleMarked => cases third <;> exact .malformed _
        | reduced inner =>
            cases third with
            | terminal right rightMarked =>
                simp only [ofHandle, areParens_alike left right]
                split
                · exact .parens inner
                · exact .malformed _
            | reduced operand => exact .malformed _
    | reduced left =>
        cases second with
        | terminal token marked =>
            cases third with
            | terminal next nextMarked => exact .malformed _
            | reduced right => exact ofInfix_alike left right token
        | reduced operand => cases third <;> exact .malformed _
  · cases first <;> cases second <;> cases third <;> exact .malformed _

end Production

theorem isPoisoned_alike {handle other : List StackItem}
    (alike : List.Forall₂ (StackItem.Alike place) handle other)
    : isPoisoned handle = isPoisoned other := by
  induction alike with
  | nil => rfl
  | cons item _ ih =>
      simp only [isPoisoned, List.any_cons] at ih ⊢
      rw [ih]
      cases item <;> rfl

theorem handleLocation?_alike {handle other : List StackItem}
    (alike : List.Forall₂ (StackItem.Alike place) handle other)
    : Option.Rel place (handleLocation? handle) (handleLocation? other) := by
  induction alike with
  | nil => exact .none
  | cons item _ ih =>
      cases item with
      | terminal token marked => exact .some token.location
      | reduced operand => exact ih

theorem checkEvent?_alike {location other : Location} (related : place location other)
    (check : Except TypeFault Checked)
    : Option.Rel (ErrorEvent.Alike place) (checkEvent? location check)
        (checkEvent? other check) := by
  cases check with
  | ok checked => exact .none
  | error fault => exact .some ⟨rfl, rfl, .some related⟩

/-- Handles that are alike fail alike, by their production. -/
theorem handleEvent?_alike (scopes : ScopeStack) {handle other : List StackItem}
    (alike : List.Forall₂ (StackItem.Alike place) handle other)
    : Option.Rel (ErrorEvent.Alike place) (handleEvent? scopes handle)
        (handleEvent? scopes other) := by
  have productions := Production.ofHandle_alike alike
  unfold handleEvent?
  rw [isPoisoned_alike alike]
  generalize Production.ofHandle handle = production, Production.ofHandle other = second
    at productions ⊢
  cases productions with
  | primary value related | notNil operand related | binary op left right related =>
      exact checkEvent?_alike related _
  | parens inner => exact .none
  | malformed fault =>
      dsimp only
      split
      · exact .none
      · exact .some ⟨rfl, rfl, handleLocation?_alike alike⟩

theorem Reduction.ofHandle_alike (scopes : ScopeStack) {handle other : List StackItem}
    (alike : List.Forall₂ (StackItem.Alike place) handle other)
    : (ofHandle scopes handle).operand = (ofHandle scopes other).operand
      ∧ (ofHandle scopes handle).code = (ofHandle scopes other).code := by
  have ofCheck (location other : Location) (check : Except TypeFault Checked)
      : (Reduction.ofCheck location check).operand = (Reduction.ofCheck other check).operand
        ∧ (Reduction.ofCheck location check).code = (Reduction.ofCheck other check).code := by
    cases check <;> exact ⟨rfl, rfl⟩
  have productions := Production.ofHandle_alike alike
  unfold ofHandle
  generalize Production.ofHandle handle = production, Production.ofHandle other = second
    at productions ⊢
  cases productions with
  | primary | notNil | binary => exact ofCheck _ _ _
  | parens inner | malformed fault => exact ⟨rfl, rfl⟩

-----------------------------------------------------------------------------------------
-- One token
-----------------------------------------------------------------------------------------

/-- Readings that are tokens alike, or the same fault at related places. -/
inductive Reading.Alike (place : Location → Location → Prop) : Reading → Reading → Prop
  | ok {token other : Token} (alike : token.Alike place other)
    : Reading.Alike place (.ok token) (.ok other)
  | error (fault : LexicalFault) {location other : Location} (related : place location other)
    : Reading.Alike place (.error ⟨fault, location⟩) (.error ⟨fault, other⟩)

/-- Related sources hand out tokens alike, and stay related. -/
def ReadsAlike {Source Other : Type} [TokenSource Source] [TokenSource Other]
    (place : Location → Location → Prop) (related : Source → Other → Prop) : Prop :=
  ∀ source other, related source other →
    Reading.Alike place (TokenSource.next source).1 (TokenSource.next other).1
    ∧ related (TokenSource.next source).2 (TokenSource.next other).2

namespace Parser

/-- Parsers with stacks that are alike, the same code so far, and an error known to both or to
neither.
-/
structure Alike (place : Location → Location → Prop) (parser other : Parser) : Prop where
  stack : parser.stack.Alike place other.stack
  code : parser.code = other.code
  hasErrors : parser.diagnostics.hasErrors = other.diagnostics.hasErrors

/-- Two parsers after a token that both are done or both want more. -/
inductive Progress.Alike (place : Location → Location → Prop) : Progress → Progress → Prop
  | more {parser other : Parser} (alike : parser.Alike place other)
    : Progress.Alike place (.more parser) (.more other)
  | done {parser other : Parser} (alike : parser.Alike place other)
    : Progress.Alike place (.done parser) (.done other)

variable {scopes : ScopeStack} {parser other : Parser} {token otherToken : Token}

theorem Alike.skips (alike : parser.Alike place other) (tokens : token.Alike place otherToken)
    : parser.skips token = other.skips otherToken := by
  rw [Parser.skips, Parser.skips, tokens.kind, alike.stack.expectsOperand]

theorem hasErrors_reduce (scopes : ScopeStack) (parser : Parser)
    : (parser.reduce scopes).diagnostics.hasErrors
      = (parser.diagnostics.hasErrors
        || (handleEvent? scopes parser.stack.popHandle.1).isSome) := by
  rw [diagnostics_reduce]
  cases handleEvent? scopes parser.stack.popHandle.1 with
  | none => simp
  | some event =>
      simp only [Option.toList_some, Option.isSome_some, Bool.or_true]
      exact DiagnosticQueue.hasErrors_add event.isError_diagnostic

theorem Alike.reduce (alike : parser.Alike place other)
    : (parser.reduce scopes).Alike place (other.reduce scopes) := by
  obtain ⟨handles, rest⟩ := alike.stack.popHandle
  obtain ⟨sameOperand, sameCode⟩ := Reduction.ofHandle_alike scopes handles
  refine { stack := ?_, code := ?_, hasErrors := ?_ }
  · simp only [Parser.reduce, sameOperand]
    exact rest.pushReduced _
  · simp only [Parser.reduce, sameCode, alike.code, alike.hasErrors]
  · have events := handleEvent?_alike scopes handles
    rw [hasErrors_reduce, hasErrors_reduce, alike.hasErrors]
    generalize handleEvent? scopes parser.stack.popHandle.1 = event,
      handleEvent? scopes other.stack.popHandle.1 = second at events ⊢
    cases events <;> rfl

theorem Alike.misplaced (alike : parser.Alike place other) (tokens : token.Alike place otherToken)
    : Parser.misplaced parser.stack token = Parser.misplaced other.stack otherToken := by
  rw [Parser.misplaced, Parser.misplaced, tokens.kind, alike.stack.afterOperand]

theorem Alike.giveUp (alike : parser.Alike place other) (token otherToken : Token)
    : (parser.giveUp token).Alike place (other.giveUp otherToken) where
  stack := ⟨.cons (.reduced _) .nil, rfl⟩
  code := alike.code
  hasErrors := (hasErrors_report ..).trans (hasErrors_report ..).symm

theorem Alike.recover (alike : parser.Alike place other) (tokens : token.Alike place otherToken)
    : (parser.recover token).Alike place (other.recover otherToken) where
  stack := (alike.stack.mark.pushToken tokens).pushReduced _
  code := alike.code
  hasErrors := (hasErrors_report ..).trans (hasErrors_report ..).symm

theorem Alike.refusal (alike : parser.Alike place other) (tokens : token.Alike place otherToken)
    : (parser.refusal token).Alike place (other.refusal otherToken) := by
  unfold Parser.refusal
  rw [tokens.kind, alike.stack.top, alike.misplaced tokens]
  split <;> exact ⟨rfl, rfl, .some tokens.location⟩

/-- The table decides alike for parsers that are alike. -/
theorem Alike.acts (alike : parser.Alike place other) (tokens : token.Alike place otherToken)
    {decided : Action} (moves : ¬parser.skips token = true)
    (notBoth : ¬(parser.stack.top = .finish ∧ Category.ofKind token.kind = .finish))
    (decision : action parser.stack.top (Category.ofKind token.kind) = decided)
    : Parser.feed scopes other otherToken = act scopes other otherToken decided
      ∧ feedEvents scopes other otherToken = actionEvents scopes other otherToken decided := by
  rw [alike.skips tokens] at moves
  rw [alike.stack.top, tokens.kind] at notBoth decision
  exact ⟨feed_eq_act_of_moves moves notBoth decision, feedEvents_eq moves notBoth decision⟩

/-- Parsers that are alike take tokens alike, with events that are alike. By induction over the
reductions before the token.
-/
theorem Alike.feed (alike : parser.Alike place other) (tokens : token.Alike place otherToken)
    : (Parser.feed scopes parser token).Alike place (Parser.feed scopes other otherToken)
      ∧ List.Forall₂ (ErrorEvent.Alike place) (feedEvents scopes parser token)
          (feedEvents scopes other otherToken) := by
  fun_induction Parser.feed scopes parser token generalizing other
  case case1 parser skipped =>
    have otherSkips := alike.skips tokens ▸ skipped
    rw [Parser.feed.eq_def scopes other, feedEvents.eq_def scopes parser,
      feedEvents.eq_def scopes other, if_pos skipped, if_pos otherSkips, if_pos otherSkips]
    exact ⟨.more alike, .nil⟩
  case case2 parser moves incoming ends =>
    have otherMoves := alike.skips tokens ▸ moves
    have otherEnds : other.stack.top = .finish ∧ Category.ofKind otherToken.kind = .finish :=
      ⟨alike.stack.top ▸ ends.1, tokens.kind ▸ ends.2⟩
    rw [Parser.feed.eq_def scopes other, feedEvents.eq_def scopes parser,
      feedEvents.eq_def scopes other, if_neg moves, if_neg otherMoves, if_neg otherMoves,
      if_pos ends, if_pos otherEnds, if_pos otherEnds]
    exact ⟨.done alike, .nil⟩
  case case3 parser moves incoming notBoth decision =>
    obtain ⟨feeds, events⟩ := alike.acts tokens moves notBoth decision
    rw [feeds, events, feedEvents_eq moves notBoth decision]
    exact ⟨.more { alike with stack := alike.stack.mark.pushToken tokens }, .nil⟩
  case case4 parser moves incoming notBoth decision =>
    obtain ⟨feeds, events⟩ := alike.acts tokens moves notBoth decision
    rw [feeds, events, feedEvents_eq moves notBoth decision]
    exact ⟨.more { alike with stack := alike.stack.pushToken tokens }, .nil⟩
  case case5 parser moves incoming notBoth decision ih =>
    obtain ⟨feeds, events⟩ := alike.acts tokens moves notBoth decision
    obtain ⟨later, laterEvents⟩ := ih alike.reduce
    rw [feeds, events, feedEvents_eq moves notBoth decision]
    refine ⟨later, List.rel_append ?_ laterEvents⟩
    have ofHandle := handleEvent?_alike scopes alike.stack.popHandle.1
    generalize handleEvent? scopes parser.stack.popHandle.1 = event,
      handleEvent? scopes other.stack.popHandle.1 = second at ofHandle ⊢
    cases ofHandle with
    | none => exact .nil
    | some events => exact .cons events .nil
  case case6 parser moves incoming notBoth decision isEnd =>
    obtain ⟨feeds, events⟩ := alike.acts tokens moves notBoth decision
    rw [feeds, events, feedEvents_eq moves notBoth decision, act, if_pos (tokens.kind ▸ isEnd)]
    exact ⟨.done (alike.giveUp token otherToken), .cons (alike.refusal tokens) .nil⟩
  case case7 parser moves incoming notBoth decision notEnd =>
    obtain ⟨feeds, events⟩ := alike.acts tokens moves notBoth decision
    rw [feeds, events, feedEvents_eq moves notBoth decision, act, if_neg (tokens.kind ▸ notEnd)]
    exact ⟨.more (alike.recover tokens), .cons (alike.refusal tokens) .nil⟩

-----------------------------------------------------------------------------------------
-- A whole parse
-----------------------------------------------------------------------------------------

theorem Alike.finishEvents (alike : parser.Alike place other)
    (tokens : token.Alike place otherToken)
    : List.Forall₂ (ErrorEvent.Alike place) (parser.finishEvents token)
        (other.finishEvents otherToken) := by
  unfold Parser.finishEvents
  rw [alike.stack.result?]
  split
  · exact .nil
  · exact .cons ⟨rfl, rfl, .some tokens.location⟩ .nil

theorem code_finish (parser : Parser) (terminator : Token)
    : (parser.finish terminator).code = parser.code := by
  unfold Parser.finish
  cases parser.stack.result? <;> rfl

/-- What two parses come to: the same code, terminators that are alike if there are any, and related
sources.
-/
structure EndsAlike {Source Other : Type} [TokenSource Source] [TokenSource Other]
    (place : Location → Location → Prop) (related : Source → Other → Prop)
    (result : ExprOutcome × Source) (otherResult : ExprOutcome × Other) : Prop where
  code : result.1.code = otherResult.1.code
  terminator? : Option.Rel (Token.Alike place) result.1.terminator? otherResult.1.terminator?
  source : related result.2 otherResult.2

/-- Parsers that are alike parse alike from sources that keep handing out tokens that are alike. By
induction over the tokens.
-/
theorem Alike.parseFrom {Source Other : Type} [TokenSource Source] [TokenSource Other]
    {related : Source → Other → Prop} (reads : ReadsAlike place related)
    (alike : parser.Alike place other) (tokens : token.Alike place otherToken)
    {source : Source} {otherSource : Other} (sources : related source otherSource)
    : EndsAlike place related (Parser.parseFrom scopes parser token source)
        (Parser.parseFrom scopes other otherToken otherSource)
      ∧ List.Forall₂ (ErrorEvent.Alike place) (parseEvents scopes parser token source)
          (parseEvents scopes other otherToken otherSource) := by
  fun_induction Parser.parseFrom scopes parser token source
    generalizing other otherToken otherSource with
  | case1 parser token source ended progress =>
      obtain ⟨steps, events⟩ := alike.feed tokens
      rw [progress] at steps
      generalize otherProgress : Parser.feed scopes other otherToken = otherStep at steps
      cases steps with
      | done finished =>
          rw [parseFrom_of_done otherProgress, parseEvents_of_done progress,
            parseEvents_of_done otherProgress]
          refine ⟨{ code := ?_, terminator? := .some tokens, source := sources },
            List.rel_append events (finished.finishEvents tokens)⟩
          rw [code_finish, code_finish, finished.code]
  | case2 parser token source advanced progress error rest reading =>
      obtain ⟨steps, events⟩ := alike.feed tokens
      obtain ⟨readings, rests⟩ := reads source otherSource sources
      rw [progress] at steps
      rw [reading] at readings rests
      generalize otherProgress : Parser.feed scopes other otherToken = otherStep at steps
      generalize otherReading : TokenSource.next otherSource = result at readings rests
      obtain ⟨result, otherRest⟩ := result
      cases steps with
      | more advances =>
          cases readings with
          | error fault place =>
              rw [parseFrom_of_error otherProgress otherReading,
                parseEvents_of_error progress reading,
                parseEvents_of_error otherProgress otherReading]
              refine ⟨{ code := advances.code, terminator? := .none, source := rests },
                List.rel_append events (.cons ⟨rfl, rfl, .some place⟩ .nil)⟩
  | case3 parser token source advanced progress following rest reading ih =>
      obtain ⟨steps, events⟩ := alike.feed tokens
      obtain ⟨readings, rests⟩ := reads source otherSource sources
      rw [progress] at steps
      rw [reading] at readings rests
      generalize otherProgress : Parser.feed scopes other otherToken = otherStep at steps
      generalize otherReading : TokenSource.next otherSource = result at readings rests
      obtain ⟨result, otherRest⟩ := result
      cases steps with
      | more advances =>
          cases readings with
          | ok nextTokens =>
              obtain ⟨ends, later⟩ := ih advances nextTokens rests
              rw [parseFrom_of_more otherProgress otherReading,
                parseEvents_of_more progress reading,
                parseEvents_of_more otherProgress otherReading]
              exact ⟨ends, List.rel_append events later⟩

end Parser

end ExprCompiler

import ExprCompiler.Proofs.Expression.ReductionSafety
import ExprCompiler.Proofs.Expression.StackShape
import Mathlib.Data.List.Chain

/-! The order of the parse stack, seen with its bottom as the lowest terminal. Every stack that has
a shape is in order. Main statement: in an ordered stack with a token, the topmost handle starts
above a marked terminal, which stays, and holds a token.
-/

namespace ExprCompiler

/-- What stands on a stack, its bottom included: a terminal that may be marked, or an operand. -/
inductive StackEntry where
  | terminal (category : Category) (marked : Bool)
  | operand (operand : Reduced)
deriving DecidableEq, Repr, Inhabited

namespace StackEntry

def isOperand : StackEntry → Bool
  | .operand _ => true
  | .terminal _ _ => false

/-- Whether a handle starts right above the entry. -/
def isMarked : StackEntry → Bool
  | .terminal _ marked => marked
  | .operand _ => false

/-- Clears the mark. -/
def unmark : StackEntry → StackEntry
  | .terminal category _ => .terminal category false
  | .operand reduced => .operand reduced

/-- The category and the mark of a terminal. -/
def terminal? : StackEntry → Option (Category × Bool)
  | .terminal category marked => some (category, marked)
  | .operand _ => none

end StackEntry

def StackItem.entry : StackItem → StackEntry
  | .terminal written => .terminal written.category written.marked
  | .reduced operand => .operand operand

namespace ParseStack

/-- All that stands on the stack, topmost first. The bottom is a terminal that ends expressions. -/
def entries (stack : ParseStack) : List StackEntry :=
  stack.items.map StackItem.entry ++ [.terminal .finish stack.bottomMarked]

/-- The terminals on the stack, topmost first. -/
def terminals (stack : ParseStack) : List (Category × Bool) :=
  stack.entries.filterMap StackEntry.terminal?

/-- A stack in order. Only its bottom ends expressions, no two operands stand next to each other,
and the topmost terminal is the only one without a mark, apart from an opening parenthesis right
under a closing one.
-/
structure Ordered (stack : ParseStack) : Prop where
  inside
    : ∀ token ∈ stack.items.filterMap StackItem.token?, Category.ofKind token.kind ≠ .finish
  separated
    : stack.entries.IsChain fun upper lower => ¬(upper.isOperand = true ∧ lower.isOperand = true)
  unmarked : ∀ topmost ∈ stack.terminals.head?, topmost.2 = false
  marked
    : stack.terminals.IsChain fun upper lower =>
        lower.2 = true ↔ ¬(lower.1 = .openParen ∧ upper.1 = .closeParen)

/-- The topmost handle is what stands above the terminal `start`, the topmost one with a mark.
Popping it takes just that, and what is left begins with `start`, without its mark.
-/
structure IsHandle (stack : ParseStack) (above : List StackItem) (start : StackEntry)
    (below : List StackEntry) : Prop where
  split : stack.entries = above.map StackItem.entry ++ start :: below
  marked : start.isMarked = true
  unmarked : ∀ item ∈ above, item.entry.isMarked = false
  holdsToken
    : ∃ token ∈ above.filterMap StackItem.token?, Category.ofKind token.kind ≠ .finish
  pops : stack.popHandle.1 = above.reverse
  leaves : stack.popHandle.2.entries = start.unmark :: below

/-- Items without a mark go to the handle as they are, by induction on them. -/
theorem splitHandle_append_of_unmarked {above : List StackItem}
    (unmarked : ∀ item ∈ above, item.entry.isMarked = false) (handle rest : List StackItem)
    : splitHandle handle (above ++ rest) = splitHandle (above.reverse ++ handle) rest := by
  induction above generalizing handle with
  | nil => rfl
  | cons item above ih =>
      obtain ⟨itemUnmarked, others⟩ := List.forall_mem_cons.mp unmarked
      have moves
          : splitHandle handle (item :: (above ++ rest))
            = splitHandle (item :: handle) (above ++ rest) := by
        cases item with
        | reduced operand => rfl
        | terminal terminal =>
            obtain ⟨token, marked⟩ := terminal
            obtain rfl : marked = false := itemUnmarked
            rfl
      rw [List.cons_append, moves, ih others, List.reverse_cons, List.append_assoc]
      rfl

/-- The entries above any one of them are items. This one is the bottom, or an item that the rest of
the items and the bottom follow.
-/
theorem exists_items_of_entries_eq {stack : ParseStack} {upper below : List StackEntry}
    {start : StackEntry} (split : stack.entries = upper ++ start :: below)
    : ∃ above, upper = above.map StackItem.entry
        ∧ (stack.items = above ∧ start = .terminal .finish stack.bottomMarked ∧ below = []
          ∨ ∃ item rest, stack.items = above ++ item :: rest ∧ start = item.entry
              ∧ below = rest.map StackItem.entry ++ [.terminal .finish stack.bottomMarked]) := by
  rcases List.eq_nil_or_concat' below with rfl | ⟨middle, last, rfl⟩
  · obtain ⟨items, bottom⟩ := List.append_inj' split rfl
    obtain rfl := List.singleton_inj.mp bottom
    exact ⟨stack.items, items.symm, .inl ⟨rfl, rfl, rfl⟩⟩
  · have atEnd
        : stack.entries = (upper ++ start :: middle) ++ [last] := by
      rw [split, List.append_assoc, List.cons_append]
    obtain ⟨items, bottom⟩ := List.append_inj' atEnd rfl
    obtain rfl := List.singleton_inj.mp bottom
    obtain ⟨above, tail, isItems, rfl, isTail⟩ := List.map_eq_append_iff.mp items
    obtain ⟨item, rest, rfl, rfl, rfl⟩ := List.map_eq_cons_iff.mp isTail
    exact ⟨above, rfl, .inr ⟨item, rest, isItems, rfl, rfl⟩⟩

/-- Without a mark above the bottom, popping takes all items. -/
theorem popHandle_of_unmarked {stack : ParseStack}
    (unmarked : ∀ item ∈ stack.items, item.entry.isMarked = false)
    : stack.popHandle.1 = stack.items.reverse
      ∧ stack.popHandle.2.entries = [.terminal .finish false] := by
  have split : splitHandle [] stack.items = (stack.items.reverse, []) := by
    have moved := splitHandle_append_of_unmarked unmarked [] []
    simpa [splitHandle] using moved
  simp [popHandle, split, entries]

/-- Popping takes what stands above the topmost mark, if anything does, and clears the mark. -/
theorem popHandle_of_marked {stack : ParseStack} {above rest : List StackItem} {item : StackItem}
    (isItems : stack.items = above ++ item :: rest) (marked : item.entry.isMarked = true)
    (unmarked : ∀ item ∈ above, item.entry.isMarked = false) (notEmpty : above ≠ [])
    : stack.popHandle.1 = above.reverse
      ∧ stack.popHandle.2.entries
        = item.entry.unmark
          :: (rest.map StackItem.entry ++ [.terminal .finish stack.bottomMarked]) := by
  cases item with
  | reduced operand => cases marked
  | terminal terminal =>
      have isMarked : terminal.marked = true := marked
      have split
          : splitHandle [] stack.items
            = (above.reverse, .terminal { terminal with marked := false } :: rest) := by
        rw [isItems, splitHandle_append_of_unmarked unmarked]
        simp [splitHandle, isMarked, notEmpty]
      simp [popHandle, split, entries, StackItem.entry, StackEntry.unmark, Terminal.category]

theorem terminals_eq (stack : ParseStack)
    : stack.terminals
      = (stack.items.map StackItem.entry).filterMap StackEntry.terminal?
        ++ [(.finish, stack.bottomMarked)] := by
  rw [terminals, entries, List.filterMap_append]
  rfl

/-- A stack with a token has a terminal above its bottom, by induction on the items. -/
theorem exists_terminal_of_top_ne {items : List StackItem} (notEnd : topCategory items ≠ .finish)
    : (items.map StackItem.entry).filterMap StackEntry.terminal? ≠ [] := by
  induction items with
  | nil => exact absurd rfl notEnd
  | cons item rest ih =>
      cases item with
      | terminal terminal => simp [StackItem.entry, StackEntry.terminal?]
      | reduced operand => exact ih notEnd

namespace Ordered

variable {stack : ParseStack}

/-- The bottom is marked as soon as there is a token, as no parenthesis opens there. -/
theorem bottomMarked (ordered : stack.Ordered) (notEnd : stack.top ≠ .finish)
    : stack.bottomMarked = true := by
  have chain := ordered.marked
  rw [terminals_eq, List.isChain_append] at chain
  have isLowest := List.getLast?_eq_some_getLast (exists_terminal_of_top_ne notEnd)
  exact (chain.2.2 _ isLowest _ rfl).mpr (by simp)

/-- What stands above the topmost mark holds a token, since the topmost terminal has no mark. -/
theorem exists_token_above (ordered : stack.Ordered) {above : List StackItem}
    {start : StackEntry} {below : List StackEntry}
    (split : stack.entries = above.map StackItem.entry ++ start :: below)
    (marked : start.isMarked = true)
    : ∃ token, token ∈ above.filterMap StackItem.token? := by
  by_contra! noToken
  have noTerminal : (above.map StackItem.entry).filterMap StackEntry.terminal? = [] := by
    rw [List.filterMap_map, List.filterMap_eq_nil_iff]
    intro item member
    cases item with
    | reduced operand => rfl
    | terminal terminal =>
        exact (noToken terminal.token (List.mem_filterMap.mpr ⟨_, member, rfl⟩)).elim
  cases start with
  | operand operand => cases marked
  | terminal category mark =>
      have topmost : stack.terminals.head? = some (category, mark) := by
        rw [terminals, split, List.filterMap_append, noTerminal]
        rfl
      have unmarked : mark = false := ordered.unmarked _ topmost
      simp [StackEntry.isMarked, unmarked] at marked

/-- With a token on the stack, the topmost handle starts above a marked terminal and holds a
token. The bottom is marked, so that there is a topmost mark.
-/
theorem exists_isHandle (ordered : stack.Ordered) (notEnd : stack.top ≠ .finish)
    : ∃ above start below, stack.IsHandle above start below := by
  have hasMark : (stack.entries.find? StackEntry.isMarked).isSome := by
    rw [List.find?_isSome]
    exact ⟨_, List.mem_append_right _ List.mem_cons_self, ordered.bottomMarked notEnd⟩
  obtain ⟨start, found⟩ := Option.isSome_iff_exists.mp hasMark
  obtain ⟨marked, upper, below, split, refused⟩ := List.find?_eq_some_iff_append.mp found
  obtain ⟨above, rfl, position⟩ := exists_items_of_entries_eq split
  have unmarked : ∀ item ∈ above, item.entry.isMarked = false := by
    intro item member
    simpa using refused _ (List.mem_map_of_mem member)
  obtain ⟨token, inHandle⟩ := ordered.exists_token_above split marked
  have notEmpty : above ≠ [] := by
    rintro rfl
    cases inHandle
  have onStack : above.Sublist stack.items := by
    rcases position with ⟨isItems, -⟩ | ⟨item, rest, isItems, -⟩ <;> simp [isItems]
  have pops : stack.popHandle.1 = above.reverse
      ∧ stack.popHandle.2.entries = start.unmark :: below := by
    rcases position with ⟨rfl, rfl, rfl⟩ | ⟨item, rest, isItems, rfl, rfl⟩
    · exact popHandle_of_unmarked unmarked
    · exact popHandle_of_marked isItems marked unmarked notEmpty
  exact ⟨above, start, below, split, marked, unmarked,
    ⟨token, inHandle, ordered.inside token ((onStack.filterMap _).subset inHandle)⟩,
    pops.1, pops.2⟩

/-- Without a token there is at most one operand on the stack. -/
theorem items_of_top_finish (ordered : stack.Ordered) (noToken : stack.top = .finish)
    : stack.items = [] ∨ ∃ operand, stack.items = [.reduced operand] := by
  obtain ⟨items, bottomMarked⟩ := stack
  match items with
  | [] => exact .inl rfl
  | [.reduced operand] => exact .inr ⟨operand, rfl⟩
  | .reduced operand :: .reduced other :: rest =>
      have separated := ordered.separated
      simp [entries, StackItem.entry, StackEntry.isOperand] at separated
  | .terminal terminal :: rest =>
      exact absurd noToken (ordered.inside terminal.token (by simp [StackItem.token?]))
  | .reduced operand :: .terminal terminal :: rest =>
      exact absurd noToken (ordered.inside terminal.token (by simp [StackItem.token?]))

end Ordered

end ParseStack

namespace Shape

/-- The entries of a shape under a token. The bottom is marked under any token. -/
def entriesUnder (above? : Option Token) (shape : Shape Reduced) : List StackEntry :=
  (shape.itemsUnder above?).map StackItem.entry
    ++ [.terminal .finish (above?.isSome || !shape.layers.isEmpty)]

theorem entries_stack (shape : Shape Reduced) : shape.stack.entries = shape.entriesUnder none :=
  rfl

theorem entriesUnder_nil (above? : Option Token) (base? : Option Reduced)
    : entriesUnder above? ⟨[], base?⟩
      = base?.toList.map .operand ++ [.terminal .finish above?.isSome] := by
  cases base? <;> simp [entriesUnder, itemsUnder, layerItems, operandItems, StackItem.entry]

theorem entriesUnder_cons (above? : Option Token) (layer : Layer Reduced)
    (below : List (Layer Reduced)) (base? : Option Reduced)
    : entriesUnder above? ⟨layer :: below, base?⟩
      = layer.operand?.toList.map .operand
        ++ .terminal layer.category (above?.any fun above => !isPair layer.token above)
          :: entriesUnder (some layer.token) ⟨below, base?⟩ := by
  cases operand : layer.operand? <;>
    simp [entriesUnder, itemsUnder_cons, operandItems, StackItem.entry, terminalUnder, operand,
      Terminal.category, Layer.category]

/-- No two operands stand next to each other, by induction on the layers. -/
theorem isChain_entriesUnder (above? : Option Token) (shape : Shape Reduced)
    : (shape.entriesUnder above?).IsChain fun upper lower =>
        ¬(upper.isOperand = true ∧ lower.isOperand = true) := by
  obtain ⟨layers, base?⟩ := shape
  induction layers generalizing above? with
  | nil => cases base? <;> simp [entriesUnder_nil, StackEntry.isOperand]
  | cons layer below ih =>
      have lower := ih (some layer.token)
      rw [entriesUnder_cons]
      cases layer.operand? <;> simpa [List.isChain_cons, StackEntry.isOperand] using lower

/-- The terminals of some layers under a token, down to the bottom. -/
def terminalsUnder (above? : Option Token) : List (Layer Reduced) → List (Category × Bool)
  | [] => [(.finish, above?.isSome)]
  | layer :: below =>
      (layer.category, above?.any fun above => !isPair layer.token above)
        :: terminalsUnder (some layer.token) below

/-- The terminals of a shape are those of its layers, by induction on them. -/
theorem filterMap_entriesUnder (above? : Option Token) (shape : Shape Reduced)
    : (shape.entriesUnder above?).filterMap StackEntry.terminal?
      = terminalsUnder above? shape.layers := by
  have noTerminal (operand? : Option Reduced)
      : (operand?.toList.map StackEntry.operand).filterMap StackEntry.terminal? = [] := by
    cases operand? <;> rfl
  obtain ⟨layers, base?⟩ := shape
  induction layers generalizing above? with
  | nil =>
      rw [entriesUnder_nil, List.filterMap_append, noTerminal]
      rfl
  | cons layer below ih =>
      rw [entriesUnder_cons, List.filterMap_append, noTerminal, List.nil_append, terminalsUnder,
        ← ih (some layer.token)]
      rfl

/-- Every terminal under another one is marked, unless the two are parentheses. By induction on
the layers.
-/
theorem isChain_terminalsUnder (above? : Option Token) (layers : List (Layer Reduced))
    : (terminalsUnder above? layers).IsChain fun upper lower =>
        lower.2 = true ↔ ¬(lower.1 = .openParen ∧ upper.1 = .closeParen) := by
  induction layers generalizing above? with
  | nil => exact .singleton _
  | cons layer below ih =>
      rw [terminalsUnder, List.isChain_cons]
      refine ⟨?_, ih (some layer.token)⟩
      cases below with
      | nil => simp [terminalsUnder]
      | cons next below =>
          intro lower isNext
          obtain rfl := Option.some.inj isNext
          simp [isPair, Layer.category, imp_iff_not_or]

/-- The stack of a shape is in order if none of its tokens ends expressions. -/
theorem ordered_stack {shape : Shape Reduced}
    (inside : ∀ token ∈ shape.stack.items.filterMap StackItem.token?,
      Category.ofKind token.kind ≠ .finish)
    : shape.stack.Ordered := by
  have terminals : shape.stack.terminals = terminalsUnder none shape.layers := by
    rw [ParseStack.terminals, entries_stack, filterMap_entriesUnder]
  refine ⟨inside, ?_, ?_, ?_⟩
  · rw [entries_stack]
    exact isChain_entriesUnder none shape
  · rw [terminals]
    obtain ⟨layers, base?⟩ := shape
    cases layers <;> simp [terminalsUnder]
  · rw [terminals]
    exact isChain_terminalsUnder none shape.layers

end Shape

end ExprCompiler

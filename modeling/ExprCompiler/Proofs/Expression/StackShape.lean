import ExprCompiler.Expression.Parser

/-! The shape of the parse stack. A stack is a pile of layers, each a token with at most one
operand above it, and its marks follow from the tokens: every token but the topmost one is
marked, except an opening parenthesis right under its closing one. Each operation of the stack
is stated on shapes here, so that no other proof has to look at marks.
-/

namespace ExprCompiler

/-- A token on the stack, and what stands between it and the next token. -/
structure Layer (α : Type) where
  token : Token
  operand? : Option α := none
deriving Repr, Inhabited

/-- What the token of a layer is to the expression. -/
def Layer.category {α : Type} (layer : Layer α) : Category :=
  .ofKind layer.token.kind

/-- The layers of a stack, topmost first, and the operand right above the bottom. -/
structure Shape (α : Type) where
  layers : List (Layer α) := []
  base? : Option α := none
deriving Repr, Inhabited

namespace Shape

variable {α β : Type}

/-- The operand on top. -/
def top? (shape : Shape α) : Option α :=
  match shape.layers with
  | [] => shape.base?
  | layer :: _ => layer.operand?

/-- The category of the topmost token; that of the bottom marker if there is none. -/
def category (shape : Shape α) : Category :=
  match shape.layers with
  | [] => .finish
  | layer :: _ => layer.category

/-- Puts a token on top. -/
def push (shape : Shape α) (token : Token) : Shape α :=
  { shape with layers := { token } :: shape.layers }

/-- Replaces the operand on top. -/
def setTop (shape : Shape α) (operand? : Option α) : Shape α :=
  match shape.layers with
  | [] => { shape with base? := operand? }
  | layer :: below => { shape with layers := { layer with operand? } :: below }

/-- Changes every operand. -/
def map (change : α → β) (shape : Shape α) : Shape β where
  layers := shape.layers.map fun layer => ⟨layer.token, layer.operand?.map change⟩
  base? := shape.base?.map change

@[simp] theorem top?_setTop (shape : Shape α) (operand? : Option α)
    : (shape.setTop operand?).top? = operand? := by
  obtain ⟨layers, base?⟩ := shape
  cases layers <;> rfl

@[simp] theorem category_setTop (shape : Shape α) (operand? : Option α)
    : (shape.setTop operand?).category = shape.category := by
  obtain ⟨layers, base?⟩ := shape
  cases layers <;> rfl

@[simp] theorem setTop_setTop (shape : Shape α) (first second : Option α)
    : (shape.setTop first).setTop second = shape.setTop second := by
  obtain ⟨layers, base?⟩ := shape
  cases layers <;> rfl

@[simp] theorem setTop_top? (shape : Shape α) : shape.setTop shape.top? = shape := by
  obtain ⟨layers, base?⟩ := shape
  cases layers <;> rfl

theorem setTop_of_top?_eq {shape : Shape α} {operand? : Option α} (same : shape.top? = operand?)
    : shape.setTop operand? = shape := by
  rw [← same, setTop_top?]

@[simp] theorem top?_push (shape : Shape α) (token : Token)
    : (shape.push token).top? = none :=
  rfl

@[simp] theorem setTop_none_push (shape : Shape α) (token : Token)
    : (shape.push token).setTop none = shape.push token :=
  setTop_of_top?_eq (top?_push shape token)

@[simp] theorem category_push (shape : Shape α) (token : Token)
    : (shape.push token).category = .ofKind token.kind :=
  rfl

@[simp] theorem category_map (change : α → β) (shape : Shape α)
    : (shape.map change).category = shape.category := by
  obtain ⟨layers, base?⟩ := shape
  cases layers <;> rfl

@[simp] theorem top?_map (change : α → β) (shape : Shape α)
    : (shape.map change).top? = shape.top?.map change := by
  obtain ⟨layers, base?⟩ := shape
  cases layers <;> rfl

@[simp] theorem map_push (change : α → β) (shape : Shape α) (token : Token)
    : (shape.push token).map change = (shape.map change).push token :=
  rfl

@[simp] theorem map_setTop (change : α → β) (shape : Shape α) (operand? : Option α)
    : (shape.setTop operand?).map change = (shape.map change).setTop (operand?.map change) := by
  obtain ⟨layers, base?⟩ := shape
  cases layers <;> rfl

end Shape

-----------------------------------------------------------------------------------------
-- The stack of a shape
-----------------------------------------------------------------------------------------

/-- Whether one token is an opening parenthesis and the next one closes it. -/
def isPair (opening closing : Token) : Bool :=
  Category.ofKind opening.kind = .openParen && Category.ofKind closing.kind = .closeParen

/-- A token on the stack with the mark that the token above it calls for. -/
def terminalUnder (above? : Option Token) (token : Token) : StackItem :=
  .terminal { token, marked := above?.any fun above => !isPair token above }

/-- The stack items of an operand. -/
def operandItems (operand? : Option Reduced) : List StackItem :=
  operand?.toList.map .reduced

@[simp] theorem operandItems_none : operandItems none = [] := by
  simp [operandItems]

/-- The stack items of some layers under a token. -/
def layerItems (above? : Option Token) : List (Layer Reduced) → List StackItem
  | [] => []
  | layer :: below =>
      operandItems layer.operand?
        ++ terminalUnder above? layer.token :: layerItems (some layer.token) below

namespace Shape

/-- The stack items of a shape under a token. -/
def itemsUnder (above? : Option Token) (shape : Shape Reduced) : List StackItem :=
  layerItems above? shape.layers ++ operandItems shape.base?

/-- The stack of a shape. -/
def stack (shape : Shape Reduced) : ParseStack where
  items := shape.itemsUnder none
  bottomMarked := !shape.layers.isEmpty

theorem itemsUnder_cons (above? : Option Token) (layer : Layer Reduced)
    (below : List (Layer Reduced)) (base? : Option Reduced)
    : itemsUnder above? ⟨layer :: below, base?⟩
      = operandItems layer.operand?
        ++ terminalUnder above? layer.token :: itemsUnder (some layer.token) ⟨below, base?⟩ := by
  simp [itemsUnder, layerItems]

@[simp] theorem top_stack (shape : Shape Reduced) : shape.stack.top = shape.category := by
  obtain ⟨layers, base?⟩ := shape
  cases layers with
  | nil => cases base? <;> rfl
  | cons layer below =>
      obtain ⟨token, operand?⟩ := layer
      cases operand? <;> rfl

/-- The stack expects an operand if the topmost token does and there is none above it. -/
theorem expectsOperand_stack (shape : Shape Reduced)
    : shape.stack.expectsOperand = (shape.top?.isNone && !shape.category.endsOperand) := by
  obtain ⟨layers, base?⟩ := shape
  cases layers with
  | nil => cases base? <;> rfl
  | cons layer below =>
      obtain ⟨token, operand?⟩ := layer
      cases operand? with
      | none => exact (Bool.true_and _).symm
      | some operand => rfl

/-- The operand that is left alone is the one above the bottom. -/
theorem result?_stack (base? : Option Reduced)
    : (⟨[], base?⟩ : Shape Reduced).stack.result? = base? := by
  cases base? <;> rfl

theorem markFirst?_operandItems (operand? : Option Reduced) (items : List StackItem)
    : ParseStack.markFirst? (operandItems operand? ++ items)
      = (ParseStack.markFirst? items).map (operandItems operand? ++ ·) := by
  cases operand? <;> simp [operandItems, ParseStack.markFirst?]

/-- Starting a handle with a token puts it on top, unless it closes a parenthesis. -/
theorem stack_mark_pushToken {shape : Shape Reduced} {token : Token}
    (notPair : ¬(shape.category = .openParen ∧ Category.ofKind token.kind = .closeParen))
    : shape.stack.mark.pushToken token = (shape.push token).stack := by
  obtain ⟨layers, base?⟩ := shape
  cases layers with
  | nil =>
      have noToken : ParseStack.markFirst? (operandItems base?) = none := by cases base? <;> rfl
      simp [stack, ParseStack.mark, itemsUnder, layerItems, noToken,
        ParseStack.pushToken, push, terminalUnder]
  | cons layer below =>
      have opens : isPair layer.token token = false := by
        simpa [isPair, category, Layer.category] using notPair
      simp [stack, ParseStack.mark, itemsUnder_cons, markFirst?_operandItems, terminalUnder,
        ParseStack.markFirst?, ParseStack.pushToken, push, opens]

/-- Continuing a handle with a closing parenthesis puts it on top. -/
theorem stack_pushToken {shape : Shape Reduced} {token : Token}
    (opening : shape.category = .openParen) (closing : Category.ofKind token.kind = .closeParen)
    : shape.stack.pushToken token = (shape.push token).stack := by
  obtain ⟨layers, base?⟩ := shape
  cases layers with
  | nil => simp [category] at opening
  | cons layer below =>
      have pair : isPair layer.token token = true := by
        simpa [isPair, closing, category, Layer.category] using opening
      simp [stack, ParseStack.pushToken, push, itemsUnder_cons, terminalUnder, pair]

/-- An operand goes on top of a token that has none. -/
theorem stack_pushReduced {shape : Shape Reduced} (noOperand : shape.top? = none)
    (operand : Reduced)
    : shape.stack.pushReduced operand = (shape.setTop (some operand)).stack := by
  obtain ⟨layers, base?⟩ := shape
  cases layers with
  | nil =>
      obtain rfl : base? = none := noOperand
      rfl
  | cons layer below =>
      obtain ⟨token, operand?⟩ := layer
      obtain rfl : operand? = none := noOperand
      rfl

end Shape

-----------------------------------------------------------------------------------------
-- Handles
-----------------------------------------------------------------------------------------

/-- The items of one layer as part of a handle. -/
def Layer.handle (layer : Layer Reduced) : List StackItem :=
  .terminal { token := layer.token } :: operandItems layer.operand?

namespace Shape

/-- A handle right above a shape also takes the operand on top of it. -/
def cutUnder (below : Shape Reduced) (handle : List StackItem) :
    List StackItem × Shape Reduced :=
  (operandItems below.top? ++ handle, below.setTop none)

/-- The topmost handle of a shape, and what is left without it. A closing parenthesis takes the
opening one along; no other handle holds two tokens.
-/
def cut (shape : Shape Reduced) : List StackItem × Shape Reduced :=
  match shape.layers with
  | [] => ([], shape)
  | [single] => cutUnder ⟨[], shape.base?⟩ single.handle
  | layer :: next :: below =>
      if isPair next.token layer.token then
        cutUnder ⟨below, shape.base?⟩ (next.handle ++ layer.handle)
      else cutUnder ⟨next :: below, shape.base?⟩ layer.handle

/-- A token that closes no parenthesis is a handle with the operands on its two sides. -/
theorem cut_push {below : Shape Reduced} {token : Token}
    (noPair : ¬(below.category = .openParen ∧ Category.ofKind token.kind = .closeParen))
    (operand? : Option Reduced)
    : ((below.push token).setTop operand?).cut
      = below.cutUnder (Layer.handle ⟨token, operand?⟩) := by
  obtain ⟨layers, base?⟩ := below
  cases layers with
  | nil => rfl
  | cons next rest =>
      have single : isPair next.token token = false := by
        simpa [isPair, category, Layer.category] using noPair
      simp [push, setTop, cut, single]

/-- A pair of parentheses is a handle with what stands between them. -/
theorem cut_push_push {opening closing : Token} (pair : isPair opening closing)
    (below : Shape Reduced) (inner? outer? : Option Reduced)
    : ((((below.push opening).setTop inner?).push closing).setTop outer?).cut
      = below.cutUnder (Layer.handle ⟨opening, inner?⟩ ++ Layer.handle ⟨closing, outer?⟩) := by
  simp [push, setTop, cut, pair]

/-- After a handle is taken off, its place is free. -/
theorem top?_cut {shape : Shape Reduced} (notBottom : shape.category ≠ .finish)
    : shape.cut.2.top? = none := by
  obtain ⟨layers, base?⟩ := shape
  match layers with
  | [] => simp [category] at notBottom
  | [single] => simp [cut, cutUnder]
  | layer :: next :: below =>
      simp only [cut]
      split <;> simp [cutUnder]

/-- An operand under a token goes to the handle. -/
theorem splitHandle_operandItems (operand? : Option Reduced) (handle items : List StackItem)
    : ParseStack.splitHandle handle (operandItems operand? ++ items)
      = ParseStack.splitHandle (operandItems operand? ++ handle) items := by
  cases operand? <;> rfl

/-- A handle ends above the next token, which loses its mark, unless that token is the opening
parenthesis of the handle.
-/
theorem splitHandle_itemsUnder {above : Token} {handle : List StackItem}
    {below : Shape Reduced} (notEmpty : handle ≠ [])
    (stops : ∀ layer ∈ below.layers.head?, isPair layer.token above = false)
    : ParseStack.splitHandle handle (below.itemsUnder (some above))
      = ((below.cutUnder handle).1, (below.cutUnder handle).2.itemsUnder none) := by
  obtain ⟨layers, base?⟩ := below
  cases layers with
  | nil =>
      have ends := splitHandle_operandItems base? handle []
      simpa [itemsUnder, layerItems, ParseStack.splitHandle, cutUnder, top?, setTop] using ends
  | cons layer rest =>
      have marked := stops layer rfl
      rw [itemsUnder_cons, splitHandle_operandItems]
      simp [ParseStack.splitHandle, terminalUnder, marked, notEmpty, cutUnder, top?, setTop,
        itemsUnder_cons]

/-- A token without a mark goes to the handle with the operand above it. -/
theorem splitHandle_unmarked {above? : Option Token} {layer : Layer Reduced}
    (unmarked : ∀ above ∈ above?, isPair layer.token above = true)
    (handle : List StackItem) (below : List (Layer Reduced)) (base? : Option Reduced)
    : ParseStack.splitHandle handle (itemsUnder above? ⟨layer :: below, base?⟩)
      = ParseStack.splitHandle (layer.handle ++ handle)
          (itemsUnder (some layer.token) ⟨below, base?⟩) := by
  have noMark : above?.any (fun above => !isPair layer.token above) = false := by
    cases above? <;> simp_all
  rw [itemsUnder_cons, splitHandle_operandItems]
  simp [ParseStack.splitHandle, terminalUnder, noMark, Layer.handle]

theorem isPair_eq_false_of_isPair {opening closing : Token} (pair : isPair opening closing)
    (token : Token)
    : isPair token opening = false := by
  obtain ⟨isOpening, _⟩ := by simpa [isPair] using pair
  simp [isPair, isOpening]

/-- The handle of a stack is that of its shape. By cases on how many tokens the handle holds;
the topmost one has no mark, and a second one only the opening parenthesis of a pair.
-/
theorem splitHandle_stack {shape : Shape Reduced} (notBottom : shape.category ≠ .finish)
    : ParseStack.splitHandle [] (shape.itemsUnder none)
      = (shape.cut.1, shape.cut.2.itemsUnder none) := by
  obtain ⟨layers, base?⟩ := shape
  cases layers with
  | nil => simp [category] at notBottom
  | cons layer below =>
      have notEmpty : layer.handle ≠ [] := by simp [Layer.handle]
      -- Nothing stands above the topmost token, so it has no mark and goes to the handle.
      rw [splitHandle_unmarked (by simp), List.append_nil]
      cases below with
      | nil => exact splitHandle_itemsUnder notEmpty (by simp)
      | cons next below =>
          simp only [cut]
          split
          · next pair =>
              rw [splitHandle_unmarked (by simpa using pair)]
              exact splitHandle_itemsUnder (by simp [notEmpty])
                (fun under _ => isPair_eq_false_of_isPair pair under.token)
          · next noPair => exact splitHandle_itemsUnder notEmpty (by simpa using noPair)

theorem isEmpty_itemsUnder {shape : Shape Reduced} (noOperand : shape.top? = none)
    : (shape.itemsUnder none).isEmpty = shape.layers.isEmpty := by
  obtain ⟨layers, base?⟩ := shape
  cases layers with
  | nil =>
      obtain rfl : base? = none := noOperand
      rfl
  | cons layer below => simp [itemsUnder_cons]

/-- Taking the topmost handle off a stack cuts its shape. -/
theorem popHandle_stack {shape : Shape Reduced} (notBottom : shape.category ≠ .finish)
    : shape.stack.popHandle = (shape.cut.1, shape.cut.2.stack) := by
  have marked : shape.stack.bottomMarked = true := by
    obtain ⟨layers, base?⟩ := shape
    cases layers with
    | nil => simp [category] at notBottom
    | cons layer below => rfl
  have split : ParseStack.splitHandle [] shape.stack.items = _ := splitHandle_stack notBottom
  simp only [ParseStack.popHandle, split, marked, isEmpty_itemsUnder (top?_cut notBottom),
    Bool.true_and]
  rfl

end Shape

end ExprCompiler

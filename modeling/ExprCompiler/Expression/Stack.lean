import ExprCompiler.Expression.Precedence
import ExprCompiler.Expression.Type

/-! The parse stack: tokens that wait for their operands, and operands that are already
reduced. A mark on a token says that a handle, the next thing to reduce, starts right above
it. Main statement: taking a handle off makes the stack lighter.
-/

namespace ExprCompiler

/-- What is known of a reduced operand. -/
structure Reduced where
  type : ExprType
  /-- It is the literal 0 or 0.0, perhaps in parentheses. -/
  literalZero : Bool := false
  /-- It stands in for something that was wrong and has been reported. -/
  poisoned : Bool := false
deriving DecidableEq, Repr, Inhabited

/-- Stands in for an operand that was wrong. -/
def Reduced.placeholder : Reduced where
  type := .undefined
  poisoned := true

/-- A token on the stack. -/
structure Terminal where
  token : Token
  /-- A handle starts right above the token. -/
  marked : Bool := false
deriving DecidableEq, Repr, Inhabited

/-- What the token is to the expression. -/
def Terminal.category (terminal : Terminal) : Category :=
  .ofKind terminal.token.kind

/-- A token, or a reduced operand. -/
inductive StackItem where
  | terminal (terminal : Terminal)
  | reduced (operand : Reduced)
deriving DecidableEq, Repr, Inhabited

/-- The items above the bottom marker, topmost first. The bottom marker stays for good; it
counts as the end of the expression and may be marked like a token.
-/
structure ParseStack where
  items : List StackItem := []
  bottomMarked : Bool := false
deriving DecidableEq, Repr, Inhabited

namespace ParseStack

/-- The category of the topmost token in a list of items. -/
def topCategory : List StackItem → Category
  | [] => .finish
  | .terminal terminal :: _ => terminal.category
  | .reduced _ :: rest => topCategory rest

/-- The category of the topmost token; that of the bottom marker if there is none. -/
def top (stack : ParseStack) : Category :=
  topCategory stack.items

/-- Whether the next token has to start an operand. -/
def expectsOperand (stack : ParseStack) : Bool :=
  match stack.items with
  | [] => true
  | .terminal terminal :: _ => !terminal.category.endsOperand
  | .reduced _ :: _ => false

/-- Whether the topmost item ends an operand. -/
def afterOperand (stack : ParseStack) : Bool :=
  match stack.items with
  | [] => false
  | .terminal terminal :: _ => terminal.category.endsOperand
  | .reduced _ :: _ => true

/-- Puts a token on top. -/
def pushToken (stack : ParseStack) (token : Token) : ParseStack :=
  { stack with items := .terminal { token } :: stack.items }

/-- Puts a reduced operand on top. -/
def pushReduced (stack : ParseStack) (operand : Reduced) : ParseStack :=
  { stack with items := .reduced operand :: stack.items }

/-- Marks the topmost token in a list of items; `none` if there is no token. -/
def markFirst? : List StackItem → Option (List StackItem)
  | [] => none
  | .terminal terminal :: rest => some (.terminal { terminal with marked := true } :: rest)
  | .reduced operand :: rest => (markFirst? rest).map (.reduced operand :: ·)

/-- Starts a handle above the topmost token. -/
def mark (stack : ParseStack) : ParseStack :=
  match markFirst? stack.items with
  | some items => { stack with items }
  | none => { stack with bottomMarked := true }

/-- Moves items from the stack to the handle, which grows to the left, down to a marked token
that has something above it. That mark, and any mark passed on the way, is cleared.
-/
def splitHandle (handle : List StackItem) :
    List StackItem → List StackItem × List StackItem
  | [] => (handle, [])
  | .reduced operand :: rest => splitHandle (.reduced operand :: handle) rest
  | .terminal terminal :: rest =>
      let unmarked : StackItem := .terminal { terminal with marked := false }
      if terminal.marked && !handle.isEmpty then (handle, unmarked :: rest)
      else splitHandle (unmarked :: handle) rest

/-- Takes the topmost handle off, leftmost item first. Without a mark it reaches down to the
bottom.
-/
def popHandle (stack : ParseStack) : List StackItem × ParseStack :=
  let (handle, rest) := splitHandle [] stack.items
  (handle, { items := rest, bottomMarked := stack.bottomMarked && !rest.isEmpty })

/-- Puts one reduced operand in the place of everything above the bottom. -/
def collapse (_ : ParseStack) (operand : Reduced) : ParseStack where
  items := [.reduced operand]
  bottomMarked := false

/-- The operand that is left when nothing else is. -/
def result? (stack : ParseStack) : Option Reduced :=
  match stack.items with
  | [.reduced operand] => some operand
  | _ => none

-----------------------------------------------------------------------------------------
-- Reducing comes to an end
-----------------------------------------------------------------------------------------

/-- A token weighs one, a marked token two, and a reduced operand nothing. -/
def itemWeight : StackItem → Nat
  | .terminal terminal => if terminal.marked then 2 else 1
  | .reduced _ => 0

/-- The weight of a list of items. -/
def itemsWeight : List StackItem → Nat
  | [] => 0
  | item :: rest => itemWeight item + itemsWeight rest

/-- The weight of the items above the bottom. -/
def weight (stack : ParseStack) : Nat :=
  itemsWeight stack.items

/-- What a handle leaves weighs no more than before, and less if there was a token: a token is
either taken or loses its mark.
-/
theorem itemsWeight_splitHandle (handle items : List StackItem)
    : itemsWeight (splitHandle handle items).2 ≤ itemsWeight items
      ∧ (0 < itemsWeight items
        → itemsWeight (splitHandle handle items).2 < itemsWeight items) := by
  induction items generalizing handle with
  | nil => simp [splitHandle, itemsWeight]
  | cons item rest ih =>
      cases item with
      | reduced operand =>
          simpa [splitHandle, itemsWeight, itemWeight] using ih (.reduced operand :: handle)
      | terminal terminal =>
          have deeper :=
            (ih (.terminal { terminal with marked := false } :: handle)).1
          simp only [splitHandle]
          split
          · next stops =>
              have marked : terminal.marked = true := by simp_all
              simp [itemsWeight, itemWeight, marked]
          · simp only [itemsWeight, itemWeight] at deeper ⊢
            split <;> omega

/-- A stack whose topmost token is no end marker holds a token. -/
theorem itemsWeight_pos_of_topCategory {items : List StackItem}
    (notEnd : topCategory items ≠ .finish)
    : 0 < itemsWeight items := by
  induction items with
  | nil => exact absurd rfl notEnd
  | cons item rest ih =>
      cases item with
      | reduced operand => simpa [itemsWeight, itemWeight] using ih notEnd
      | terminal terminal =>
          simp only [itemsWeight, itemWeight]
          split <;> omega

/-- Putting an operand in the place of a handle makes the stack lighter. -/
theorem weight_popHandle_lt {stack : ParseStack} (notEnd : stack.top ≠ .finish)
    (operand : Reduced)
    : (stack.popHandle.2.pushReduced operand).weight < stack.weight := by
  have lighter :=
    (itemsWeight_splitHandle [] stack.items).2 (itemsWeight_pos_of_topCategory notEnd)
  simpa [popHandle, pushReduced, weight, itemsWeight, itemWeight] using lighter

end ParseStack

end ExprCompiler

import ExprCompiler.Proofs.Expression.Checks
import ExprCompiler.Proofs.Expression.RuleSafety
import ExprCompiler.Proofs.Names.SlotContents
import Mathlib.Data.List.Forall2

/-! Safety of one reduction. If the operands of a handle represent the topmost values of the
machine, the code of its reduction takes these values and leaves one for its result.
-/

namespace ExprCompiler

/-- Whether variables of this kind hold values. -/
def SymbolKind.isValue (kind : SymbolKind) : Bool :=
  kind.type?.isSome

/-- Everything that has a value and is no function is of a kind that holds values. -/
def ScopeStack.DeclaresValues (scopes : ScopeStack) : Prop :=
  ∀ frame ∈ scopes.frames, ∀ symbol ∈ frame.symbols,
    symbol.initialized = true → symbol.isFunction = false → symbol.kind.isValue = true

/-- A variable may hold a value of its kind, and nil if it was declared so. -/
def Symbol.Admits (symbol : Symbol) (value : Value) : Prop :=
  symbol.kind.isValue = true →
    value.type = symbol.exprType.base ∨ (value = .nil ∧ symbol.nilable = true)

namespace Machine

/-- Every variable in scope holds a value that it may hold. -/
def Respects (machine : Machine) (scopes : ScopeStack) : Prop :=
  ∀ name symbol depth, scopes.getInitialized name = .ok (symbol, depth) →
    symbol.Admits (machine.valueOf name symbol.uid (depth = 0))

/-- No variable in scope holds nil, apart from those that hold nothing else. -/
def HoldsNoNil (machine : Machine) (scopes : ScopeStack) : Prop :=
  ∀ name symbol depth, scopes.getInitialized name = .ok (symbol, depth) →
    symbol.kind ≠ .nil → machine.valueOf name symbol.uid (depth = 0) ≠ .nil

/-- Every variable in scope holds a value that fits the type of its name. -/
def Types (machine : Machine) (nilOccurs : Prop) (scopes : ScopeStack) : Prop :=
  ∀ name symbol depth, scopes.getInitialized name = .ok (symbol, depth) →
    symbol.isFunction = false →
    (machine.valueOf name symbol.uid (depth = 0)).Fits nilOccurs symbol.exprType

end Machine

/-- What is found in a table is one of its symbols. -/
theorem SymbolTable.mem_symbols_of_find? {table : SymbolTable} {name : String}
    {symbol : Symbol} (found : table.find? name = some symbol)
    : symbol ∈ table.symbols := by
  obtain ⟨⟨index, _⟩, inSlots, rfl⟩ := Option.map_eq_some_iff.mp found
  exact Slots.mem_symbols_iff.mpr ⟨index, (Slots.getElem?_of_findFrom inSlots).1⟩

/-- What a name stands for is declared in one of the blocks, by induction on the blocks. -/
theorem Resolves.exists_mem {name : String} {symbol : Symbol} {frames : List SymbolTable}
    {depth : Nat} (resolved : Resolves name symbol frames depth)
    : symbol.initialized = true ∧ ∃ frame ∈ frames, symbol ∈ frame.symbols := by
  induction resolved with
  | here present hasValue =>
      exact ⟨hasValue, _, List.mem_cons_self, SymbolTable.mem_symbols_of_find? present⟩
  | outer _ _ ih =>
      obtain ⟨hasValue, frame, inFrames, inFrame⟩ := ih
      exact ⟨hasValue, frame, List.mem_cons_of_mem _ inFrames, inFrame⟩

/-- Variables that respect their declarations fit the types of their names. -/
theorem Machine.Respects.types {machine : Machine} {scopes : ScopeStack} {nilOccurs : Prop}
    (respects : machine.Respects scopes) (declares : scopes.DeclaresValues)
    (noNil : ¬nilOccurs → machine.HoldsNoNil scopes)
    : machine.Types nilOccurs scopes := by
  intro name symbol depth found isValue
  obtain ⟨hasValue, frame, inFrames, inFrame⟩ :=
    (ScopeStack.getInitialized_eq_ok_iff.mp found).exists_mem
  have ofKind := declares frame inFrames symbol inFrame hasValue isValue
  rcases respects name symbol depth found ofKind with same | ⟨isNil, nilable⟩
  · exact .inl same
  · by_cases occurs : nilOccurs
    · exact .inr ⟨isNil, nilable, occurs⟩
    · have onlyNil : symbol.kind = .nil := by
        by_contra notNil
        exact noNil occurs name symbol depth found notNil isNil
      exact .inl (by rw [isNil, Symbol.exprType, onlyNil]; rfl)

-----------------------------------------------------------------------------------------
-- Reductions
-----------------------------------------------------------------------------------------

/-- The operand of an item. -/
def StackItem.operand? : StackItem → Option Reduced
  | .reduced operand => some operand
  | .terminal _ => none

/-- The token of an item. -/
def StackItem.token? : StackItem → Option Token
  | .terminal written => some written.token
  | .reduced _ => none

/-- Splitting a handle off keeps all that can be seen of the items apart from their marks, in
order. By induction on the items.
-/
theorem ParseStack.filterMap_splitHandle {α : Type} {view : StackItem → Option α}
    (unmarked : ∀ terminal marked, view (.terminal { terminal with marked })
      = view (.terminal terminal))
    (handle items : List StackItem)
    : ((splitHandle handle items).1.filterMap view).reverse
        ++ (splitHandle handle items).2.filterMap view
      = (handle.filterMap view).reverse ++ items.filterMap view := by
  fun_induction splitHandle handle items with
  | case1 handle => rfl
  | case2 handle operand rest ih =>
      rw [ih]
      cases seen : view (.reduced operand) <;> simp [seen]
  | case3 handle terminal rest unmarkedItem stops =>
      simp only [unmarkedItem, List.filterMap_cons, unmarked]
  | case4 handle terminal rest unmarkedItem continues ih =>
      rw [ih]
      cases seen : view (.terminal terminal) <;>
        simp [unmarkedItem, unmarked, seen]

/-- A value represents an operand that was not wrong if it fits its type. -/
def Value.Represents (nilOccurs : Prop) (value : Value) (operand : Reduced) : Prop :=
  operand.poisoned = false ∧ value.Fits nilOccurs operand.type

/-- Operands that are represented were not wrong, by induction on them. -/
theorem Value.Represents.all_sound {nilOccurs : Prop} {values : List Value}
    {operands : List Reduced}
    (represented : List.Forall₂ (Value.Represents nilOccurs) values operands)
    : ∀ operand ∈ operands, operand.poisoned = false := by
  induction represented with
  | nil => simp
  | cons first _ ih => simpa [first.1] using ih

/-- The operands of a production are those of the handle, and an exclamation mark is one of the
tokens of the handle.
-/
def Production.Uses (handle : List StackItem) : Production → Prop
  | .primary _ _ => handle.filterMap StackItem.operand? = []
  | .notNil operand _ =>
      handle.filterMap StackItem.operand? = [operand]
      ∧ ∃ token ∈ handle.filterMap StackItem.token?, token.kind = .operator .bang
  | .parens inner => handle.filterMap StackItem.operand? = [inner]
  | .binary _ left right _ => handle.filterMap StackItem.operand? = [left, right]
  | .malformed _ => True

/-- The shape of a handle uses its operands, by the possible shapes. -/
theorem Production.uses_ofHandle (handle : List StackItem) : (ofHandle handle).Uses handle := by
  fun_cases ofHandle handle with
  | case1 terminal =>
      unfold ofToken
      split <;> trivial
  | case2 operand terminal =>
      unfold ofPostfix
      split
      · next mark =>
          have isBang : terminal.token.kind = .operator .bang :=
            Category.eq_operator_of_sign? (by rw [← Terminal.category, mark]; rfl)
          exact ⟨rfl, terminal.token, List.mem_cons_self, isBang⟩
      · split <;> trivial
  | case3 left inner right parens => rfl
  | case5 left terminal right =>
      unfold ofInfix
      split <;> trivial
  | case4 | case6 | case7 | case8 => trivial

/-- Unless a reduction reports a problem, one value for its operand is on top of the rest. -/
def Reduction.Leaves (nilOccurs : Prop) (rest : List Value) (reduction : Reduction)
    (final : List Value)
    : Prop :=
  reduction.problem? = none →
    ∃ value, final = value :: rest ∧ value.Represents nilOccurs reduction.operand

section Reductions

variable {machine : Machine} {floor : Nat} {nilOccurs : Prop} {scopes : ScopeStack}
  {stack rest : List Value}

/-- The code of a check leaves a value for its operand, if it does so when the check passes. -/
theorem Reduction.reaches_ofCheck {check : Except TypeFault Checked} (location : Location)
    (passes : ∀ checked, check = .ok checked →
      machine.Reaches floor checked.code stack
        fun final => ∃ value, final = value :: rest ∧ value.Represents nilOccurs checked.operand)
    : machine.Reaches floor (ofCheck location check).code stack
        ((ofCheck location check).Leaves nilOccurs rest) := by
  cases check with
  | error fault =>
      intro noProblem
      cases noProblem
  | ok checked =>
      refine (passes checked rfl).weaken ?_
      intro final leaves _
      exact leaves

/-- The code of a value pushes one that fits its type. -/
theorem exists_push_of_checkPrimary (types : machine.Types nilOccurs scopes) {value : Primary}
    {checked : Checked} (passed : checkPrimary scopes value = .ok checked)
    : ∃ operand, checked.code = [.push operand]
        ∧ (machine.load operand).Represents nilOccurs checked.operand := by
  cases value with
  | int | double | string | nil =>
      cases passed
      exact ⟨_, rfl, rfl, .inl rfl⟩
  | name text =>
      simp only [checkPrimary, checkName] at passed
      split at passed
      · cases passed
      · next symbol depth found =>
          split at passed
          · cases passed
          · next isValue =>
              rw [symbol.ofSymbolKind_eq_exprType] at passed
              cases passed
              exact ⟨_, rfl, rfl, types text symbol depth found (by simpa using isValue)⟩

/-- An exclamation mark adds no code, and its operand stands for the same value. -/
theorem represents_of_checkNotNil {operand : Reduced} {value : Value} {checked : Checked}
    (passed : checkNotNil operand = .ok checked) (represented : value.Represents nilOccurs operand)
    (never : ¬nilOccurs)
    : checked.code = [] ∧ value.Represents nilOccurs checked.operand := by
  rw [checkNotNil_eq represented.1, unwrapRuling] at passed
  split at passed
  · cases passed
  · cases passed
    exact ⟨rfl, rfl, represented.2.unwrap never⟩

/-- The code of a binary operation leaves a value for its operand. -/
theorem reaches_of_checkBinary {op : BinaryOperator} {left right : Reduced}
    {leftValue rightValue : Value} {checked : Checked}
    (passed : checkBinary op left right = .ok checked)
    (leftFits : leftValue.Represents nilOccurs left)
    (rightFits : rightValue.Represents nilOccurs right) (above : floor ≤ rest.length)
    : machine.Reaches floor checked.code (rightValue :: leftValue :: rest)
        fun final => ∃ value, final = value :: rest
          ∧ value.Represents nilOccurs checked.operand := by
  rw [checkBinary_eq leftFits.1 rightFits.1] at passed
  cases ruled : op.ruling left.type right.type right.literalZero with
  | error fault => simp [ruled, Ruling.checked, Except.map] at passed
  | ok rule =>
      obtain ⟨type, own⟩ := rule
      rw [ruled] at passed
      cases passed
      refine (BinaryOperator.reaches_of_rule (BinaryOperator.ruling_eq_ok_iff.mp ruled)
        leftFits.2 rightFits.2 above).weaken ?_
      rintro _ ⟨value, rfl, fits⟩
      exact ⟨value, rfl, rfl, fits⟩

/-- A handle holds an operand that was wrong exactly if one of its operands was. -/
theorem isPoisoned_eq (handle : List StackItem)
    : isPoisoned handle = (handle.filterMap StackItem.operand?).any Reduced.poisoned := by
  rw [isPoisoned, List.any_filterMap]
  congr 1
  funext item
  cases item <;> rfl

/-- The code of a reduction takes the values of its operands and leaves one for its result, by
the shape of the handle.
-/
theorem Reduction.reaches_ofHandle {handle : List StackItem} {values : List Value}
    (types : machine.Types nilOccurs scopes) (above : floor ≤ rest.length)
    (represented : List.Forall₂ (Value.Represents nilOccurs) values
      (handle.filterMap StackItem.operand?).reverse)
    (marks : ∀ token ∈ handle.filterMap StackItem.token?,
      token.kind = .operator .bang → ¬nilOccurs)
    : machine.Reaches floor (ofHandle scopes handle).code (values ++ rest)
        ((ofHandle scopes handle).Leaves nilOccurs rest) := by
  have uses := Production.uses_ofHandle handle
  unfold ofHandle
  split
  · -- A value alone.
    next value location shape =>
      rw [shape] at uses
      rw [uses] at represented
      cases represented
      apply reaches_ofCheck
      intro checked passed
      obtain ⟨operand, code, fits⟩ := exists_push_of_checkPrimary types passed
      rw [code]
      refine (Machine.reaches_push operand above).weaken ?_
      rintro _ rfl
      exact ⟨_, rfl, fits⟩
  · -- An operand and an exclamation mark, which stays without code as nothing is nil.
    next operand location shape =>
      rw [shape] at uses
      obtain ⟨operands, token, inHandle, isBang⟩ := uses
      rw [operands] at represented
      obtain _ | ⟨fits, ⟨⟩⟩ := represented
      apply reaches_ofCheck
      intro checked passed
      obtain ⟨code, fits⟩ :=
        represents_of_checkNotNil passed fits (marks token inHandle isBang)
      rw [code]
      exact ⟨_, rfl, fits⟩
  · -- An operand in parentheses.
    next inner shape =>
      rw [shape] at uses
      rw [uses] at represented
      obtain _ | ⟨fits, ⟨⟩⟩ := represented
      intro _
      exact ⟨_, rfl, fits⟩
  · -- Two operands around a binary operator.
    next op left right location shape =>
      rw [shape] at uses
      rw [uses] at represented
      obtain _ | ⟨rightFits, _ | ⟨leftFits, ⟨⟩⟩⟩ := represented
      apply reaches_ofCheck
      intro checked passed
      exact reaches_of_checkBinary passed leftFits rightFits above
  · -- Without an operand that was wrong, the fault is a problem.
    next fault shape =>
      have sound : isPoisoned handle = false := by
        rw [isPoisoned_eq, List.any_eq_false]
        intro operand inHandle
        simp [Value.Represents.all_sound represented operand (List.mem_reverse.mpr inHandle)]
      intro noProblem
      simp [sound] at noProblem

end Reductions

end ExprCompiler

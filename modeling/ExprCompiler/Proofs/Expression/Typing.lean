import ExprCompiler.Proofs.Expression.Grammar

/-! Types and code of expression trees. The rules say which trees are well typed, with which
type and code. The verdict on a tree goes from the leaves up and also says, for a tree that is
not well typed, which of its nodes are reported. Main statement: the rules and the verdict
agree.
-/

namespace ExprCompiler

/-- `symbol` is the innermost entry for `name` that has a value. It stands in the block with
index `depth`, where the outermost block has index 0.
-/
inductive Resolves (name : String) (symbol : Symbol) : List SymbolTable → Nat → Prop
  | here {frame : SymbolTable} {outer : List SymbolTable}
    (found : frame.find? name = some symbol) (hasValue : symbol.initialized = true)
    : Resolves name symbol (frame :: outer) outer.length
  | outer {frame : SymbolTable} {outer : List SymbolTable} {depth : Nat}
    (hidden : ∀ inner, frame.find? name = some inner → inner.initialized = false)
    (resolved : Resolves name symbol outer depth)
    : Resolves name symbol (frame :: outer) depth

/-- The search through the blocks finds exactly the entry that a name stands for, by induction
on the blocks.
-/
theorem findIn_initialized_eq_some_iff {name : String} {symbol : Symbol} {depth : Nat}
    (frames : List SymbolTable)
    : ScopeStack.findIn Symbol.initialized name frames = some (symbol, depth)
      ↔ Resolves name symbol frames depth := by
  induction frames with
  | nil =>
      refine ⟨fun found => by simp [ScopeStack.findIn] at found, fun resolved => ?_⟩
      cases resolved
  | cons frame outer ih =>
      rw [ScopeStack.findIn]
      cases entry : (frame.find? name).filter Symbol.initialized with
      | some inner =>
          obtain ⟨found, hasValue⟩ := Option.filter_eq_some_iff.mp entry
          refine ⟨fun same => ?_, fun resolved => ?_⟩
          · obtain ⟨rfl, rfl⟩ : inner = symbol ∧ outer.length = depth := by simpa using same
            exact .here found hasValue
          · cases resolved with
            | here present _ => simp [Option.some.inj (found.symm.trans present)]
            | outer hidden _ => simp [hidden inner found] at hasValue
      | none =>
          rw [Option.filter_eq_none_iff] at entry
          refine ⟨fun found => .outer ?_ (ih.mp found), fun resolved => ?_⟩
          · intro inner present
            simpa using entry inner present
          · cases resolved with
            | here present hasValue => exact absurd hasValue (entry symbol present)
            | outer _ resolved => exact ih.mpr resolved

/-- A look-up succeeds exactly with the entry that the name stands for. -/
theorem ScopeStack.getInitialized_eq_ok_iff {scopes : ScopeStack} {name : String}
    {symbol : Symbol} {depth : Nat}
    : scopes.getInitialized name = .ok (symbol, depth)
      ↔ Resolves name symbol scopes.frames depth := by
  rw [← findIn_initialized_eq_some_iff]
  obtain ⟨frames⟩ := scopes
  cases frames with
  | nil => simp [getInitialized, getWhere, isOpen, findIn]
  | cons frame outer =>
      simp only [getInitialized, getWhere, isOpen, List.isEmpty_cons, Bool.not_false, if_true]
      split <;> simp_all

-----------------------------------------------------------------------------------------
-- The rules
-----------------------------------------------------------------------------------------

/-- The type of the values that variables of a kind hold; functions and the kinds that stand for
no type hold none.
-/
def SymbolKind.type? : SymbolKind → Option ValueType
  | .integer => some .int
  | .double => some .double
  | .string => some .string
  | .bool => some .bool
  | .nil => some .nil
  | .function | .constant | .undefined => none

/-- The type of a name that stands for this entry. -/
def Symbol.exprType (symbol : Symbol) : ExprType :=
  ⟨symbol.kind.type?.getD .undefined, symbol.nilable⟩

/-- The operation on two integers. -/
def Arithmetic.onInts : Arithmetic → Instruction
  | .add => .arith .add true
  | .subtract => .arith .subtract true
  | .multiply => .arith .multiply true
  | .divide => .arith .divideInts true

/-- The operation on two floats. -/
def Arithmetic.onFloats : Arithmetic → Instruction
  | .add => .arith .add false
  | .subtract => .arith .subtract false
  | .multiply => .arith .multiply false
  | .divide => .arith .divideFloats false

/-- Type and code of an arithmetic operation, by the types of its operands. Two strings are
joined; of two numbers an integer becomes a float if the other one is a float. No number is
divided by a zero that can be seen.
-/
def Arithmetic.rule? (op : Arithmetic) (overZero : Bool) (left right : ExprType) :
    Option (ExprType × List Instruction) :=
  if op = .divide ∧ overZero then none
  else
    match left, right with
    | ⟨.string, false⟩, ⟨.string, false⟩ =>
        if op = .add then some (⟨.string, false⟩, [.concat]) else none
    | ⟨.int, false⟩, ⟨.int, false⟩ => some (⟨.int, false⟩, [op.onInts])
    | ⟨.int, false⟩, ⟨.double, false⟩ =>
        some (⟨.double, false⟩, [.intToFloatSecond, op.onFloats])
    | ⟨.double, false⟩, ⟨.int, false⟩ =>
        some (⟨.double, false⟩, [.intToFloatTop, op.onFloats])
    | ⟨.double, false⟩, ⟨.double, false⟩ => some (⟨.double, false⟩, [op.onFloats])
    | _, _ => none

/-- Type and code of a nil check: the left side may be nil, and the right side is of its type
unless the left side can only be nil.
-/
def coalesceRule? (left right : ExprType) : Option (ExprType × List Instruction) :=
  match left with
  | ⟨.nil, _⟩ => some (right, [.coalesce])
  | ⟨base, true⟩ => if base = right.base then some (right, [.coalesce]) else none
  | ⟨_, false⟩ => none

/-- Whether values of two types may be compared. Equality needs one type, or nil and a type
that has it; the other comparisons need one type of numbers or strings without nil.
-/
def CompareOp.comparable (op : CompareOp) (left right : ExprType) : Bool :=
  match op with
  | .equal | .notEqual =>
      left.base = right.base ∨ (left.base = .nil ∧ right.nilable)
        ∨ (right.base = .nil ∧ left.nilable)
  | _ => left = right ∧ left ∈ [⟨.int, false⟩, ⟨.double, false⟩, ⟨.string, false⟩]

/-- Type and code of a binary operation, by the types of its operands and whether the right one
is a zero that can be seen.
-/
def BinaryOperator.rule? (op : BinaryOperator) (left right : ExprType) (overZero : Bool) :
    Option (ExprType × List Instruction) :=
  match op with
  | .arithmetic op => op.rule? overZero left right
  | .coalesce => coalesceRule? left right
  | .compare op =>
      if op.comparable left right then some (⟨.bool, false⟩, [.compare op]) else none

/-- Whether a value is the literal 0 or 0.0. -/
def Primary.isZero : Primary → Bool
  | .int value => value = 0
  | .double value => value.isZero
  | _ => false

/-- Whether a tree is the literal 0 or 0.0, perhaps in parentheses. -/
def ExprTree.isZero : ExprTree → Bool
  | .primary value _ => value.isZero
  | .parens _ inner _ => inner.isZero
  | _ => false

/-- The typing rules: a tree, its type, and its code in postorder. -/
inductive Compiles (scopes : ScopeStack) : ExprTree → ExprType → List Instruction → Prop
  | int {value : Int64} {place : Place}
    : Compiles scopes (.primary (.int value) place) ⟨.int, false⟩ [.push (.int value)]
  | double {value : Double} {place : Place}
    : Compiles scopes (.primary (.double value) place) ⟨.double, false⟩
        [.push (.double value)]
  | string {text : String} {place : Place}
    : Compiles scopes (.primary (.string text) place) ⟨.string, false⟩
        [.push (.string text)]
  | nil {place : Place}
    : Compiles scopes (.primary .nil place) ⟨.nil, true⟩ [.push .nil]
  | name {name : String} {place : Place} {symbol : Symbol} {depth : Nat}
    (resolved : Resolves name symbol scopes.frames depth)
    (isValue : symbol.kind ≠ .function)
    : Compiles scopes (.primary (.name name) place)
        symbol.exprType [.push (.variable name symbol.uid (depth = 0))]
  | notNil {operand : ExprTree} {place : Place} {type : ExprType} {code : List Instruction}
    (typed : Compiles scopes operand type code) (hasValue : type.base ≠ .nil)
    : Compiles scopes (.notNil operand place) ⟨type.base, false⟩ code
  | parens {opening closing : Place} {inner : ExprTree} {type : ExprType}
    {code : List Instruction} (typed : Compiles scopes inner type code)
    : Compiles scopes (.parens opening inner closing) type code
  | binary {op : BinaryOperator} {left right : ExprTree} {place : Place}
    {leftType rightType type : ExprType} {leftCode rightCode own : List Instruction}
    (leftTyped : Compiles scopes left leftType leftCode)
    (rightTyped : Compiles scopes right rightType rightCode)
    (rule : op.rule? leftType rightType right.isZero = some (type, own))
    : Compiles scopes (.binary op left place right) type (leftCode ++ rightCode ++ own)

-----------------------------------------------------------------------------------------
-- The verdict
-----------------------------------------------------------------------------------------

/-- The outcome of the check of one node: its type and its own code, or its fault. -/
abbrev Ruling := Except TypeFault (ExprType × List Instruction)

/-- The check of a value. -/
def Primary.ruling (scopes : ScopeStack) : Primary → Ruling
  | .int value => .ok (⟨.int, false⟩, [.push (.int value)])
  | .double value => .ok (⟨.double, false⟩, [.push (.double value)])
  | .string text => .ok (⟨.string, false⟩, [.push (.string text)])
  | .nil => .ok (⟨.nil, true⟩, [.push .nil])
  | .name text =>
      match scopes.getInitialized text with
      | .error _ => .error (.undefinedVariable text)
      | .ok (symbol, depth) =>
          if symbol.kind = .function then .error (.functionAsValue text)
          else .ok (symbol.exprType, [.push (.variable text symbol.uid (depth = 0))])

/-- The check of an exclamation mark after an operand. -/
def unwrapRuling (type : ExprType) : Ruling :=
  if type.base = .nil then .error .unwrapNil else .ok (⟨type.base, false⟩, [])

/-- What is wrong with a binary operation that no rule allows. -/
def BinaryOperator.fault (op : BinaryOperator) (left right : ExprType) : TypeFault :=
  match op with
  | .arithmetic op =>
      if left.nilable ∨ left.base = .nil ∨ right.nilable ∨ right.base = .nil then
        .nilOperand op left right
      else if left.base ∈ [.int, .double] ∧ right.base ∈ [.int, .double] then .divisionByZero
      else .notApplicable op left right
  | .coalesce =>
      if left.nilable ∨ left.base = .nil then .coalesceMismatch left right
      else .notOptional left
  | .compare op => .notComparable op left right

/-- The check of a binary operation. -/
def BinaryOperator.ruling (op : BinaryOperator) (left right : ExprType) (overZero : Bool) :
    Ruling :=
  match op.rule? left right overZero with
  | some rule => .ok rule
  | none => .error (op.fault left right)

/-- The type that the checks around a failed node see. A division by zero counts as a float;
any other failure makes them silent.
-/
def TypeFault.seenAs? : TypeFault → Option ExprType
  | .divisionByZero => some ⟨.double, false⟩
  | _ => none

/-- The code under which a failed node is reported: 5 for a name without a value, 9 for a function
in the place of a value and for a division by zero, 7 for operands of types that do not fit.
-/
def TypeFault.reportedAs : TypeFault → ErrorCode
  | .undefinedVariable _ => .undefinedVariable
  | .functionAsValue _ => .semantic
  | .unwrapNil => .incompatibleTypes
  | .nilOperand _ _ _ => .incompatibleTypes
  | .notApplicable _ _ _ => .incompatibleTypes
  | .divisionByZero => .semantic
  | .notOptional _ => .incompatibleTypes
  | .coalesceMismatch _ _ => .incompatibleTypes
  | .notComparable _ _ _ => .incompatibleTypes

/-- The report of a failed node at `location`. -/
def TypeFault.report (fault : TypeFault) (location : Location) : Diagnostic where
  code := fault.reportedAs
  severity := .error
  message := fault.message
  location? := some location
  notes := []

/-- What a check from the leaves up says of a tree. -/
structure Verdict where
  /-- The type that the checks around it see; none if they are silent. -/
  type? : Option ExprType := none
  /-- The code of the nodes that passed, in postorder. -/
  code : List Instruction := []
  /-- The failed nodes in postorder. -/
  failures : List Diagnostic := []
deriving DecidableEq, Repr, Inhabited

namespace Verdict

/-- Adds the check of a node at `location` to the verdict on its operands. -/
def settle (operands : Verdict) (location : Location) : Ruling → Verdict
  | .ok (type, own) => { operands with type? := some type, code := operands.code ++ own }
  | .error fault =>
      { operands with
        type? := fault.seenAs?
        failures := operands.failures ++ [fault.report location] }

/-- The verdict on two operands, before the check of what joins them. -/
def join (left right : Verdict) : Verdict where
  code := left.code ++ right.code
  failures := left.failures ++ right.failures

end Verdict

/-- The verdict on a tree. A node is checked only if all its operands can be seen. -/
def ExprTree.verdict (scopes : ScopeStack) : ExprTree → Verdict
  | .primary value place => Verdict.settle {} place.location (value.ruling scopes)
  | .notNil operand place =>
      let inner := operand.verdict scopes
      match inner.type? with
      | some type => inner.settle place.location (unwrapRuling type)
      | none => inner
  | .parens _ inner _ => inner.verdict scopes
  | .binary op left place right =>
      let leftVerdict := left.verdict scopes
      let rightVerdict := right.verdict scopes
      match leftVerdict.type?, rightVerdict.type? with
      | some leftType, some rightType =>
          (leftVerdict.join rightVerdict).settle place.location
            (op.ruling leftType rightType right.isZero)
      | _, _ => leftVerdict.join rightVerdict

-----------------------------------------------------------------------------------------
-- The rules and the verdict agree
-----------------------------------------------------------------------------------------

/-- A node is well typed exactly if its check passes and nothing failed below it. -/
theorem Verdict.settle_eq_iff {operands : Verdict} {location : Location} {ruling : Ruling}
    {type : ExprType} {code : List Instruction}
    : operands.settle location ruling = ⟨some type, code, []⟩
      ↔ ∃ own,
          ruling = .ok (type, own) ∧ code = operands.code ++ own ∧ operands.failures = [] := by
  cases ruling with
  | error fault => simp [settle]
  | ok rule =>
      obtain ⟨ruleType, own⟩ := rule
      constructor
      · intro settled
        obtain ⟨rfl, rfl, sound⟩ := by simpa [settle] using settled
        exact ⟨own, rfl, rfl, sound⟩
      · rintro ⟨_, same, rfl, sound⟩
        cases same
        simp [settle, sound]

/-- The check of a value passes exactly by a rule. -/
theorem Primary.compiles_iff {scopes : ScopeStack} {value : Primary} {place : Place}
    {type : ExprType} {code : List Instruction}
    : Compiles scopes (.primary value place) type code
      ↔ value.ruling scopes = .ok (type, code) := by
  constructor
  · intro typed
    cases typed with
    | int | double | string | nil => rfl
    | name resolved isValue =>
        rw [← ScopeStack.getInitialized_eq_ok_iff] at resolved
        simp [ruling, resolved, isValue]
  · intro passed
    cases value with
    | int | double | string | nil =>
        obtain ⟨rfl, rfl⟩ := by simpa [ruling] using passed
        constructor
    | name text =>
        rw [ruling] at passed
        split at passed
        · cases passed
        · next symbol depth resolved =>
            split at passed
            · cases passed
            · next isValue =>
                cases passed
                exact .name (ScopeStack.getInitialized_eq_ok_iff.mp resolved) isValue

/-- The check of a binary operation passes exactly by a rule. -/
theorem BinaryOperator.ruling_eq_ok_iff {op : BinaryOperator} {left right type : ExprType}
    {overZero : Bool} {own : List Instruction}
    : op.ruling left right overZero = .ok (type, own)
      ↔ op.rule? left right overZero = some (type, own) := by
  rw [ruling]
  split <;> simp_all

/-- The rules give a tree a type and code exactly if the verdict does and reports nothing. By
induction on the typing in one direction and on the tree in the other.
-/
theorem ExprTree.compiles_iff {scopes : ScopeStack} {tree : ExprTree} {type : ExprType}
    {code : List Instruction}
    : Compiles scopes tree type code ↔ tree.verdict scopes = ⟨some type, code, []⟩ := by
  constructor
  · intro typed
    induction typed with
    | int | double | string | nil => rfl
    | @name text place symbol depth resolved isValue =>
        have typed : Compiles scopes (.primary (.name text) place) _ _ :=
          .name resolved isValue
        rw [verdict, Verdict.settle_eq_iff]
        exact ⟨_, Primary.compiles_iff.mp typed, rfl, rfl⟩
    | notNil _ hasValue ih =>
        rw [verdict, ih, Verdict.settle_eq_iff]
        exact ⟨[], by simp [unwrapRuling, hasValue], by simp, rfl⟩
    | parens _ ih => exact ih
    | binary _ _ rule leftIH rightIH =>
        rw [verdict, leftIH, rightIH, Verdict.settle_eq_iff]
        exact ⟨_, BinaryOperator.ruling_eq_ok_iff.mpr rule, rfl, rfl⟩
  · intro passed
    induction tree generalizing type code with
    | primary value place =>
        rw [verdict, Verdict.settle_eq_iff] at passed
        obtain ⟨own, ruled, rfl, _⟩ := passed
        exact Primary.compiles_iff.mpr ruled
    | notNil operand place ih =>
        rw [verdict] at passed
        cases seen : (operand.verdict scopes).type? with
        | none => simp [seen] at passed; simp [passed] at seen
        | some innerType =>
            simp only [seen, Verdict.settle_eq_iff] at passed
            obtain ⟨own, ruled, rfl, sound⟩ := passed
            rw [unwrapRuling] at ruled
            split at ruled
            · cases ruled
            · next hasValue =>
                cases ruled
                rw [List.append_nil]
                exact .notNil (ih (by rw [← seen, ← sound])) hasValue
    | parens opening inner closing ih => exact .parens (ih passed)
    | binary op left place right leftIH rightIH =>
        rw [verdict] at passed
        cases leftSeen : (left.verdict scopes).type? with
        | none => simp [leftSeen, Verdict.join] at passed
        | some leftType =>
            cases rightSeen : (right.verdict scopes).type? with
            | none => simp [leftSeen, rightSeen, Verdict.join] at passed
            | some rightType =>
                simp only [leftSeen, rightSeen, Verdict.settle_eq_iff] at passed
                obtain ⟨own, ruled, rfl, sound⟩ := passed
                obtain ⟨leftSound, rightSound⟩ := List.append_eq_nil_iff.mp sound
                exact .binary (leftIH (by rw [← leftSeen, ← leftSound]))
                  (rightIH (by rw [← rightSeen, ← rightSound]))
                  (BinaryOperator.ruling_eq_ok_iff.mp ruled)

/-- A tree without failures is seen by the checks around it, by induction on the tree. -/
theorem ExprTree.type?_isSome_of_failures_eq_nil {scopes : ScopeStack} {tree : ExprTree}
    (sound : (tree.verdict scopes).failures = [])
    : (tree.verdict scopes).type?.isSome := by
  induction tree with
  | primary value place =>
      rw [verdict] at sound ⊢
      cases ruled : value.ruling scopes <;> simp [ruled, Verdict.settle] at sound ⊢
  | notNil operand place ih =>
      rw [verdict] at sound ⊢
      cases seen : (operand.verdict scopes).type? with
      | none => simp_all
      | some type =>
          cases ruled : unwrapRuling type <;> simp [seen, ruled, Verdict.settle] at sound ⊢
  | parens opening inner closing ih => exact ih sound
  | binary op left place right leftIH rightIH =>
      rw [verdict] at sound ⊢
      cases leftSeen : (left.verdict scopes).type? with
      | none => simp_all [Verdict.join]
      | some leftType =>
          cases rightSeen : (right.verdict scopes).type? with
          | none => simp_all [Verdict.join]
          | some rightType =>
              cases ruled : op.ruling leftType rightType right.isZero <;>
                simp [leftSeen, rightSeen, ruled, Verdict.settle] at sound ⊢

/-- A tree is well typed exactly if its verdict reports no failure. -/
theorem ExprTree.exists_compiles_iff {scopes : ScopeStack} {tree : ExprTree}
    : (∃ type code, Compiles scopes tree type code)
      ↔ (tree.verdict scopes).failures = [] := by
  constructor
  · rintro ⟨type, code, typed⟩
    rw [compiles_iff.mp typed]
  · intro sound
    obtain ⟨type, seen⟩ := Option.isSome_iff_exists.mp (type?_isSome_of_failures_eq_nil sound)
    exact ⟨type, (tree.verdict scopes).code, compiles_iff.mpr (by rw [← seen, ← sound])⟩

end ExprCompiler

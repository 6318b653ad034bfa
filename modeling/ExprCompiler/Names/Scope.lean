import ExprCompiler.Names.Table

/-! Nested blocks, one symbol table each. A name means what the innermost block that declares
it says.
-/

namespace ExprCompiler

/-- The tables of the open blocks, innermost first. -/
structure ScopeStack where
  frames : List SymbolTable := []
deriving DecidableEq, Repr, Inhabited

namespace ScopeStack

/-- The number of open blocks. -/
def depth (scopes : ScopeStack) : Nat :=
  scopes.frames.length

/-- Whether any block is open. -/
def isOpen (scopes : ScopeStack) : Bool :=
  !scopes.frames.isEmpty

/-- Opens a block. -/
def push (scopes : ScopeStack) : ScopeStack :=
  ⟨.empty :: scopes.frames⟩

/-- Closes the innermost block and gives its names back. -/
def pop (scopes : ScopeStack) : Except SymbolError (SymbolTable × ScopeStack) :=
  match scopes.frames with
  | [] => .error .notInitialized
  | frame :: frames => .ok (frame, ⟨frames⟩)

/-- Closes all blocks. -/
def dispose (_ : ScopeStack) : ScopeStack :=
  {}

/-- The names of the innermost block. -/
def top (scopes : ScopeStack) : Except SymbolError SymbolTable :=
  match scopes.frames with
  | [] => .error .notInitialized
  | frame :: _ => .ok frame

/-- Replaces the names of the innermost block. -/
def setTop (scopes : ScopeStack) (frame : SymbolTable) : ScopeStack :=
  ⟨match scopes.frames with
    | [] => []
    | _ :: frames => frame :: frames⟩

/-- The names of the outermost block. -/
def global (scopes : ScopeStack) : Except SymbolError SymbolTable :=
  match scopes.frames.getLast? with
  | none => .error .notInitialized
  | some frame => .ok frame

/-- Replaces the names of the outermost block. -/
def setGlobal (scopes : ScopeStack) (frame : SymbolTable) : ScopeStack :=
  ⟨match scopes.frames with
    | [] => []
    | frames => frames.dropLast ++ [frame]⟩

/-- Declares `name` in the innermost block with the number `uid`. -/
def insert (scopes : ScopeStack) (name : String) (uid : UInt32) :
    Except SymbolError ScopeStack :=
  scopes.top >>= fun frame => scopes.setTop <$> frame.insert name uid

/-- The innermost entry for `name` that satisfies `wanted`, and the index of its block; the
outermost block has index 0.
-/
def findIn (wanted : Symbol → Bool) (name : String) :
    List SymbolTable → Option (Symbol × Nat)
  | [] => none
  | frame :: outer =>
      match (frame.find? name).filter wanted with
      | some symbol => some (symbol, outer.length)
      | none => findIn wanted name outer

/-- The innermost entry for `name` that satisfies `wanted`, or the failure to find one. -/
def getWhere (scopes : ScopeStack) (wanted : Symbol → Bool) (name : String) :
    Except SymbolError (Symbol × Nat) :=
  if scopes.isOpen then
    match findIn wanted name scopes.frames with
    | some found => .ok found
    | none => .error .itemNotFound
  else .error .notInitialized

/-- What `name` means here, and the index of the block that says so. -/
def getWithDepth (scopes : ScopeStack) (name : String) : Except SymbolError (Symbol × Nat) :=
  scopes.getWhere (fun _ => true) name

/-- What `name` means here. -/
def get (scopes : ScopeStack) (name : String) : Except SymbolError Symbol :=
  (·.1) <$> scopes.getWithDepth name

/-- The innermost entry for `name` that has a value. An outer one stays visible while an inner
one waits for its first value.
-/
def getInitialized (scopes : ScopeStack) (name : String) :
    Except SymbolError (Symbol × Nat) :=
  scopes.getWhere Symbol.initialized name

/-- Whether the outermost block says what `name` means here. -/
def isGlobal (scopes : ScopeStack) (name : String) : Except SymbolError Bool :=
  (fun found => found.2 = 0) <$> scopes.getWithDepth name

/-- Changes the innermost entry for `name` in a list of blocks. -/
def modifyIn (name : String) (change : Symbol → Except SymbolError Symbol) :
    List SymbolTable → Except SymbolError (List SymbolTable)
  | [] => .error .itemNotFound
  | frame :: outer =>
      if frame.contains name then (· :: outer) <$> frame.modify name change
      else (frame :: ·) <$> modifyIn name change outer

/-- Changes what `name` means here. -/
def modify (scopes : ScopeStack) (name : String)
    (change : Symbol → Except SymbolError Symbol) : Except SymbolError ScopeStack :=
  if scopes.isOpen then ScopeStack.mk <$> modifyIn name change scopes.frames
  else .error .notInitialized

end ScopeStack

end ExprCompiler

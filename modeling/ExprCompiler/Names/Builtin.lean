import ExprCompiler.Names.Scope

/-! The functions that every program can use. -/

namespace ExprCompiler

/-- A built-in function. -/
structure Builtin where
  name : String
  params : List Param := []
  returns : SymbolKind
  returnsNil : Bool := false
  /-- Takes any number of arguments of any type. -/
  variadic : Bool := false
deriving DecidableEq, Repr, Inhabited

namespace Builtin

/-- All built-in functions, in the order of their declaration. -/
def all : List Builtin := [
  { name := "readString", returns := .string, returnsNil := true },
  { name := "readInt", returns := .integer, returnsNil := true },
  { name := "readDouble", returns := .double, returnsNil := true },
  { name := "write", returns := .undefined, variadic := true },
  { name := "Int2Double", params := [⟨"term", "_", .integer, false⟩], returns := .double },
  { name := "Double2Int", params := [⟨"term", "_", .double, false⟩], returns := .integer },
  { name := "length", params := [⟨"s", "_", .string, false⟩], returns := .integer },
  {
    name := "substring"
    params := [
      ⟨"s", "of", .string, false⟩,
      ⟨"i", "startingAt", .integer, false⟩,
      ⟨"j", "endingBefore", .integer, false⟩
    ]
    returns := .string
    returnsNil := true
  },
  { name := "ord", params := [⟨"c", "_", .string, false⟩], returns := .integer },
  { name := "chr", params := [⟨"i", "_", .integer, false⟩], returns := .string }
]

/-- The built-in function with this name. -/
def find? (name : String) : Option Builtin :=
  all.find? (·.name = name)

/-- Makes a fresh entry the declaration of a built-in function. -/
def describe (builtin : Builtin) (symbol : Symbol) : Symbol :=
  { symbol with
    kind := .function
    initialized := true
    defined := true
    params := builtin.params
    returnKind := builtin.returns
    returnNilable := builtin.returnsNil }

/-- Declares one built-in function. -/
def declare (builtin : Builtin) (table : SymbolTable) (uid : UInt32) :
    Except SymbolError SymbolTable :=
  table.insert builtin.name uid >>= fun table =>
    table.modify builtin.name fun symbol => .ok (builtin.describe symbol)

/-- Declares functions one after the other with consecutive numbers, up to the first failure;
the declarations before it stay.
-/
def declareAll :
    List Builtin → SymbolTable → UInt32 → Except SymbolError Unit × SymbolTable × UInt32
  | [], table, uid => (.ok (), table, uid)
  | builtin :: rest, table, uid =>
      match builtin.declare table uid with
      | .error error => (.error error, table, uid)
      | .ok table => declareAll rest table (uid + 1)

/-- Declares all built-in functions in the outermost block, numbered from `uid` on. -/
def register (scopes : ScopeStack) (uid : UInt32) :
    Except SymbolError Unit × ScopeStack × UInt32 :=
  match scopes.global with
  | .error error => (.error error, scopes, uid)
  | .ok table =>
      let (result, table, uid) := declareAll all table uid
      (result, scopes.setGlobal table, uid)

end Builtin

end ExprCompiler

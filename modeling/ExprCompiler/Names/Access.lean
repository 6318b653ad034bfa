import ExprCompiler.Names.Table

/-! Typed access to the entries of a symbol table. Each operation checks that the name is
stored, then that it denotes what the operation is about, then that the parameter exists.
-/

namespace ExprCompiler

namespace Symbol

/-- Passes anything but a function. -/
def asVariable (symbol : Symbol) : Except SymbolError Symbol :=
  if symbol.isFunction then .error .itemIsFunction else .ok symbol

/-- Passes only a function. -/
def asFunction (symbol : Symbol) : Except SymbolError Symbol :=
  if symbol.isFunction then .ok symbol else .error .itemNotFunction

/-- The parameter with this name, or the failure to find it. -/
def getParam (symbol : Symbol) (name : String) : Except SymbolError Param :=
  match symbol.param? name with
  | some param => .ok param
  | none => .error .paramNotFound

/-- Adds a parameter after the others. Its name must be new to the function. -/
def addParam (symbol : Symbol) (param : Param) : Call Symbol :=
  match symbol.param? param.name with
  | some _ => .fail .alreadyStored symbol
  | none => .done { symbol with params := symbol.params ++ [param] }

/-- Changes the first parameter in a list that has this name. -/
def changeFirst (name : String) (change : Param → Param) : List Param → List Param
  | [] => []
  | param :: rest =>
      if param.name = name then change param :: rest
      else param :: changeFirst name change rest

/-- Changes the parameter with this name. -/
def modifyParam (symbol : Symbol) (name : String) (change : Param → Param) : Call Symbol :=
  match symbol.param? name with
  | some _ => .done { symbol with params := changeFirst name change symbol.params }
  | none => .fail .paramNotFound symbol

end Symbol

namespace SymbolTable

/-- Changes a variable or constant. -/
def updateVariable (table : SymbolTable) (name : String) (change : Symbol → Call Symbol) :
    Call SymbolTable :=
  table.update name fun symbol =>
    if symbol.isFunction then .fail .itemIsFunction symbol else change symbol

/-- Changes a function. -/
def updateFunction (table : SymbolTable) (name : String) (change : Symbol → Call Symbol) :
    Call SymbolTable :=
  table.update name fun symbol =>
    if symbol.isFunction then change symbol else .fail .itemNotFunction symbol

/-- What is stored under `name`, if it is no function. -/
def getVariable (table : SymbolTable) (name : String) : Except SymbolError Symbol :=
  table.get name >>= Symbol.asVariable

/-- What is stored under `name`, if it is a function. -/
def getFunction (table : SymbolTable) (name : String) : Except SymbolError Symbol :=
  table.get name >>= Symbol.asFunction

/-- Sets what a name denotes. -/
def setKind (table : SymbolTable) (name : String) (kind : SymbolKind) :
    Call SymbolTable :=
  table.update name fun symbol => .done { symbol with kind }

/-- What a name denotes. -/
def getKind (table : SymbolTable) (name : String) : Except SymbolError SymbolKind :=
  Symbol.kind <$> table.get name

/-- Sets whether a name has a value. -/
def setInitialized (table : SymbolTable) (name : String) (initialized : Bool) :
    Call SymbolTable :=
  table.update name fun symbol => .done { symbol with initialized }

/-- Whether a name has a value. -/
def getInitialized (table : SymbolTable) (name : String) : Except SymbolError Bool :=
  Symbol.initialized <$> table.get name

/-- Sets whether a variable can be assigned again. -/
def setMutable (table : SymbolTable) (name : String) (mutable : Bool) :
    Call SymbolTable :=
  table.updateVariable name fun symbol => .done { symbol with mutable }

/-- Whether a variable can be assigned again. -/
def getMutable (table : SymbolTable) (name : String) : Except SymbolError Bool :=
  Symbol.mutable <$> table.getVariable name

/-- Sets whether a variable may hold nil. -/
def setNilable (table : SymbolTable) (name : String) (nilable : Bool) :
    Call SymbolTable :=
  table.updateVariable name fun symbol => .done { symbol with nilable }

/-- Whether a variable may hold nil. -/
def getNilable (table : SymbolTable) (name : String) : Except SymbolError Bool :=
  Symbol.nilable <$> table.getVariable name

/-- Sets whether the body of a function has been seen. -/
def setDefined (table : SymbolTable) (name : String) (defined : Bool) :
    Call SymbolTable :=
  table.updateFunction name fun symbol => .done { symbol with defined }

/-- Whether the body of a function has been seen. -/
def getDefined (table : SymbolTable) (name : String) : Except SymbolError Bool :=
  Symbol.defined <$> table.getFunction name

/-- Sets the type of what a function returns. -/
def setReturn (table : SymbolTable) (name : String) (kind : SymbolKind) (nilable : Bool) :
    Call SymbolTable :=
  table.updateFunction name fun symbol =>
    .done { symbol with returnKind := kind, returnNilable := nilable }

/-- The type of what a function returns, and whether that may be nil. -/
def getReturn (table : SymbolTable) (name : String) :
    Except SymbolError (SymbolKind × Bool) :=
  (fun symbol => (symbol.returnKind, symbol.returnNilable)) <$> table.getFunction name

/-- Adds a parameter to a function. -/
def addParam (table : SymbolTable) (function : String) (param : Param) :
    Call SymbolTable :=
  table.updateFunction function fun symbol => symbol.addParam param

/-- A parameter of a function. -/
def getParam (table : SymbolTable) (function param : String) : Except SymbolError Param :=
  table.getFunction function >>= fun symbol => symbol.getParam param

/-- Changes a parameter of a function. -/
def modifyParam (table : SymbolTable) (function param : String) (change : Param → Param) :
    Call SymbolTable :=
  table.updateFunction function fun symbol => symbol.modifyParam param change

/-- Sets the type of a parameter. -/
def setParamKind (table : SymbolTable) (function param : String) (kind : SymbolKind) :
    Call SymbolTable :=
  table.modifyParam function param fun param => { param with kind }

/-- The type of a parameter. -/
def getParamKind (table : SymbolTable) (function param : String) :
    Except SymbolError SymbolKind :=
  Param.kind <$> table.getParam function param

/-- Sets the label of a parameter. -/
def setParamLabel (table : SymbolTable) (function param label : String) :
    Call SymbolTable :=
  table.modifyParam function param fun param => { param with label }

/-- The label of a parameter. -/
def getParamLabel (table : SymbolTable) (function param : String) :
    Except SymbolError String :=
  Param.label <$> table.getParam function param

/-- Sets whether a parameter may be nil. -/
def setParamNilable (table : SymbolTable) (function param : String) (nilable : Bool) :
    Call SymbolTable :=
  table.modifyParam function param fun param => { param with nilable }

/-- Whether a parameter may be nil. -/
def getParamNilable (table : SymbolTable) (function param : String) :
    Except SymbolError Bool :=
  Param.nilable <$> table.getParam function param

end SymbolTable

end ExprCompiler

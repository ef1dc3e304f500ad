import CodeDb.Lib.UpdateFirst
import CodeDb.Model.ProgramRoot

/-!
# Names and lookups in a program root

The checks names have to pass, and the lookups by which the operations find a
symbol or a type in the parallel lists of a root. A lookup takes the first match.
-/

namespace CodeDb

open SortOn

/-! ### Names -/

/-- The words that cannot be a name. -/
def reservedProjectionIdentifiers : List String :=
  ["fn", "if", "then", "else", "let", "in", "module", "mut", "of", "record", "true", "false", "i64",
    "bool", "unit", "auto", "break", "case", "char", "const", "continue", "default", "do", "double",
    "enum", "extern", "float", "fold", "for", "goto", "int", "long", "with", "register", "return",
    "short", "signed", "sizeof", "static", "struct", "switch", "typedef", "union", "unsigned",
    "void", "volatile", "while"]

/-- A name that can be projected to source text. -/
def isProjectionIdentifier (name : String) : Bool :=
  match name.toList with
  | [] => false
  | first :: rest =>
    (first == '_' || first.isAlpha) && rest.all (fun c => c == '_' || c.isAlphanum) &&
      !reservedProjectionIdentifiers.contains name

/-- Check a name. -/
def validateProjectionIdentifier (label name : String) : Except String Unit :=
  if isProjectionIdentifier name then .ok ()
  else .error (label ++ " must be a projection-safe identifier: " ++ name.quote)

/-- Check names one after the other. -/
def validateEach {α : Type} (check : α → Except String Unit) : List α → Except String Unit
  | [] => .ok ()
  | a :: rest => do
    check a
    validateEach check rest

/-- Check a module path, segment by segment. -/
def validateModulePath (label module : String) : Except String Unit :=
  if module.isEmpty then .error (label ++ " must not be empty")
  else
    validateEach (fun segment => validateProjectionIdentifier label (String.ofList segment))
      (module.toList.splitOn '.')

/-- Check the elements of a list one after the other, each before its name is
compared with the names seen before it. -/
def validateDistinct {α : Type} (check : α → Except String Unit) (name : α → String)
    (duplicate : String → String) : List α → List String → Except String Unit
  | [], _ => .ok ()
  | a :: rest, seen => do
    check a
    if seen.contains (name a) then .error (duplicate (name a))
    else validateDistinct check name duplicate rest (name a :: seen)

/-! ### Modules -/

/-- The key of the metadata that lists the modules of a root. -/
def rootModulesMetadataKey : String := "modules"

/-- List the modules of a root in its metadata. -/
def synchronizeModuleMetadata (root : ProgramRootPayload) : ProgramRootPayload :=
  let modules := sortedSet (root.names.map (·.module) ++ root.typeNames.map (·.module))
  if modules.isEmpty then { root with metadata := root.metadata.erase rootModulesMetadataKey }
  else
    { root with
      metadata := root.metadata.insert rootModulesMetadataKey
        (.array (modules.map fun name => .object [("name", .string name)])) }

/-! ### Lookups -/

/-- The entry of a symbol. -/
def rootSymbol (root : ProgramRootPayload) (symbol : Hash) : Option RootSymbolPayload :=
  root.symbols.find? (·.symbol == symbol)

/-- The entry of a type. -/
def rootType (root : ProgramRootPayload) (typeSymbol : Hash) : Option RootTypePayload :=
  root.types.find? (·.typeSymbol == typeSymbol)

/-- The entry of a symbol that must be there. -/
def rootSymbolEntry (root : ProgramRootPayload) (symbol : Hash) :
    Except String RootSymbolPayload :=
  match rootSymbol root symbol with
  | some entry => .ok entry
  | none => .error ("symbol missing from root " ++ symbol)

/-- The entry of a type that must be there. -/
def rootTypeEntry (root : ProgramRootPayload) (typeSymbol : Hash) : Except String RootTypePayload :=
  match rootType root typeSymbol with
  | some entry => .ok entry
  | none => .error ("type missing from root " ++ typeSymbol)

/-- Change the entry of a symbol. -/
def updateSymbol (root : ProgramRootPayload) (symbol : Hash)
    (change : RootSymbolPayload → RootSymbolPayload) : ProgramRootPayload :=
  { root with symbols := root.symbols.updateFirst (·.symbol == symbol) change }

/-- Give a type another definition. -/
def updateTypeDef (root : ProgramRootPayload) (typeSymbol typeDef : Hash) : ProgramRootPayload :=
  { root with
    types := root.types.updateFirst (·.typeSymbol == typeSymbol)
      fun entry => { entry with typeDef := typeDef } }

/-- The parameter names of a symbol. -/
def paramNames (root : ProgramRootPayload) (symbol : Hash) : List String :=
  match root.paramNames.find? (·.symbol == symbol) with
  | some entry => entry.names
  | none => []

/-- Set the parameter names of a symbol. -/
def upsertParamNames (root : ProgramRootPayload) (symbol : Hash) (names : List String) :
    ProgramRootPayload :=
  if root.paramNames.any (·.symbol == symbol) then
    { root with
      paramNames := root.paramNames.updateFirst (·.symbol == symbol)
        fun entry => { entry with names := names } }
  else { root with paramNames := root.paramNames ++ [⟨symbol, names⟩] }

/-- The binding a symbol is shown by: its preferred one, else any. -/
def preferredBinding (root : ProgramRootPayload) (symbol : Hash) : Option NameBinding :=
  (root.names.find? fun b => b.symbol == symbol && b.isPreferred).or
    (root.names.find? fun b => b.symbol == symbol)

/-- The preferred bindings of names. -/
def preferredNames (root : ProgramRootPayload) : List NameBinding :=
  sortOn (fun b => (toLex (b.module, toLex (b.displayName, b.symbol)) :
    String ×ₗ String ×ₗ Hash)) (root.names.filter (·.isPreferred))

/-- How a symbol is shown. -/
def symbolDisplay (root : ProgramRootPayload) (symbol : Hash) : Except String String :=
  match preferredBinding root symbol with
  | some binding => .ok binding.displayName
  | none => .error ("symbol has no display name " ++ symbol)

/-- How a symbol is shown in a module. -/
def symbolDisplayForModule (root : ProgramRootPayload) (currentModule : String) (symbol : Hash) :
    Except String String :=
  match preferredBinding root symbol with
  | some binding =>
    .ok (if binding.module == currentModule then binding.displayName
      else binding.module ++ "." ++ binding.displayName)
  | none => .error ("symbol has no display name " ++ symbol)

/-- The module of the binding a symbol is shown by. -/
def preferredModuleForSymbol (root : ProgramRootPayload) (symbol : Hash) : Except String String :=
  match preferredBinding root symbol with
  | some binding => .ok binding.module
  | none => .error ("symbol " ++ symbol ++ " has no name binding")

/-- A name is taken in a module. -/
def nameTaken (root : ProgramRootPayload) (module name : String) : Bool :=
  root.names.any fun b => b.module == module && b.displayName == name

/-- A type name is taken in a module. -/
def typeNameTaken (root : ProgramRootPayload) (module name : String) : Bool :=
  root.typeNames.any fun b => b.module == module && b.displayName == name

/-- A name points to a symbol. -/
def namePointsToSymbol (root : ProgramRootPayload) (module name : String) (symbol : Hash) : Bool :=
  root.names.any fun b => b.module == module && b.displayName == name && b.symbol == symbol

/-- A type name points to a type. -/
def typeNamePointsToType (root : ProgramRootPayload) (module name : String) (typeSymbol : Hash) :
    Bool :=
  root.typeNames.any fun b =>
    b.module == module && b.displayName == name && b.typeSymbol == typeSymbol

/-- A preferred name points to a symbol. -/
def preferredNamePointsToSymbol (root : ProgramRootPayload) (module name : String)
    (symbol : Hash) : Bool :=
  root.names.any fun b =>
    b.module == module && b.displayName == name && b.symbol == symbol && b.isPreferred

/-- A preferred type name points to a type. -/
def preferredTypeNamePointsToType (root : ProgramRootPayload) (module name : String)
    (typeSymbol : Hash) : Bool :=
  root.typeNames.any fun b =>
    b.module == module && b.displayName == name && b.typeSymbol == typeSymbol && b.isPreferred

/-- What a name that does not point where it should reports. -/
def notPointing (module name : String) (symbol : Hash) : String :=
  "precondition failed: " ++ module ++ "." ++ name ++ " does not point to " ++ symbol

/-- A name must point to a symbol. -/
def assertNamePoints (root : ProgramRootPayload) (module name : String) (symbol : Hash) :
    Except String Unit :=
  if namePointsToSymbol root module name symbol then .ok ()
  else .error (notPointing module name symbol)

/-- A type name must point to a type. -/
def assertTypeNamePoints (root : ProgramRootPayload) (module name : String) (typeSymbol : Hash) :
    Except String Unit :=
  if typeNamePointsToType root module name typeSymbol then .ok ()
  else .error (notPointing module name typeSymbol)

end CodeDb

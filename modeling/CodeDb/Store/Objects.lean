import CodeDb.Store.Hashing
import Mathlib.Data.List.AList

/-!
# The object store

Objects are stored under the hash of their kind and their canonical text, and are
never replaced. A program root is stored in its canonical order, after its
exports have been checked, and is brought into that order again when it is read.

## Main definitions

* `Objects`, `putObject`, `getKind`, `getPayload`
* `rootToValue`, `rootFromValue` — the JSON form of a program root
* `loadRoot`, `validateExportMap`, `putProgramRoot`
-/

namespace CodeDb

/-- Why an operation was refused. -/
abbrev Error := String

/-- The version of the database schema objects are hashed with. -/
def schemaVersion : Int := 1

/-- A stored object. -/
structure StoredObject where
  kind : String
  schemaVersion : Int
  payloadJson : String
  deriving DecidableEq

/-- The table of objects. -/
abbrev Objects := AList fun _ : Hash => StoredObject

/-- Insert a row unless its key is taken. -/
def insertOrIgnore {ν : Type*} (table : AList fun _ : String => ν) (key : String) (row : ν) :
    AList fun _ : String => ν :=
  if key ∈ table then table else table.insert key row

theorem lookup_insertOrIgnore_self {ν : Type*} (table : AList fun _ : String => ν) (key : String)
    (row : ν) : (insertOrIgnore table key row).lookup key = some ((table.lookup key).getD row) := by
  unfold insertOrIgnore
  split_ifs with taken
  · obtain ⟨old, found⟩ := Option.isSome_iff_exists.mp (AList.lookup_isSome.mpr taken)
    rw [found, Option.getD_some]
  · rw [AList.lookup_insert, AList.lookup_eq_none.mpr taken, Option.getD_none]

theorem lookup_insertOrIgnore_of_ne {ν : Type*} (table : AList fun _ : String => ν)
    {key other : String} (row : ν) (differs : other ≠ key) :
    (insertOrIgnore table key row).lookup other = table.lookup other := by
  unfold insertOrIgnore
  split_ifs
  · rfl
  · exact AList.lookup_insert_ne differs

/-- Rows that are there stay. -/
theorem lookup_insertOrIgnore_of_some {ν : Type*} {table : AList fun _ : String => ν}
    {key other : String} {row old : ν} (found : table.lookup other = some old) :
    (insertOrIgnore table key row).lookup other = some old := by
  by_cases same : other = key
  · subst same
    rw [lookup_insertOrIgnore_self, found, Option.getD_some]
  · rw [lookup_insertOrIgnore_of_ne table row same, found]

/-- The hash of an object with a given payload. -/
def objectHash (P : Primitives) (kind : String) (payload : JsonValue) : Hash :=
  hashObjectCanonical P kind schemaVersion (canonicalJson P.floatText payload)

/-- Store an object. -/
def putObject (P : Primitives) (objects : Objects) (kind : String) (payload : JsonValue) :
    Hash × Objects :=
  (objectHash P kind payload, insertOrIgnore objects (objectHash P kind payload)
    ⟨kind, schemaVersion, canonicalJson P.floatText payload⟩)

/-- The kind of a stored object. -/
def getKind (objects : Objects) (hash : Hash) : Except Error String :=
  match objects.lookup hash with
  | some object => .ok object.kind
  | none => .error ("missing object " ++ hash)

/-- The payload of a stored object, read back from its text. -/
def getPayload (P : Primitives) (objects : Objects) (hash : Hash) : Except Error JsonValue :=
  match objects.lookup hash with
  | some object => P.parseJson object.payloadJson
  | none => .error ("missing object " ++ hash)

/-! ### The JSON form of a program root -/

/-- What reading a value of the wrong shape reports. -/
def shapeError : Error := "invalid value"

namespace JsonValue

/-- A string value. -/
def asString : JsonValue → Except Error String
  | .string s => .ok s
  | _ => .error shapeError

/-- A boolean value. -/
def asBool : JsonValue → Except Error Bool
  | .bool b => .ok b
  | _ => .error shapeError

/-- An array whose elements are read alike. -/
def asList {α : Type} (read : JsonValue → Except Error α) : JsonValue → Except Error (List α)
  | .array values => values.mapM read
  | _ => .error shapeError

/-- The entries of an object. -/
def asEntries : JsonValue → Except Error (List (String × JsonValue))
  | .object entries => .ok entries
  | _ => .error shapeError

/-- A required field of an object. -/
def field {α : Type} (read : JsonValue → Except Error α) (name : String)
    (entries : List (String × JsonValue)) : Except Error α :=
  match entries.lookup name with
  | some v => read v
  | none => .error ("missing field " ++ name)

/-- A list field of an object that is left out when the list is empty. -/
def listField {α : Type} (read : JsonValue → Except Error α) (name : String)
    (entries : List (String × JsonValue)) : Except Error (List α) :=
  match entries.lookup name with
  | some v => v.asList read
  | none => .ok []

end JsonValue

/-- A list field of an object, left out when the list is empty. -/
def listEntry {α : Type} (write : α → JsonValue) (name : String) (l : List α) :
    List (String × JsonValue) :=
  if l.isEmpty then [] else [(name, .array (l.map write))]

def RootSymbolPayload.toValue (e : RootSymbolPayload) : JsonValue :=
  .object [("definition", .string e.definition), ("signature", .string e.signature),
    ("symbol", .string e.symbol)]

def RootSymbolPayload.fromValue (v : JsonValue) : Except Error RootSymbolPayload := do
  let entries ← v.asEntries
  return { symbol := ← JsonValue.field JsonValue.asString "symbol" entries
           definition := ← JsonValue.field JsonValue.asString "definition" entries
           signature := ← JsonValue.field JsonValue.asString "signature" entries }

def RootTypePayload.toValue (e : RootTypePayload) : JsonValue :=
  .object [("type_def", .string e.typeDef), ("type_symbol", .string e.typeSymbol)]

def RootTypePayload.fromValue (v : JsonValue) : Except Error RootTypePayload := do
  let entries ← v.asEntries
  return { typeSymbol := ← JsonValue.field JsonValue.asString "type_symbol" entries
           typeDef := ← JsonValue.field JsonValue.asString "type_def" entries }

def NameBinding.toValue (b : NameBinding) : JsonValue :=
  .object [("display_name", .string b.displayName), ("is_preferred", .bool b.isPreferred),
    ("module", .string b.module), ("symbol", .string b.symbol)]

def NameBinding.fromValue (v : JsonValue) : Except Error NameBinding := do
  let entries ← v.asEntries
  return { module := ← JsonValue.field JsonValue.asString "module" entries
           displayName := ← JsonValue.field JsonValue.asString "display_name" entries
           symbol := ← JsonValue.field JsonValue.asString "symbol" entries
           isPreferred := ← JsonValue.field JsonValue.asBool "is_preferred" entries }

def TypeNameBinding.toValue (b : TypeNameBinding) : JsonValue :=
  .object [("display_name", .string b.displayName), ("is_preferred", .bool b.isPreferred),
    ("module", .string b.module), ("type_symbol", .string b.typeSymbol)]

def TypeNameBinding.fromValue (v : JsonValue) : Except Error TypeNameBinding := do
  let entries ← v.asEntries
  return { module := ← JsonValue.field JsonValue.asString "module" entries
           displayName := ← JsonValue.field JsonValue.asString "display_name" entries
           typeSymbol := ← JsonValue.field JsonValue.asString "type_symbol" entries
           isPreferred := ← JsonValue.field JsonValue.asBool "is_preferred" entries }

def ParamNames.toValue (p : ParamNames) : JsonValue :=
  .object [("names", .array (p.names.map .string)), ("symbol", .string p.symbol)]

def ParamNames.fromValue (v : JsonValue) : Except Error ParamNames := do
  let entries ← v.asEntries
  return { symbol := ← JsonValue.field JsonValue.asString "symbol" entries
           names := ← JsonValue.field (JsonValue.asList JsonValue.asString) "names" entries }

def ExportBinding.toValue (b : ExportBinding) : JsonValue :=
  .object [("exported_name", .string b.exportedName), ("symbol", .string b.symbol)]

def ExportBinding.fromValue (v : JsonValue) : Except Error ExportBinding := do
  let entries ← v.asEntries
  return { symbol := ← JsonValue.field JsonValue.asString "symbol" entries
           exportedName := ← JsonValue.field JsonValue.asString "exported_name" entries }

def RootTestBinding.toValue (b : RootTestBinding) : JsonValue :=
  .object [("name", .string b.name), ("test", .string b.test)]

def RootTestBinding.fromValue (v : JsonValue) : Except Error RootTestBinding := do
  let entries ← v.asEntries
  return { name := ← JsonValue.field JsonValue.asString "name" entries
           test := ← JsonValue.field JsonValue.asString "test" entries }

/-- Metadata read from the entries of an object. -/
def metadataFromValue (v : JsonValue) : Except Error Metadata := do
  let entries ← v.asEntries
  return entries.foldl (fun m e => m.insert e.1 e.2) ∅

/-- The JSON form of a program root. -/
def rootToValue (root : ProgramRootPayload) : JsonValue :=
  .object (listEntry ExportBinding.toValue "exports" root.exports ++
    [("metadata", .object root.metadata.entries),
     ("names", .array (root.names.map NameBinding.toValue)),
     ("param_names", .array (root.paramNames.map ParamNames.toValue))] ++
    listEntry .string "recursion_groups" root.recursionGroups ++
    [("symbols", .array (root.symbols.map RootSymbolPayload.toValue))] ++
    listEntry RootTestBinding.toValue "tests" root.tests ++
    listEntry TypeNameBinding.toValue "type_names" root.typeNames ++
    listEntry .string "type_recursion_groups" root.typeRecursionGroups ++
    listEntry RootTypePayload.toValue "types" root.types)

/-- Read a program root from its JSON form. -/
def rootFromValue (v : JsonValue) : Except Error ProgramRootPayload := do
  let entries ← v.asEntries
  return {
    symbols := ← JsonValue.field (JsonValue.asList RootSymbolPayload.fromValue) "symbols" entries
    types := ← JsonValue.listField RootTypePayload.fromValue "types" entries
    names := ← JsonValue.field (JsonValue.asList NameBinding.fromValue) "names" entries
    typeNames := ← JsonValue.listField TypeNameBinding.fromValue "type_names" entries
    paramNames := ← JsonValue.field (JsonValue.asList ParamNames.fromValue) "param_names" entries
    exports := ← JsonValue.listField ExportBinding.fromValue "exports" entries
    tests := ← JsonValue.listField RootTestBinding.fromValue "tests" entries
    recursionGroups := ← JsonValue.listField JsonValue.asString "recursion_groups" entries
    typeRecursionGroups := ← JsonValue.listField JsonValue.asString "type_recursion_groups" entries
    metadata := ← JsonValue.field metadataFromValue "metadata" entries }

/-- Read a program root from the store. -/
def loadRoot (P : Primitives) (objects : Objects) (rootHash : Hash) :
    Except Error ProgramRootPayload := do
  let payload ← getPayload P objects rootHash
  let root ← rootFromValue payload
  return normalizeRoot root

/-! ### Exports -/

/-- How many hexadecimal digits of a symbol hash name it in object files. -/
def internalAbiHashHexLen : Nat := 16

/-- A hexadecimal digit of either case. -/
def isHexDigit (c : Char) : Bool :=
  c.isDigit || ('a' ≤ c && c ≤ 'f') || ('A' ≤ c && c ≤ 'F')

/-- The name of a symbol in object files. -/
def internalAbiSymbol (symbolHash : Hash) : Except Error String :=
  if "sha256:".toList.isPrefixOf symbolHash.toList then
    let hex := symbolHash.toList.drop "sha256:".toList.length
    if hex.length < internalAbiHashHexLen || !hex.all isHexDigit then
      .error "symbol hash must contain at least 16 hex characters"
    else .ok ("codedb_" ++ String.ofList (hex.take internalAbiHashHexLen))
  else .error "symbol hash must use sha256: prefix"

/-- A C identifier. -/
def isValidAbiIdentifier (name : String) : Bool :=
  match name.toList with
  | [] => false
  | first :: rest =>
    (first == '_' || first.isAlpha) && rest.all fun c => c == '_' || c.isAlphanum

/-- The keywords of C. -/
def cKeywords : List String :=
  ["auto", "break", "case", "char", "const", "continue", "default", "do", "double", "else", "enum",
    "extern", "float", "for", "goto", "if", "inline", "int", "long", "register", "restrict",
    "return", "short", "signed", "sizeof", "static", "struct", "switch", "typedef", "union",
    "unsigned", "void", "volatile", "while", "_Alignas", "_Alignof", "_Atomic", "_Bool",
    "_Complex", "_Generic", "_Imaginary", "_Noreturn", "_Static_assert", "_Thread_local"]

/-- Whether an exported name can stand in an object file. -/
def validateExportedAbiName (name : String) : Except Error Unit :=
  if !isValidAbiIdentifier name then .error ("bad ABI export name " ++ name.quote)
  else if name == "main" || cKeywords.contains name then
    .error ("reserved native ABI export name " ++ name.quote)
  else .ok ()

/-- The owners of the names the symbols of a root have in object files. -/
def internalSymbols : List RootSymbolPayload → List (String × Hash) →
    Except Error (List (String × Hash))
  | [], seen => .ok seen
  | entry :: rest, seen => do
    let internal ← internalAbiSymbol entry.symbol
    match seen.lookup internal with
    | some existing =>
      .error ("internal ABI symbol " ++ internal ++ " is shared by symbols " ++ existing ++
        " and " ++ entry.symbol)
    | none => internalSymbols rest ((internal, entry.symbol) :: seen)

/-- Check the exports of a root one by one, given the exported names seen before. -/
def validateExports (root : ProgramRootPayload) (internal : List (String × Hash)) :
    List ExportBinding → List String → Except Error Unit
  | [], _ => .ok ()
  | binding :: rest, seen =>
    if !root.symbols.any (·.symbol == binding.symbol) then
      .error ("export " ++ binding.exportedName ++ " points to missing symbol " ++ binding.symbol)
    else do
      validateExportedAbiName binding.exportedName
      if seen.contains binding.exportedName then
        .error ("duplicate exported ABI name " ++ binding.exportedName)
      else
        match internal.lookup binding.exportedName with
        | some owner =>
          if owner ≠ binding.symbol then
            .error ("exported ABI name " ++ binding.exportedName ++
              " conflicts with internal ABI symbol for " ++ owner)
          else validateExports root internal rest (binding.exportedName :: seen)
        | none => validateExports root internal rest (binding.exportedName :: seen)

/-- Check the names the symbols of a root get in object files. -/
def validateExportMap (root : ProgramRootPayload) : Except Error Unit := do
  let internal ← internalSymbols root.symbols []
  validateExports root internal root.exports []

/-- The hash a program root is stored under. -/
def programRootHash (P : Primitives) (root : ProgramRootPayload) : Hash :=
  objectHash P "ProgramRoot" (rootToValue (normalizeRoot root))

/-- Store a program root. -/
def putProgramRoot (P : Primitives) (objects : Objects) (root : ProgramRootPayload) :
    Except Error (Hash × Objects) := do
  validateExportMap (normalizeRoot root)
  return putObject P objects "ProgramRoot" (rootToValue (normalizeRoot root))

end CodeDb

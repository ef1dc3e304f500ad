import CodeDb.Model.RootQueries
import CodeDb.Store.StoreM

/-!
# The objects of definitions

What a program root refers to: the births of symbols, signatures, the definitions
of functions and of types, cliques and test cases, each an object with a payload
of its own. What they are made of is checked when they are stored, and again when
they are read.

## Main definitions

* `putSymbolBirth`, `putSymbolBirthSpec` — the identities of symbols
* `putSignature`, `signatureParts` — signatures
* `putFunctionDef`, `putExternalFunction`, `putTypeDef`, `typeDefinition`
-/

namespace CodeDb

open SortOn

variable {P : Primitives}

/-! ### Reading payloads -/

namespace JsonValue

/-- The value under a key of an object. -/
def get? : JsonValue → String → Option JsonValue
  | .object entries, key => entries.lookup key
  | _, _ => none

/-- The string of a string value. -/
def asStr? : Option JsonValue → Option String
  | some (.string s) => some s
  | _ => none

/-- A string under a key of an object. -/
def getStr (v : JsonValue) (key : String) (missing : Error) : Except Error String :=
  match asStr? (v.get? key) with
  | some s => .ok s
  | none => .error missing

/-- A list of strings. -/
def strings (l : List String) : JsonValue := .array (l.map .string)

/-- The strings of an array. -/
def getStrings (notString : Error) (values : List JsonValue) : Except Error (List String) :=
  values.mapM fun
    | .string s => .ok s
    | _ => .error notString

end JsonValue

/-! ### Births -/

/-- What identifies a symbol. -/
structure SymbolBirthSpec where
  symbolKind : String
  birthHistoryHash : String
  localNonce : String
  ownerTypeSymbol : Option Hash
  deriving DecidableEq

/-- The payload of a birth. -/
def SymbolBirthSpec.toPayload (spec : SymbolBirthSpec) : JsonValue :=
  .object ([("birth_history_hash", .string spec.birthHistoryHash),
    ("local_nonce", .string spec.localNonce)] ++
    (match spec.ownerTypeSymbol with
      | some owner => [("owner_type_symbol", .string owner)]
      | none => []) ++
    [("symbol_kind", .string spec.symbolKind)])

/-- A symbol of a kind that is born in a migration on top of a history point. -/
def birthSpec (parentHistoryHash : Option Hash) (birthSeed symbolKind : String)
    (ownerTypeSymbol : Option Hash) : SymbolBirthSpec where
  symbolKind := symbolKind
  birthHistoryHash := parentHistoryHash.getD "genesis"
  localNonce := birthSeed
  ownerTypeSymbol := ownerTypeSymbol

/-- The symbol of a birth. -/
def symbolOfBirth (P : Primitives) (spec : SymbolBirthSpec) : Hash :=
  objectHash P "SymbolBirth" spec.toPayload

/-- Store the birth of a symbol. -/
def putBirth (spec : SymbolBirthSpec) : StoreM P Hash := .put "SymbolBirth" spec.toPayload

def putSymbolBirth (parentHistoryHash : Option Hash) (birthSeed : String) : StoreM P Hash :=
  putBirth (birthSpec parentHistoryHash birthSeed "function" none)

def putTypeSymbolBirth (parentHistoryHash : Option Hash) (birthSeed : String) : StoreM P Hash :=
  putBirth (birthSpec parentHistoryHash birthSeed "type" none)

def putRegionParamBirth (parentHistoryHash : Option Hash) (owner : Hash) (birthSeed : String) :
    StoreM P Hash :=
  putBirth (birthSpec parentHistoryHash birthSeed "region_param" (some owner))

def putRecordFieldBirth (parentHistoryHash : Option Hash) (owner : Hash) (birthSeed : String) :
    StoreM P Hash :=
  putBirth (birthSpec parentHistoryHash birthSeed "record_field" (some owner))

def putEnumVariantBirth (parentHistoryHash : Option Hash) (owner : Hash) (birthSeed : String) :
    StoreM P Hash :=
  putBirth (birthSpec parentHistoryHash birthSeed "enum_variant" (some owner))

/-- Store a birth given by the caller, which must be of a kind and an owner. -/
def putSymbolBirthSpec (spec : SymbolBirthSpec) (expectedKind : String)
    (expectedOwner : Option Hash) : StoreM P Hash :=
  if spec.symbolKind ≠ expectedKind then
    .fail ("projection identity expected " ++ expectedKind ++ " SymbolBirth, got " ++
      spec.symbolKind)
  else
    match expectedOwner, spec.ownerTypeSymbol with
    | some expected, some actual =>
      if actual = expected then putBirth spec
      else .fail ("projection identity owner mismatch: expected " ++ expected ++ ", got " ++ actual)
    | some expected, none =>
      .fail ("projection identity missing owner type symbol " ++ expected)
    | none, some actual => .fail ("projection identity has unexpected owner " ++ actual)
    | none, none => putBirth spec

/-! ### Parameters -/

structure ParamSpec where
  name : String
  ty : String
  deriving DecidableEq

structure RegionParamDef where
  region : Hash
  name : String
  deriving DecidableEq

/-- The regions in scope, by name. -/
abbrev RegionScope := SortedMap String Hash

/-- The names of the regions in scope. -/
abbrev RegionNames := SortedMap Hash String

def regionScopeFromParams (params : List RegionParamDef) : RegionScope :=
  params.foldl (fun scope p => scope.insert p.name p.region) ∅

def regionNamesFromParams (params : List RegionParamDef) : RegionNames :=
  params.foldl (fun names p => names.insert p.region p.name) ∅

/-- A string that has the prefix of hashes. -/
def hasHashPrefix (s : String) : Bool := "sha256:".toList.isPrefixOf s.toList

def validateParamNames (params : List ParamSpec) : Except Error Unit :=
  validateDistinct (fun p => validateProjectionIdentifier "parameter name" p.name) (·.name)
    (fun name => "duplicate parameter name " ++ name.quote) params []

def validateRegionParamNames (params : List String) : Except Error Unit :=
  validateDistinct (validateProjectionIdentifier "region parameter") id
    ("duplicate region parameter " ++ ·) params []

def validateTypeParamNames (names : List String) : Except Error Unit :=
  validateDistinct (validateProjectionIdentifier "type parameter") id
    ("duplicate type parameter " ++ ·) names []

/-- Check region parameters: their names, and then that the regions are distinct
hashes. -/
def validateRegionParams (params : List RegionParamDef) : Except Error Unit :=
  go params [] []
where
  go : List RegionParamDef → List String → List Hash → Except Error Unit
    | [], _, _ => .ok ()
    | p :: rest, names, regions => do
      validateProjectionIdentifier "region parameter" p.name
      if names.contains p.name then .error ("duplicate region parameter " ++ p.name)
      else if !hasHashPrefix p.region then .error "region parameter symbol must be a hash"
      else if regions.contains p.region then
        .error ("duplicate region parameter symbol " ++ p.region)
      else go rest (p.name :: names) (p.region :: regions)

def RegionParamDef.toValue (p : RegionParamDef) : JsonValue :=
  .object [("name", .string p.name), ("region", .string p.region)]

def regionParamsFromPayload : Option JsonValue → Except Error (List RegionParamDef)
  | some (.array values) => do
    let params ← values.mapM fun entry => do
      let region ← entry.getStr "region" "region parameter missing region"
      let name ← entry.getStr "name" "region parameter missing name"
      return (⟨region, name⟩ : RegionParamDef)
    validateRegionParams params
    return params
  | some _ => .error "region_params must be an array"
  | none => .ok []

/-- The region parameters of a function, born with it. -/
def functionRegionParams (parentHistoryHash : Option Hash) (owner : Hash) (birthSeed : String)
    (names : List String) : StoreM P (List RegionParamDef) :=
  StoreM.each (fun (idx, name) => do
    let region ← putRegionParamBirth parentHistoryHash owner
      (birthSeed ++ ":region:" ++ toString idx ++ ":" ++ name)
    return (⟨region, name⟩ : RegionParamDef)) (names.mapIdx Prod.mk)

/-- How deep instances of types and functions may lead to further instances. -/
def genericInstantiationDepthLimit : Nat := 64

/-! ### Signatures -/

inductive Effect where
  | pure
  | trap
  | io
  | state
  | alloc
  | ffi
  | unsafeOps
  | concurrent
  deriving DecidableEq

def Effect.asStr : Effect → String
  | .pure => "pure"
  | .trap => "trap"
  | .io => "io"
  | .state => "state"
  | .alloc => "alloc"
  | .ffi => "ffi"
  | .unsafeOps => "unsafe"
  | .concurrent => "concurrent"

/-- The effects in their order. -/
def Effect.all : List Effect :=
  [.pure, .trap, .io, .state, .alloc, .ffi, .unsafeOps, .concurrent]

def Effect.fromStr (value : String) : Except Error Effect :=
  match Effect.all.find? (·.asStr == value) with
  | some effect => .ok effect
  | none => .error ("unknown effect " ++ value)

/-- Effects in order, each once, and none for a pure function. -/
def normalizeEffects (effects : List Effect) : Except Error (List Effect) :=
  let set := Effect.all.filter effects.contains
  if set.contains .pure then
    if set.length > 1 then .error "pure effect cannot be combined with other effects"
    else .ok []
  else .ok set

/-- The tag of the calling convention. -/
def abiTag : String := "codedb-v0-internal"

def signaturePayload (paramTypes : List Hash) (returnType : Hash) (effects : List Effect)
    (regionParams : List RegionParamDef) (typeParams : List String) : JsonValue :=
  .object ([("abi", .string abiTag), ("effects", .strings (effects.map Effect.asStr)),
    ("params", .strings paramTypes)] ++
    listEntry RegionParamDef.toValue "region_params" regionParams ++
    [("return", .string returnType)] ++
    listEntry .string "type_params" typeParams)

/-- Store a signature. -/
def putSignature (paramTypes : List Hash) (returnType : Hash) (effects : List Effect)
    (regionParams : List RegionParamDef) (typeParams : List String) : StoreM P Hash := do
  let effects ← normalizeEffects effects
  validateRegionParams regionParams
  .put "FunctionSignature" (signaturePayload paramTypes returnType effects regionParams typeParams)

/-- The parameter types and the return type of a signature. -/
def signatureParts (P : Primitives) (objects : Objects) (signature : Hash) :
    Except Error (List Hash × Hash) := do
  let payload ← getPayload P objects signature
  let params ← match payload.get? "params" with
    | some (.array values) => JsonValue.getStrings "signature param must be hash" values
    | _ => .error ("signature missing params " ++ signature)
  let returnType ← payload.getStr "return" ("signature missing return " ++ signature)
  return (params, returnType)

def signatureTypeParams (P : Primitives) (objects : Objects) (signature : Hash) :
    Except Error (List String) := do
  let payload ← getPayload P objects signature
  match payload.get? "type_params" with
  | none => .ok []
  | some (.array values) => JsonValue.getStrings "signature type param must be a string" values
  | some _ => .error ("signature type_params must be an array " ++ signature)

def signatureEffects (P : Primitives) (objects : Objects) (signature : Hash) :
    Except Error (List Effect) := do
  let payload ← getPayload P objects signature
  let names ← match payload.get? "effects" with
    | none => .ok []
    | some (.array values) => JsonValue.getStrings "signature effect must be string" values
    | some _ => .error ("signature effects must be an array " ++ signature)
  let effects ← names.mapM Effect.fromStr
  normalizeEffects effects

def signatureRegionParams (P : Primitives) (objects : Objects) (signature : Hash) :
    Except Error (List RegionParamDef) := do
  let payload ← getPayload P objects signature
  regionParamsFromPayload (payload.get? "region_params")

/-! ### Functions -/

/-- Store the definition of a function. -/
def putFunctionDef (symbol signature body : Hash) : StoreM P Hash :=
  .put "FunctionDef" (.object [("function_sig_hash", .string signature),
    ("symbol", .string symbol), ("typed_body_expr_hash", .string body)])

def functionBodyHash (P : Primitives) (objects : Objects) (definition : Hash) :
    Except Error Hash := do
  let payload ← getPayload P objects definition
  payload.getStr "typed_body_expr_hash" "function definition missing typed_body_expr_hash"

def functionSignatureHash (P : Primitives) (objects : Objects) (definition : Hash) :
    Except Error Hash := do
  let payload ← getPayload P objects definition
  payload.getStr "function_sig_hash" "definition missing function_sig_hash"

def definitionIsExternal (objects : Objects) (definition : Hash) : Except Error Bool := do
  let kind ← getKind objects definition
  return kind == "ExternalFunction"

def validateExternalAbiTag (abi : String) : Except Error Unit :=
  if abi = "c" then .ok ()
  else .error ("unsupported external ABI tag " ++ abi ++ "; supported ABI tags: c")

def validateExternalLinkName (name : String) : Except Error Unit :=
  if isValidAbiIdentifier name then .ok ()
  else .error ("external link_name must be a native identifier: " ++ name.quote)

def validateExternalLibraryName (name : String) : Except Error Unit :=
  if name.isEmpty || name.toList.any fun c => !(c.isAlphanum || c == '_' || c == '-' || c == '.')
  then .error "external library name must be non-empty and contain only alnum, _, -, or ."
  else .ok ()

/-- A function defined elsewhere. -/
structure ExternalFunctionMetadata where
  symbol : Hash
  signature : Hash
  abi : String
  linkName : String
  library : Option String
  deriving DecidableEq

def validateExternal (abi linkName : String) (library : Option String) : Except Error Unit := do
  validateExternalAbiTag abi
  validateExternalLinkName linkName
  match library with
  | some library => validateExternalLibraryName library
  | none => .ok ()

def ExternalFunctionMetadata.toValue (external : ExternalFunctionMetadata) : JsonValue :=
  .object ([("abi", .string external.abi), ("function_sig_hash", .string external.signature)] ++
    (match external.library with
      | some library => [("library", .string library)]
      | none => []) ++
    [("link_name", .string external.linkName), ("symbol", .string external.symbol)])

def externalFunctionMetadata (P : Primitives) (objects : Objects) (definition : Hash) :
    Except Error ExternalFunctionMetadata := do
  let kind ← getKind objects definition
  if kind ≠ "ExternalFunction" then .error ("definition is not ExternalFunction " ++ definition)
  else do
    let payload ← getPayload P objects definition
    let symbol ← payload.getStr "symbol" "external function missing symbol"
    let signature ← payload.getStr "function_sig_hash" "external function missing function_sig_hash"
    let abi ← payload.getStr "abi" "external function missing abi"
    let linkName ← payload.getStr "link_name" "external function missing link_name"
    let library ← match payload.get? "library" with
      | some (.string value) => .ok (some value)
      | some _ => .error "external function library must be a string"
      | none => .ok none
    validateExternal abi linkName library
    return { symbol := symbol, signature := signature, abi := abi, linkName := linkName
             library := library }

/-! ### Cliques -/

/-- Store a clique of functions, its members in order of symbol. -/
def putRecursionGroup (module : String) (members : List RootSymbolPayload) : StoreM P Hash :=
  .put "RecursionGroup" (.object
    [("members", .array ((sortOn (·.symbol) members).map RootSymbolPayload.toValue)),
     ("module", .string module)])

/-- Store a clique of types, its members in order of symbol. -/
def putTypeRecursionGroup (module : String) (members : List RootTypePayload) : StoreM P Hash :=
  .put "TypeRecursionGroup" (.object
    [("members", .array ((sortOn (·.typeSymbol) members).map RootTypePayload.toValue)),
     ("module", .string module)])

/-- The kind of the descriptors of instances of generic functions. -/
def monomorphicInstanceKind : String := "MonomorphicFunctionInstance"

def monomorphicInstanceDescriptor (generic : Hash) (typeArgs : List Hash) : JsonValue :=
  .object [("generic", .string generic), ("type_args", .strings typeArgs)]

/-- The symbol of an instance of a generic function. -/
def monomorphicInstanceSymbol (P : Primitives) (generic : Hash) (typeArgs : List Hash) : Hash :=
  objectHash P monomorphicInstanceKind (monomorphicInstanceDescriptor generic typeArgs)

/-! ### Types -/

/-- The hash of a builtin type. -/
def typeHashFor (P : Primitives) (typeKind : String) : Hash :=
  objectHash P "Type" (.object [("type_kind", .string typeKind)])

/-- A field or a variant as the source has it. -/
structure TypeMemberSpec where
  name : String
  ty : String
  deriving DecidableEq

/-- A type definition as the source has it. -/
inductive TypeDefinitionKind where
  | record (fields : List TypeMemberSpec)
  | enum (variants : List TypeMemberSpec)
  deriving DecidableEq

/-- The births a caller gives a type and its parts. -/
structure TypeDefinitionIdentity where
  typeSymbolBirth : SymbolBirthSpec
  regionParamBirths : List SymbolBirthSpec
  memberBirths : List SymbolBirthSpec
  deriving DecidableEq

structure TypeMemberDef where
  memberSymbol : Hash
  name : String
  typeHash : Hash
  deriving DecidableEq

/-- What records and enums have in common. -/
structure TypeDefinitionBody where
  typeSymbol : Hash
  regionParams : List RegionParamDef
  typeParams : List String
  members : List TypeMemberDef
  deriving DecidableEq

inductive TypeDefinition where
  | record (body : TypeDefinitionBody)
  | enum (body : TypeDefinitionBody)
  deriving DecidableEq

def TypeDefinition.body : TypeDefinition → TypeDefinitionBody
  | .record body => body
  | .enum body => body

/-- What a field or a variant is called in errors. -/
def TypeDefinition.memberLabel : TypeDefinition → String
  | .record _ => "record field"
  | .enum _ => "enum variant"

def validateMemberSpecs (label : String) (members : List TypeMemberSpec) : Except Error Unit :=
  validateDistinct (fun m => validateProjectionIdentifier label m.name) (·.name)
    (fun name => "duplicate " ++ label ++ " " ++ name) members []

def validateTypeMemberSpecs : TypeDefinitionKind → Except Error Unit
  | .record fields =>
    if fields.isEmpty then .error "record fields must not be empty"
    else validateMemberSpecs "record field" fields
  | .enum variants =>
    if variants.isEmpty then .error "enum variants must not be empty"
    else validateMemberSpecs "enum variant" variants

/-- Check the members of a type: their names, and then that they are distinct
hashes with a type. -/
def validateMemberDefs (label : String) (members : List TypeMemberDef) : Except Error Unit :=
  if members.isEmpty then .error (label ++ "s must not be empty")
  else go members [] []
where
  go : List TypeMemberDef → List String → List Hash → Except Error Unit
    | [], _, _ => .ok ()
    | m :: rest, names, symbols => do
      validateProjectionIdentifier label m.name
      if names.contains m.name then .error ("duplicate " ++ label ++ " " ++ m.name)
      else if !hasHashPrefix m.memberSymbol then .error (label ++ " symbol must be a hash")
      else if symbols.contains m.memberSymbol then
        .error ("duplicate " ++ label ++ " symbol " ++ m.memberSymbol)
      else if !hasHashPrefix m.typeHash then .error (label ++ " type must be a hash")
      else go rest (m.name :: names) (m.memberSymbol :: symbols)

/-- How records and enums are stored: the kind of the object, and the keys of the
members and of a member's symbol. -/
structure TypeDefinitionKeys where
  objectKind : String
  typeKind : String
  members : String
  symbol : String

def recordKeys : TypeDefinitionKeys := ⟨"RecordDef", "record", "fields", "field_symbol"⟩

def enumKeys : TypeDefinitionKeys := ⟨"EnumDef", "enum", "variants", "variant_symbol"⟩

def TypeDefinition.keys : TypeDefinition → TypeDefinitionKeys
  | .record _ => recordKeys
  | .enum _ => enumKeys

/-- The payload of a type definition. -/
def TypeDefinition.payload (definition : TypeDefinition) : JsonValue :=
  let body := definition.body
  .object ([(definition.keys.members, .array (body.members.map fun m =>
      .object (sortOn (·.1) [(definition.keys.symbol, .string m.memberSymbol),
        ("name", .string m.name), ("type", .string m.typeHash)]))),
    ("region_params", .array (body.regionParams.map RegionParamDef.toValue))] ++
    listEntry (fun name => .object [("name", .string name)]) "type_params" body.typeParams ++
    [("type_symbol", .string body.typeSymbol)] |> sortOn (·.1))

/-- Store a type definition. -/
def putTypeDef (typeSymbol : Hash) (definition : TypeDefinition) : StoreM P Hash :=
  let body := definition.body
  if body.typeSymbol ≠ typeSymbol then
    .fail "type definition symbol does not match TypeDef symbol"
  else do
    validateRegionParams body.regionParams
    validateTypeParamNames body.typeParams
    validateMemberDefs definition.memberLabel body.members
    let definitionHash ← .put definition.keys.objectKind definition.payload
    .put "TypeDef" (.object [("definition", .string definitionHash),
      ("type_kind", .string definition.keys.typeKind), ("type_symbol", .string typeSymbol)])

def typeParamsFromPayload : Option JsonValue → Except Error (List String)
  | some (.array values) => do
    let names ← values.mapM fun entry => entry.getStr "name" "type parameter missing name"
    validateTypeParamNames names
    return names
  | some _ => .error "type_params must be an array"
  | none => .ok []

def memberDefsFromPayload (label symbolField : String) (value : Option JsonValue) :
    Except Error (List TypeMemberDef) :=
  match value with
  | some (.array values) => do
    let members ← values.mapM fun entry => do
      let memberSymbol ← entry.getStr symbolField (label ++ " missing symbol")
      let name ← entry.getStr "name" (label ++ " missing name")
      let typeHash ← entry.getStr "type" (label ++ " missing type")
      return (⟨memberSymbol, name, typeHash⟩ : TypeMemberDef)
    validateMemberDefs label members
    return members
  | _ => .error (label ++ "s must be an array")

/-- Read a record or an enum definition. -/
def definitionBody (P : Primitives) (objects : Objects) (keys : TypeDefinitionKeys)
    (label shown : String) (expectedTypeSymbol definitionHash : Hash) :
    Except Error TypeDefinitionBody := do
  let kind ← getKind objects definitionHash
  if kind ≠ keys.objectKind then
    .error (shown ++ " definition hash points to non-" ++ keys.objectKind ++ " object " ++
      definitionHash)
  else do
    let payload ← getPayload P objects definitionHash
    let typeSymbol ← payload.getStr "type_symbol" (keys.objectKind ++ " missing type_symbol")
    if typeSymbol ≠ expectedTypeSymbol then
      .error (keys.objectKind ++ " type_symbol does not match TypeDef")
    else do
      let regionParams ← regionParamsFromPayload (payload.get? "region_params")
      let typeParams ← typeParamsFromPayload (payload.get? "type_params")
      let members ← memberDefsFromPayload label keys.symbol (payload.get? keys.members)
      return { typeSymbol := typeSymbol, regionParams := regionParams, typeParams := typeParams
               members := members }

/-- Read a type definition. -/
def typeDefinition (P : Primitives) (objects : Objects) (typeDef : Hash) :
    Except Error TypeDefinition := do
  let kind ← getKind objects typeDef
  if kind ≠ "TypeDef" then
    .error ("type definition hash points to non-TypeDef object " ++ typeDef)
  else do
    let payload ← getPayload P objects typeDef
    let typeSymbol ← payload.getStr "type_symbol" "TypeDef missing type_symbol"
    let typeKind ← payload.getStr "type_kind" "TypeDef missing type_kind"
    let definition ← payload.getStr "definition" "TypeDef missing definition"
    match typeKind with
    | "record" => do
      let body ← definitionBody P objects recordKeys "record field" "record" typeSymbol definition
      return .record body
    | "enum" => do
      let body ← definitionBody P objects enumKeys "enum variant" "enum" typeSymbol definition
      return .enum body
    | other => .error ("unknown TypeDef type_kind " ++ other)

end CodeDb

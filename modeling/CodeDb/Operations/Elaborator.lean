import CodeDb.Operations.Definitions

/-!
# Elaboration, indexing and checking

The operations on a root leave the language to the elaborator: it resolves the
sources of types, types the bodies of functions, turns typed bodies back into
sources, and checks them. What an operation does with the results is the same
whatever the elaborator computes, so it is a parameter here. It reads the store
and stores new objects, like everything else.

What is checked of a root apart from types and bodies is not left to it: that
signatures agree with definitions, that external functions name themselves, and
that the tests of a root can run.

## Main definitions

* `Elaborator` — what the operations ask of the language
* `indexRoot`, `typeCheckRoot` — what every new root has to pass
* `validateTestsForRoot` — the tests of a root
-/

namespace CodeDb

structure TypeCheckResult where
  exprHash : Hash
  typeHash : Hash
  deriving DecidableEq

/-- The renaming of a field or a variant. -/
inductive MemberRename where
  | field (typeSymbol memberSymbol : Hash) (oldName newName : String)
  | variant (typeSymbol memberSymbol : Hash) (oldName newName : String)
  deriving DecidableEq

/-- What the operations ask of the language. -/
structure Elaborator (P : Primitives) where
  /-- The sources of bodies. -/
  RawExpr : Type
  rawExprDecEq : DecidableEq RawExpr
  /-- The literals tests are made of. -/
  TestValue : Type
  testValueToValue : TestValue → JsonValue
  testValueFromValue : JsonValue → Except Error TestValue
  /-- What evaluation computes with. -/
  Value : Type
  valueFromTestValue : TestValue → Except Error Value
  validateTestValueForType : Objects → ProgramRootPayload → TestValue → Hash → String →
    Except Error Unit
  evalSymbol : Objects → Hash → Hash → List Value → Except Error Value
  /-- The type a source stands for, in a module of a root, with regions and type
  parameters in scope. -/
  resolveType : String → ProgramRootPayload → String → RegionScope → List String → StoreM P Hash
  /-- Type a body, given the names and types of the parameters, the regions in
  scope, and the type that is expected of it, if one is. -/
  typeExpr : String → RawExpr → ProgramRootPayload → List String → List Hash → RegionScope →
    Option Hash → StoreM P TypeCheckResult
  typeAssignable : Objects → ProgramRootPayload → Hash → Hash → Except Error Bool
  typeName : Objects → Hash → Except Error String
  typeNameInRoot : Objects → ProgramRootPayload → String → Hash → RegionScope → Except Error String
  isReference : Objects → ProgramRootPayload → Hash → Except Error Bool
  typeContainsRawPointer : Objects → Option ProgramRootPayload → Hash → Except Error Bool
  /-- The source of a typed body. -/
  typedExprToRaw : Objects → Hash → ProgramRootPayload → String → RegionNames →
    Except Error RawExpr
  appendDefaultArgToCalls : RawExpr → String → RawExpr → RawExpr
  borrowCallArgToCalls : RawExpr → String → Nat → String → Bool → Except Error RawExpr
  rewriteForMemberRename : Objects → ProgramRootPayload → String → RegionNames → Hash → Hash →
    MemberRename → Except Error RawExpr
  /-- The symbols a definition refers to, in order. -/
  dependenciesForDefinition : Objects → ProgramRootPayload → Hash → Except Error (List Hash)
  renderFunctionSource : Objects → ProgramRootPayload → NameBinding → RootSymbolPayload →
    Except Error String
  /-- The calls of generic functions at concrete types in a body. -/
  concreteGenericCalls : Objects → Hash → Except Error (List (Hash × List Hash))
  substituteBodyType : ProgramRootPayload → Hash → List Hash → StoreM P Hash
  substituteTypedExpr : ProgramRootPayload → Hash → List Hash → StoreM P Hash
  /-- A type refers to what is in a root, to the given regions, and to that many
  type parameters. -/
  validateTypeHash : Objects → ProgramRootPayload → Hash → List Hash → Nat → Except Error Unit
  /-- The type of a typed body, given the types of the parameters, the regions in
  scope and the return type. -/
  verifyExprType : Objects → Hash → ProgramRootPayload → List Hash → List Hash → Hash →
    Except Error Hash
  exprEscapesLocalBorrow : Objects → ProgramRootPayload → Hash → Except Error Bool
  verifyFunctionBorrows : Objects → ProgramRootPayload → RootSymbolPayload → List Hash →
    Except Error Unit
  verifyFunctionEffects : Objects → ProgramRootPayload → RootSymbolPayload → Except Error Unit

variable {P : Primitives} (El : Elaborator P)

instance : DecidableEq El.RawExpr := El.rawExprDecEq

/-! ### Queries -/

/-- Read from the store inside an action. -/
abbrev query {α : Type} (f : Objects → Except Error α) : StoreM P α := .read f

/-- Report a failure under a context. -/
def withContext {α : Type} (context : Error) : Except Error α → Except Error α
  | .ok a => .ok a
  | .error _ => .error context

/-- A type is assignable to another in a root. -/
def typeAssignable (root : ProgramRootPayload) (source destination : Hash) : StoreM P Bool :=
  query fun objects => El.typeAssignable objects root source destination

/-- The functions that refer to a symbol. -/
def reverseDependenciesForRoot (root : ProgramRootPayload) (symbol : Hash) (objects : Objects) :
    Except Error (List Hash) := do
  let callers ← go root.symbols
  return SortOn.sortOn id callers
where
  go : List RootSymbolPayload → Except Error (List Hash)
    | [] => .ok []
    | entry :: rest => do
      let external ← definitionIsExternal objects entry.definition
      let deps ← if external then .ok []
        else El.dependenciesForDefinition objects root entry.definition
      let callers ← go rest
      return if deps.contains symbol then entry.symbol :: callers else callers

/-- Does a list meet a fallible test somewhere. -/
def anyM {α : Type} (test : α → Except Error Bool) : List α → Except Error Bool
  | [] => .ok false
  | a :: rest => do
    let holds ← test a
    if holds then .ok true else anyM test rest

/-- An external function must declare what its signature lets it do. -/
def validateExternalSignatureEffects (objects : Objects) (root : Option ProgramRootPayload)
    (signature : Hash) : Except Error Unit := do
  let effects ← signatureEffects P objects signature
  if !effects.contains .ffi then .error "external functions must declare the ffi effect"
  else do
    let (params, returnType) ← signatureParts P objects signature
    let raw ← anyM (El.typeContainsRawPointer objects root) (params ++ [returnType])
    if raw && !effects.contains .unsafeOps then
      .error ("external functions with raw pointer arguments or returns must declare the " ++
        "unsafe effect")
    else .ok ()

/-- Store an external function. -/
def putExternalFunction (external : ExternalFunctionMetadata) : StoreM P Hash := do
  validateExternal external.abi external.linkName external.library
  query fun objects => validateExternalSignatureEffects El objects none external.signature
  .put "ExternalFunction" external.toValue

/-! ### Tests -/

inductive TestCategory where
  | behavior
  | projection
  | export
  deriving DecidableEq

def TestCategory.asStr : TestCategory → String
  | .behavior => "behavior"
  | .projection => "projection"
  | .export => "export"

inductive TestMode where
  | reference
  | referenceAndNative
  deriving DecidableEq

def TestMode.asStr : TestMode → String
  | .reference => "reference"
  | .referenceAndNative => "reference_and_native"

def testCaseSchemaV1 : String := "codedb/test-case/v1"

def testCaseSchemaV2 : String := "codedb/test-case/v2"

structure TestCasePayload where
  schema : String
  category : TestCategory
  mode : TestMode
  entrySymbol : Hash
  args : List El.TestValue
  expected : El.TestValue
  nativeAgreement : Bool
  nativeRequired : Bool

variable {El} in
def TestCasePayload.nativeRequested (case : TestCasePayload El) : Bool :=
  case.nativeAgreement || case.mode == .referenceAndNative

variable {El} in
/-- The JSON form of a test case. -/
def TestCasePayload.toValue (case : TestCasePayload El) : JsonValue :=
  .object ([("args", .array (case.args.map El.testValueToValue))] ++
    (if case.category == .behavior then [] else [("category", .string case.category.asStr)]) ++
    [("entry_symbol", .string case.entrySymbol), ("expected", El.testValueToValue case.expected)] ++
    (if case.mode == .reference then [] else [("mode", .string case.mode.asStr)]) ++
    (if case.nativeAgreement then [("native_agreement", .bool true)] else []) ++
    (if case.nativeRequired then [("native_required", .bool true)] else []) ++
    [("schema", .string case.schema)])

/-- A field of an object that has a default. -/
def defaultField {α : Type} (read : JsonValue → Except Error α) (name : String) (default : α)
    (entries : List (String × JsonValue)) : Except Error α :=
  match entries.lookup name with
  | some v => read v
  | none => .ok default

def TestCategory.fromValue (v : JsonValue) : Except Error TestCategory := do
  match ← v.asString with
  | "behavior" => .ok .behavior
  | "projection" => .ok .projection
  | "export" => .ok .export
  | _ => .error shapeError

def TestMode.fromValue (v : JsonValue) : Except Error TestMode := do
  match ← v.asString with
  | "reference" => .ok .reference
  | "reference_and_native" => .ok .referenceAndNative
  | _ => .error shapeError

/-- Read a test case from its JSON form. -/
def TestCasePayload.fromValue (v : JsonValue) : Except Error (TestCasePayload El) := do
  let entries ← v.asEntries
  return {
    schema := ← defaultField JsonValue.asString "schema" testCaseSchemaV2 entries
    category := ← defaultField TestCategory.fromValue "category" .behavior entries
    mode := ← defaultField TestMode.fromValue "mode" .reference entries
    entrySymbol := ← JsonValue.field JsonValue.asString "entry_symbol" entries
    args := ← JsonValue.field (JsonValue.asList El.testValueFromValue) "args" entries
    expected := ← JsonValue.field El.testValueFromValue "expected" entries
    nativeAgreement := ← defaultField JsonValue.asBool "native_agreement" false entries
    nativeRequired := ← defaultField JsonValue.asBool "native_required" false entries }

def unsupportedSchema (schema : String) : Error :=
  "unsupported test case schema " ++ schema.quote ++ "; expected " ++ testCaseSchemaV1 ++ " or " ++
    testCaseSchemaV2

/-- A schema of test cases. -/
def testCaseSchemaSupported (schema : String) : Bool :=
  schema == testCaseSchemaV1 || schema == testCaseSchemaV2

/-- Store a test case. -/
def putTestCase (case : TestCasePayload El) : StoreM P Hash :=
  if !testCaseSchemaSupported case.schema then .fail (unsupportedSchema case.schema)
  else if case.nativeRequired && case.schema != testCaseSchemaV2 then
    .fail ("native_required test cases require schema " ++ testCaseSchemaV2)
  else if case.nativeRequired && !case.nativeRequested then
    .fail "native_required test cases require mode reference_and_native"
  else .put "TestCase" case.toValue

/-- Load a test case. -/
def loadTestCase (objects : Objects) (test : Hash) : Except Error (TestCasePayload El) := do
  let kind ← getKind objects test
  if kind ≠ "TestCase" then .error ("object " ++ test ++ " is " ++ kind ++ ", not TestCase")
  else do
    let payload ← getPayload P objects test
    let case ← TestCasePayload.fromValue El payload
    if !testCaseSchemaSupported case.schema then .error (unsupportedSchema case.schema)
    else if case.nativeRequired && case.schema != testCaseSchemaV2 then
      .error ("native_required test cases require schema " ++ testCaseSchemaV2)
    else if case.nativeAgreement || case.nativeRequired then
      return { case with mode := .referenceAndNative }
    else return case

/-- The arguments of a test are of the types of the parameters. -/
def validateTestArgs (objects : Objects) (root : ProgramRootPayload) :
    Nat → List El.TestValue → List Hash → Except Error Unit
  | idx, arg :: args, type :: types => do
    El.validateTestValueForType objects root arg type ("argument " ++ toString idx)
    validateTestArgs objects root (idx + 1) args types
  | _, _, _ => .ok ()

/-- A test calls a symbol of the root with arguments and an expected value of its
types, and the call can be evaluated unless the test is for native code only. -/
def validateTestCaseForRoot (objects : Objects) (rootHash : Hash) (root : ProgramRootPayload)
    (case : TestCasePayload El) : Except Error Unit :=
  match rootSymbol root case.entrySymbol with
  | none => .error ("test entry symbol missing from root: " ++ case.entrySymbol)
  | some entry => do
    let (paramTypes, returnType) ← signatureParts P objects entry.signature
    if paramTypes.length ≠ case.args.length then do
      let shown ← symbolDisplayForModule root "main" case.entrySymbol
      .error ("test for " ++ shown ++ " expects " ++ toString paramTypes.length ++ " args, got " ++
        toString case.args.length)
    else do
      validateTestArgs El objects root 0 case.args paramTypes
      El.validateTestValueForType objects root case.expected returnType "expected value"
      let args ← case.args.mapM El.valueFromTestValue
      match El.evalSymbol objects rootHash case.entrySymbol args with
      | .ok _ => .ok ()
      | .error _ =>
        if case.nativeRequired then .ok ()
        else .error ("test entry is not evaluatable in root " ++ rootHash)

/-- The tests of a root have distinct names, and each can run. -/
def validateTests (objects : Objects) (rootHash : Hash) (root : ProgramRootPayload) :
    List RootTestBinding → List String → Except Error Unit
  | [], _ => .ok ()
  | binding :: rest, names => do
    validateProjectionIdentifier "test name" binding.name
    if names.contains binding.name then
      .error ("duplicate test name " ++ binding.name.quote)
    else do
      let case ← loadTestCase El objects binding.test
      withContext ("invalid test " ++ binding.name)
        (validateTestCaseForRoot El objects rootHash root case)
      validateTests objects rootHash root rest (binding.name :: names)

/-- Check the tests of a root. -/
def validateTestsForRoot (objects : Objects) (rootHash : Hash) (root : ProgramRootPayload) :
    Except Error Unit :=
  validateTests El objects rootHash root root.tests []

/-! ### Checking a root -/

/-- Check the definitions of the types of a root. -/
def validateRootTypeDefinitions (objects : Objects) (root : ProgramRootPayload) :
    Except Error Unit :=
  validateEach (fun entry => do
    let definition ← typeDefinition P objects entry.typeDef
    let body := definition.body
    if body.typeSymbol ≠ entry.typeSymbol then
      .error "bad_type_def: root type symbol does not match TypeDef"
    else
      validateEach (fun m => El.validateTypeHash objects root m.typeHash
        (body.regionParams.map (·.region)) body.typeParams.length) body.members) root.types

/-- Check the signature and the definition of a symbol of a root. -/
def typeCheckSymbol (objects : Objects) (root : ProgramRootPayload) (entry : RootSymbolPayload) :
    Except Error Unit := do
  let (paramTypes, returnType) ← signatureParts P objects entry.signature
  let regionParams ← signatureRegionParams P objects entry.signature
  let allowedRegions := regionParams.map (·.region)
  let typeParams ← signatureTypeParams P objects entry.signature
  let _ ← signatureEffects P objects entry.signature
  validateEach (fun type => El.validateTypeHash objects root type allowedRegions typeParams.length)
    (paramTypes ++ [returnType])
  let definitionSignature ← functionSignatureHash P objects entry.definition
  if definitionSignature ≠ entry.signature then
    .error ("bad_signature: root signature " ++ entry.signature ++
      " does not match definition signature " ++ definitionSignature)
  else do
    let external ← definitionIsExternal objects entry.definition
    if external then do
      let metadata ← externalFunctionMetadata P objects entry.definition
      if metadata.symbol ≠ entry.symbol then
        .error "bad_external: external function symbol does not match root symbol"
      else if metadata.signature ≠ entry.signature then
        .error "bad_external: external function signature does not match root"
      else
        withContext "bad_external: external function signature effects are invalid"
          (validateExternalSignatureEffects El objects (some root) entry.signature)
    else do
      let body ← functionBodyHash P objects entry.definition
      let actual ← El.verifyExprType objects body root paramTypes allowedRegions returnType
      let assignable ← El.typeAssignable objects root actual returnType
      if !assignable then do
        let shown ← symbolDisplay root entry.symbol
        let expected ← El.typeName objects returnType
        let found ← El.typeName objects actual
        .error ("bad_type: function " ++ shown ++ " returns " ++ expected ++ ", body is " ++ found)
      else do
        let escapes ← El.exprEscapesLocalBorrow objects root body
        if escapes then do
          let shown ← symbolDisplay root entry.symbol
          .error ("bad_borrow: function " ++ shown ++ " returns reference to local storage")
        else do
          El.verifyFunctionBorrows objects root entry paramTypes
          El.verifyFunctionEffects objects root entry

/-- Check a root: its types, its symbols and its tests. -/
def typeCheckRoot (objects : Objects) (rootHash : Hash) : Except Error Unit := do
  let root ← loadRoot P objects rootHash
  validateRootTypeDefinitions El objects root
  validateEach (typeCheckSymbol El objects root) root.symbols
  validateTestsForRoot El objects rootHash root

/-! ### Indexing a root -/

/-- What the interface of a function is hashed as. -/
def functionInterfaceMetadata (symbol signature : Hash) : Except Error JsonValue := do
  let internal ← internalAbiSymbol symbol
  return .object [("internal_abi_symbol", .string internal), ("signature_hash", .string signature),
    ("symbol_hash", .string symbol)]

/-- The rows of an index refer to stored objects. -/
def requireObjects (hashes : List Hash) (objects : Objects) : Except Error Unit :=
  validateEach (fun hash =>
    if hash ∈ objects then .ok () else .error "FOREIGN KEY constraint failed") hashes

/-- The symbols an entry refers to. An external function refers to none. -/
def directDependencies (root : ProgramRootPayload) (entry : RootSymbolPayload)
    (objects : Objects) : Except Error (List Hash) := do
  let external ← definitionIsExternal objects entry.definition
  if external then .ok []
  else do
    let _ ← functionBodyHash P objects entry.definition
    El.dependenciesForDefinition objects root entry.definition

/-- Index a symbol: store its interface, and check what it refers to. -/
def indexSymbol (root : ProgramRootPayload) (entry : RootSymbolPayload) : StoreM P Unit := do
  let interface ← functionInterfaceMetadata entry.symbol entry.signature
  let _ ← .put "FunctionInterface" interface
  query fun objects => do
    let dependencies ← directDependencies El root entry objects
    validateEach (fun dependency =>
      match rootSymbol root dependency with
      | none => .ok ()
      | some other => do
        let _ ← functionInterfaceMetadata other.symbol other.signature
        return ()) dependencies
    requireObjects [entry.symbol, entry.definition, entry.signature] objects

/-- Index a root. -/
def indexRoot (rootHash : Hash) : StoreM P Unit := do
  let root ← query (loadRoot P · rootHash)
  let _ ← StoreM.each (indexSymbol El root) root.symbols
  query fun objects => do
    requireObjects (root.types.flatMap fun entry => [entry.typeSymbol, entry.typeDef]) objects
    requireObjects (root.names.map (·.symbol)) objects
    requireObjects (root.typeNames.map (·.typeSymbol)) objects
    requireObjects (root.exports.map (·.symbol)) objects
    validateEach (fun entry => do
      let dependencies ← directDependencies El root entry objects
      requireObjects dependencies objects) root.symbols
    validateEach (fun binding =>
      match rootSymbol root binding.symbol with
      | none => .ok ()
      | some entry => do
        let _ ← El.renderFunctionSource objects root binding entry
        return ()) (preferredNames root)

/-- Store a root. -/
def storeRoot (root : ProgramRootPayload) : StoreM P Hash where
  run objects := putProgramRoot P objects root
  grows run := by
    obtain ⟨-, -, put⟩ := Except.bind_eq_ok.mp run
    obtain ⟨-, rfl⟩ := Prod.mk.inj (Except.pure_eq_ok.mp put)
    exact grows_putObject _ _ _

/-- Store and index a new root. -/
def putIndexedRoot (root : ProgramRootPayload) : StoreM P Hash := do
  let newRoot ← storeRoot root
  indexRoot El newRoot
  return newRoot

/-- Store, index and check a new root. What the check reports may be put under a
context. -/
def putCheckedRoot (root : ProgramRootPayload) (context : Option Error := none) :
    StoreM P Hash := do
  let newRoot ← storeRoot root
  indexRoot El newRoot
  query fun objects =>
    match context with
    | some context => withContext context (typeCheckRoot El objects newRoot)
    | none => typeCheckRoot El objects newRoot
  return newRoot

end CodeDb

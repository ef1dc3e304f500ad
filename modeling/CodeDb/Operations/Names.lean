import CodeDb.Operations.Operation

/-!
# Operations on names, exports and tests

Renaming and moving functions and types, aliases, exports, tests, deletion, and
the operation that records a merge. They edit the lists of a root and leave
definitions as they are.
-/

namespace CodeDb

open SortOn

variable {P : Primitives} (El : Elaborator P)

/-! ### Renaming and moving -/

/-- What a taken name reports. -/
def nameExists (label module name : String) : Error :=
  label ++ " already exists: " ++ module ++ "." ++ name

/-- Give a symbol another preferred name. -/
def applyRenameSymbol (inputRoot : Hash) (module : String) (symbol : Hash)
    (oldName newName : String) : StoreM P Hash := do
  validateModulePath "module" module
  validateProjectionIdentifier "function name" newName
  let root ← query (loadRoot P · inputRoot)
  if nameTaken root module newName then .fail (nameExists "name" module newName)
  else if !preferredNamePointsToSymbol root module oldName symbol then
    .fail (notPointing module oldName symbol)
  else
    putIndexedRoot El
      { root with
        names := root.names.map fun b =>
          if b.module == module && b.displayName == oldName && b.symbol == symbol && b.isPreferred
          then { b with displayName := newName } else b }

/-- Give a type another preferred name. -/
def applyRenameType (inputRoot : Hash) (module : String) (typeSymbol : Hash)
    (oldName newName : String) : StoreM P Hash := do
  validateModulePath "module" module
  validateProjectionIdentifier "type name" newName
  let root ← query (loadRoot P · inputRoot)
  if typeNameTaken root module newName then .fail (nameExists "type name" module newName)
  else if !preferredTypeNamePointsToType root module oldName typeSymbol then
    .fail (notPointing module oldName typeSymbol)
  else
    putIndexedRoot El
      { root with
        typeNames := root.typeNames.map fun b =>
          if b.module == module && b.displayName == oldName && b.typeSymbol == typeSymbol &&
            b.isPreferred
          then { b with displayName := newName } else b }

/-- Move the names of a symbol to another module. -/
def applyMoveSymbol (inputRoot : Hash) (module : String) (symbol : Hash)
    (name newModule : String) : StoreM P Hash := do
  validateModulePath "module" module
  validateModulePath "new module" newModule
  let root ← query (loadRoot P · inputRoot)
  if module = newModule then do
    assertNamePoints root module name symbol
    return inputRoot
  else if !preferredNamePointsToSymbol root module name symbol then
    .fail (notPointing module name symbol)
  else
    let movedNames := sortedSet ((root.names.filter fun b =>
      b.module == module && b.symbol == symbol).map (·.displayName))
    match movedNames.find? fun moved => root.names.any fun b =>
      b.module == newModule && b.displayName == moved && b.symbol != symbol with
    | some moved => .fail (nameExists "name" newModule moved)
    | none =>
      putCheckedRoot El (synchronizeModuleMetadata
        { root with
          names := root.names.map fun b =>
            if b.module == module && b.symbol == symbol then { b with module := newModule }
            else b })

/-- Move the names of a type to another module. -/
def applyMoveType (inputRoot : Hash) (module : String) (typeSymbol : Hash)
    (name newModule : String) : StoreM P Hash := do
  validateModulePath "module" module
  validateModulePath "new module" newModule
  let root ← query (loadRoot P · inputRoot)
  if module = newModule then do
    assertTypeNamePoints root module name typeSymbol
    return inputRoot
  else if !preferredTypeNamePointsToType root module name typeSymbol then
    .fail (notPointing module name typeSymbol)
  else
    let movedNames := sortedSet ((root.typeNames.filter fun b =>
      b.module == module && b.typeSymbol == typeSymbol).map (·.displayName))
    match movedNames.find? fun moved => root.typeNames.any fun b =>
      b.module == newModule && b.displayName == moved && b.typeSymbol != typeSymbol with
    | some moved => .fail (nameExists "type name" newModule moved)
    | none =>
      putCheckedRoot El (synchronizeModuleMetadata
        { root with
          typeNames := root.typeNames.map fun b =>
            if b.module == module && b.typeSymbol == typeSymbol
            then { b with module := newModule } else b })

/-! ### Aliases and exports -/

/-- Give a symbol one more name. -/
def applyCreateAlias (inputRoot : Hash) (module : String) (symbol : Hash)
    (name aliasName : String) : StoreM P Hash := do
  validateProjectionIdentifier "alias" aliasName
  let root ← query (loadRoot P · inputRoot)
  assertNamePoints root module name symbol
  if nameTaken root module aliasName then .fail (nameExists "name" module aliasName)
  else putIndexedRoot El { root with names := root.names ++ [⟨module, aliasName, symbol, false⟩] }

/-- Take one of the further names of a symbol away. -/
def applyRemoveAlias (inputRoot : Hash) (module : String) (symbol : Hash)
    (name aliasName : String) : StoreM P Hash := do
  let root ← query (loadRoot P · inputRoot)
  assertNamePoints root module name symbol
  let names := root.names.filter fun b =>
    !(b.module == module && b.displayName == aliasName && b.symbol == symbol && !b.isPreferred)
  if names.length = root.names.length then
    .fail ("alias " ++ module ++ "." ++ aliasName ++ " does not point to " ++ symbol)
  else putIndexedRoot El { root with names := names }

/-- Export a symbol under a name. -/
def applySetExport (inputRoot : Hash) (module : String) (symbol : Hash)
    (name exportedName : String) : StoreM P Hash := do
  validateExportedAbiName exportedName
  let root ← query (loadRoot P · inputRoot)
  assertNamePoints root module name symbol
  if root.exports.any (·.exportedName == exportedName) then
    .fail ("export already exists: " ++ exportedName)
  else putIndexedRoot El { root with exports := root.exports ++ [⟨symbol, exportedName⟩] }

/-- Take an export of a symbol away. -/
def applyRemoveExport (inputRoot : Hash) (module : String) (symbol : Hash)
    (name exportedName : String) : StoreM P Hash := do
  let root ← query (loadRoot P · inputRoot)
  assertNamePoints root module name symbol
  let exports := root.exports.filter fun b =>
    !(b.exportedName == exportedName && b.symbol == symbol)
  if exports.length = root.exports.length then
    .fail ("export " ++ exportedName ++ " does not point to " ++ symbol)
  else putIndexedRoot El { root with exports := exports }

/-! ### Deletion -/

/-- The names of the tests that call a symbol. -/
def liveTests (objects : Objects) (symbol : Hash) : List RootTestBinding →
    Except Error (List String)
  | [] => .ok []
  | binding :: rest => do
    let case ← loadTestCase El objects binding.test
    let names ← liveTests objects symbol rest
    return if case.entrySymbol == symbol then binding.name :: names else names

/-- Delete a symbol that nothing refers to, or whatever refers to it. -/
def applyDeleteSymbol (inputRoot : Hash) (module : String) (symbol : Hash) (name : String)
    (force : Bool) : StoreM P Hash := do
  let root ← query (loadRoot P · inputRoot)
  assertNamePoints root module name symbol
  let deps ← query (reverseDependenciesForRoot El root symbol)
  let tests ← query (liveTests El · symbol root.tests)
  if !force && (!deps.isEmpty || !tests.isEmpty) then do
    let blockers ← (deps.mapM (symbolDisplay root) : Except Error _)
    .fail ("cannot delete " ++ module ++ "." ++ name ++ "; live references: " ++
      ", ".intercalate (blockers ++ tests.map ("test:" ++ ·)))
  else
    putCheckedRoot El
      { root with
        symbols := root.symbols.filter (·.symbol != symbol)
        names := root.names.filter (·.symbol != symbol)
        paramNames := root.paramNames.filter (·.symbol != symbol)
        exports := root.exports.filter (·.symbol != symbol)
        tests := if force then root.tests.filter fun b => !tests.contains b.name else root.tests }

/-! ### Tests -/

/-- Add a test of a symbol. -/
def applyCreateTest (inputRoot : Hash) (name entryModule entryName : String) (entrySymbol : Hash)
    (category : TestCategory) (mode : TestMode) (args : List El.TestValue)
    (expected : El.TestValue) (nativeAgreement nativeRequired : Bool) : StoreM P Hash := do
  validateProjectionIdentifier "test name" name
  let root ← query (loadRoot P · inputRoot)
  if root.tests.any (·.name == name) then .fail ("test already exists: " ++ name)
  else do
    assertNamePoints root entryModule entryName entrySymbol
    match rootSymbol root entrySymbol with
    | none => .fail ("missing entry symbol " ++ entrySymbol)
    | some entry => do
      let (paramTypes, returnType) ← query (signatureParts P · entry.signature)
      if paramTypes.length ≠ args.length then
        .fail ("test " ++ name ++ " entry " ++ entryModule ++ "." ++ entryName ++ " expects " ++
          toString paramTypes.length ++ " args, got " ++ toString args.length)
      else do
        query (validateTestArgs El · root 0 args paramTypes)
        query (El.validateTestValueForType · root expected returnType "expected value")
        let nativeAgreement := nativeAgreement || nativeRequired
        let mode := if nativeAgreement || nativeRequired then .referenceAndNative else mode
        let case : TestCasePayload El :=
          { schema := if mode == .referenceAndNative || nativeRequired then testCaseSchemaV2
              else testCaseSchemaV1
            category := category
            mode := mode
            entrySymbol := entrySymbol
            args := args
            expected := expected
            nativeAgreement := nativeAgreement
            nativeRequired := nativeRequired }
        query (validateTestCaseForRoot El · inputRoot root case)
        let test ← putTestCase El case
        putCheckedRoot El { root with tests := root.tests ++ [⟨name, test⟩] }

/-- Delete a test. -/
def applyDeleteTest (inputRoot : Hash) (name : String) (test : Hash) : StoreM P Hash := do
  let root ← query (loadRoot P · inputRoot)
  let tests := root.tests.filter fun b => !(b.name == name && b.test == test)
  if tests.length = root.tests.length then
    .fail ("test " ++ name ++ " does not point to " ++ test)
  else putCheckedRoot El { root with tests := tests }

/-! ### Merges -/

/-- Store an object a merge brings along, which must have the hash it came with. -/
def putMergeObject (object : MergeObjectPayload) : StoreM P Unit := do
  let inserted ← .put object.kind object.payload
  if inserted ≠ object.hash then
    .fail ("merge object payload for " ++ object.hash ++ " recomputes to " ++ inserted)
  else return ()

/-- Index and check the roots among the objects of a merge. -/
def checkMergeObject (object : MergeObjectPayload) : StoreM P Unit :=
  if object.kind = "ProgramRoot" then do
    indexRoot El object.hash
    query (typeCheckRoot El · object.hash)
  else return ()

/-- Store the root of a merge, with the objects it needs. -/
def applyMergeBranch (inputRoot sourceRootHash : Hash) (mergedRoot : ProgramRootPayload)
    (objectPayloads : List MergeObjectPayload) : StoreM P Hash := do
  let _ ← query (loadRoot P · inputRoot)
  let _ ← StoreM.each putMergeObject objectPayloads
  let _ ← StoreM.each (checkMergeObject El) objectPayloads
  let _ ← query fun objects =>
    withContext ("merge source root is not available: " ++ sourceRootHash)
      (loadRoot P objects sourceRootHash)
  putCheckedRoot El mergedRoot

end CodeDb

import CodeDb.Operations.Types

/-!
# Operations on functions

Creating functions, alone, in cliques or external ones, and changing their bodies,
signatures and parameters. Where a change of parameters reaches callers, their
bodies are turned back into sources, patched and typed again.

The instances of generic functions that a new body calls are added to the root as
symbols without names.
-/

namespace CodeDb

open SortOn

variable {P : Primitives} (El : Elaborator P)

/-! ### Signatures and bodies -/

/-- A signature with the types it was made of. -/
structure ResolvedSignature where
  paramTypes : List Hash
  returnType : Hash
  signature : Hash

/-- Resolve the types of a signature and store it. -/
def putResolvedSignature (module : String) (root : ProgramRootPayload) (params : List ParamSpec)
    (returnType : String) (effects : List Effect) (regionParams : List RegionParamDef)
    (typeParams : List String) : StoreM P ResolvedSignature := do
  let scope := regionScopeFromParams regionParams
  let paramTypes ← StoreM.each (fun p => El.resolveType module root p.ty scope typeParams) params
  let returnType ← El.resolveType module root returnType scope typeParams
  let signature ← putSignature paramTypes returnType effects regionParams typeParams
  return ⟨paramTypes, returnType, signature⟩

/-- Type a body that must be assignable to a return type. -/
def typeBody (module : String) (body : El.RawExpr) (root : ProgramRootPayload)
    (names : List String) (paramTypes : List Hash) (scope : RegionScope) (returnType : Hash)
    (expecting : Option Hash) (mismatch : Hash → Objects → Except Error Error) :
    StoreM P Hash := do
  let typed ← El.typeExpr module body root names paramTypes scope expecting
  let assignable ← typeAssignable El root typed.typeHash returnType
  if !assignable then do
    let message ← query (mismatch typed.typeHash)
    .fail message
  else return typed.exprHash

/-- The report on a body of the wrong type. -/
def typeMismatch (before between : String) (returnType : Hash) (found : Hash) (objects : Objects) :
    Except Error Error := do
  let found ← El.typeName objects found
  let expected ← El.typeName objects returnType
  return before ++ found ++ between ++ expected

/-- The source of the body of a definition. -/
def rawBodyOf (root : ProgramRootPayload) (module : String) (signature definition : Hash)
    (objects : Objects) : Except Error El.RawExpr := do
  let body ← functionBodyHash P objects definition
  let regionParams ← signatureRegionParams P objects signature
  El.typedExprToRaw objects body root module (regionNamesFromParams regionParams)

/-- Add a function to a root, under a name of its own. -/
def addFunction (root : ProgramRootPayload) (module name : String) (symbol definition signature :
    Hash) (names : List String) : ProgramRootPayload :=
  { root with
    symbols := root.symbols ++ [⟨symbol, definition, signature⟩]
    names := root.names ++ [⟨module, name, symbol, true⟩]
    paramNames := root.paramNames ++ [⟨symbol, names⟩] }

/-! ### Instances of generic functions -/

/-- Build the instance of a generic function at some types. -/
def buildFunctionInstance (root : ProgramRootPayload) (generic : Hash) (typeArgs : List Hash) :
    StoreM P (RootSymbolPayload × List String) :=
  match rootSymbol root generic with
  | none => .fail ("generic function " ++ generic ++ " missing for instantiation")
  | some template => do
    let typeParams ← query (signatureTypeParams P · template.signature)
    if typeParams.length ≠ typeArgs.length then
      .fail ("generic function " ++ generic ++ " expects " ++ toString typeParams.length ++
        " type args, got " ++ toString typeArgs.length)
    else do
      let (paramTypes, returnType) ← query (signatureParts P · template.signature)
      let concreteParams ← StoreM.each (El.substituteBodyType root · typeArgs) paramTypes
      let concreteReturn ← El.substituteBodyType root returnType typeArgs
      let effects ← query (signatureEffects P · template.signature)
      let regionParams ← query (signatureRegionParams P · template.signature)
      let signature ← putSignature concreteParams concreteReturn effects regionParams []
      let templateBody ← query (functionBodyHash P · template.definition)
      let instanceBody ← El.substituteTypedExpr root templateBody typeArgs
      let symbol ← .put monomorphicInstanceKind (monomorphicInstanceDescriptor generic typeArgs)
      let definition ← putFunctionDef symbol signature instanceBody
      return (⟨symbol, definition, signature⟩, paramNames root generic)

/-- Instantiate the calls of one level, and collect the calls of the next. -/
def monomorphizeCalls : List (Hash × List Hash) → List Hash → ProgramRootPayload →
    StoreM P (List (Hash × List Hash) × List Hash × ProgramRootPayload)
  | [], done, root => return ([], done, root)
  | (generic, typeArgs) :: rest, done, root =>
    let symbol := monomorphicInstanceSymbol P generic typeArgs
    if done.contains symbol then monomorphizeCalls rest done root
    else if root.symbols.any (·.symbol == symbol) then
      monomorphizeCalls rest (symbol :: done) root
    else do
      let (entry, names) ← buildFunctionInstance El root generic typeArgs
      let body ← query (functionBodyHash P · entry.definition)
      let nested ← query (El.concreteGenericCalls · body)
      let (more, done, root) ← monomorphizeCalls rest (symbol :: done)
        { root with
          symbols := root.symbols ++ [⟨symbol, entry.definition, entry.signature⟩]
          paramNames := root.paramNames ++ [⟨symbol, names⟩] }
      return (nested ++ more, done, root)

/-- Instantiate calls level by level, up to a depth. -/
def monomorphizeLevels : Nat → List (Hash × List Hash) → List Hash → ProgramRootPayload →
    StoreM P ProgramRootPayload
  | _, [], _, root => return root
  | 0, (generic, _) :: _, _, root =>
    let shown := match symbolDisplay root generic with
      | .ok shown => shown
      | .error _ => generic
    .fail ("generic function instantiation exceeds the depth limit (" ++
      toString genericInstantiationDepthLimit ++ ") at " ++ shown ++
      ": a recursive generic whose type arguments grow each call (polymorphic recursion) does " ++
      "not converge")
  | levels + 1, calls, done, root => do
    let (nested, done, root) ← monomorphizeCalls El calls done root
    monomorphizeLevels levels nested done root

/-- Add the instances of generic functions that a body reaches. -/
def monomorphizeIntoRoot (root : ProgramRootPayload) (body : Hash) :
    StoreM P ProgramRootPayload := do
  let calls ← query (El.concreteGenericCalls · body)
  monomorphizeLevels El (genericInstantiationDepthLimit + 1) calls [] root

/-! ### Creating functions -/

/-- Create a function. -/
def applyCreateFunction (inputRoot : Hash) (parentHistoryHash : Option Hash)
    (module name birthSeed : String) (regionParamNames typeParamNames : List String)
    (params : List ParamSpec) (returnType : String) (effects : List Effect) (body : El.RawExpr) :
    StoreM P Hash := do
  validateModulePath "module" module
  validateProjectionIdentifier "function name" name
  validateParamNames params
  validateTypeParamNames typeParamNames
  let root ← query (loadRoot P · inputRoot)
  if nameTaken root module name then .fail (nameExists "name" module name)
  else do
    let symbol ← putSymbolBirth parentHistoryHash birthSeed
    validateRegionParamNames regionParamNames
    let regionParams ← functionRegionParams parentHistoryHash symbol birthSeed regionParamNames
    let resolved ← putResolvedSignature El module root params returnType effects regionParams
      typeParamNames
    let names := params.map (·.name)
    let typedBody ← typeBody El module body root names resolved.paramTypes
      (regionScopeFromParams regionParams) resolved.returnType (some resolved.returnType)
      (typeMismatch El ("function " ++ module ++ "." ++ name ++ " body type ")
        " does not match return type " resolved.returnType)
    let definition ← putFunctionDef symbol resolved.signature typedBody
    let root := addFunction root module name symbol definition resolved.signature names
    let root ← monomorphizeIntoRoot El root typedBody
    putCheckedRoot El (synchronizeUnlessMain module root)

/-- Create an external function. -/
def applyCreateExternalFunction (inputRoot : Hash) (parentHistoryHash : Option Hash)
    (module name birthSeed : String) (regionParamNames : List String) (params : List ParamSpec)
    (returnType : String) (effects : List Effect) (abi linkName : String)
    (library : Option String) : StoreM P Hash := do
  validateModulePath "module" module
  validateProjectionIdentifier "function name" name
  validateParamNames params
  let root ← query (loadRoot P · inputRoot)
  if nameTaken root module name then .fail (nameExists "name" module name)
  else do
    let symbol ← putSymbolBirth parentHistoryHash birthSeed
    validateRegionParamNames regionParamNames
    let regionParams ← functionRegionParams parentHistoryHash symbol birthSeed regionParamNames
    let resolved ← putResolvedSignature El module root params returnType effects regionParams []
    let definition ← putExternalFunction El
      ⟨symbol, resolved.signature, abi, linkName, library⟩
    let root := addFunction root module name symbol definition resolved.signature
      (params.map (·.name))
    putCheckedRoot El (synchronizeUnlessMain module root)

/-- Check the members of a clique of functions. -/
def validateRecursionGroup (root : ProgramRootPayload) (module : String) :
    List (RecursionGroupMemberSpec El) → List String → Except Error Unit
  | [], _ => .ok ()
  | member :: rest, seen => do
    validateProjectionIdentifier "function name" member.name
    validateParamNames member.params
    validateRegionParamNames member.regionParams
    validateTypeParamNames member.typeParams
    if seen.contains member.name then
      .error ("duplicate function name in recursion group: " ++ member.name)
    else if nameTaken root module member.name then
      .error (nameExists "name" module member.name)
    else validateRecursionGroup root module rest (member.name :: seen)

/-- A member of a clique of functions that has a symbol and a signature. -/
structure PendingMember where
  symbol : Hash
  resolved : ResolvedSignature
  regionParams : List RegionParamDef
  member : RecursionGroupMemberSpec El

/-- The seed of the birth of a member of a clique of functions. -/
def recursionGroupBirthSeed (ordinal : Nat) : String := "recursion_group:" ++ toString ordinal

/-- Register the members of a clique of functions. Until a member's body is typed,
its signature stands in for its definition. -/
def registerMembers (parentHistoryHash : Option Hash) (module : String) :
    Nat → List (RecursionGroupMemberSpec El) → ProgramRootPayload →
    StoreM P (List (PendingMember El) × ProgramRootPayload)
  | _, [], root => return ([], root)
  | ordinal, member :: rest, root => do
    let birthSeed := recursionGroupBirthSeed ordinal
    let symbol ← putSymbolBirth parentHistoryHash birthSeed
    let regionParams ← functionRegionParams parentHistoryHash symbol birthSeed member.regionParams
    let resolved ← putResolvedSignature El module root member.params member.returnType
      member.effects regionParams member.typeParams
    let root := addFunction root module member.name symbol resolved.signature resolved.signature
      (member.params.map (·.name))
    let (pending, root) ← registerMembers parentHistoryHash module (ordinal + 1) rest root
    return (⟨symbol, resolved, regionParams, member⟩ :: pending, root)

/-- Type the bodies of the registered members, the first at an index. -/
def defineMembers (module : String) :
    Nat → List (PendingMember El) → ProgramRootPayload →
    StoreM P (List Hash × ProgramRootPayload)
  | _, [], root => return ([], root)
  | idx, pending :: rest, root => do
    let resolved := pending.resolved
    let typedBody ← typeBody El module pending.member.body root
      (pending.member.params.map (·.name)) resolved.paramTypes
      (regionScopeFromParams pending.regionParams) resolved.returnType (some resolved.returnType)
      (typeMismatch El ("function " ++ module ++ "." ++ pending.member.name ++ " body type ")
        " does not match return type " resolved.returnType)
    let definition ← putFunctionDef pending.symbol resolved.signature typedBody
    let (bodies, root) ← defineMembers module (idx + 1) rest
      { root with
        symbols := root.symbols.modify idx fun e => { e with definition := definition } }
    return (typedBody :: bodies, root)

/-- Add the instances of generic functions that bodies reach. -/
def monomorphizeBodies : List Hash → ProgramRootPayload → StoreM P ProgramRootPayload
  | [], root => return root
  | body :: rest, root => do
    let root ← monomorphizeIntoRoot El root body
    monomorphizeBodies rest root

/-- Create a clique of functions. -/
def applyCreateRecursionGroup (inputRoot : Hash) (parentHistoryHash : Option Hash)
    (module : String) (members : List (RecursionGroupMemberSpec El)) : StoreM P Hash := do
  validateModulePath "module" module
  if members.isEmpty then .fail "recursion group requires at least one member"
  else do
    let root ← query (loadRoot P · inputRoot)
    validateRecursionGroup El root module members []
    let base := root.symbols.length
    let (pending, root) ← registerMembers El parentHistoryHash module 0 members root
    let (bodies, root) ← defineMembers El module base pending root
    let group ← putRecursionGroup module ((root.symbols.drop base).take members.length)
    let root ← monomorphizeBodies El bodies
      { root with recursionGroups := root.recursionGroups ++ [group] }
    putCheckedRoot El (synchronizeUnlessMain module root)

/-! ### Changing functions -/

/-- Replace the body of a function. -/
def applyReplaceBody (inputRoot : Hash) (module : String) (symbol : Hash) (name : String)
    (body : El.RawExpr) : StoreM P Hash := do
  let root ← query (loadRoot P · inputRoot)
  assertNamePoints root module name symbol
  let entry ← rootSymbolEntry root symbol
  let external ← query (definitionIsExternal · entry.definition)
  if external then .fail ("cannot replace body for external function " ++ module ++ "." ++ name)
  else do
    let (paramTypes, returnType) ← query (signatureParts P · entry.signature)
    let regionParams ← query (signatureRegionParams P · entry.signature)
    let typedBody ← typeBody El module body root (paramNames root symbol) paramTypes
      (regionScopeFromParams regionParams) returnType (some returnType)
      (typeMismatch El "replacement body type " " does not match return type " returnType)
    let definition ← putFunctionDef symbol entry.signature typedBody
    putCheckedRoot El (updateSymbol root symbol fun e => { e with definition := definition })

/-- Change the signature of a function. -/
def applyChangeSignature (inputRoot : Hash) (module : String) (symbol : Hash) (name : String)
    (regionParamNames : List String) (params : List ParamSpec) (returnType : String)
    (effects : List Effect) : StoreM P Hash := do
  validateParamNames params
  validateRegionParamNames regionParamNames
  let root ← query (loadRoot P · inputRoot)
  assertNamePoints root module name symbol
  let entry ← rootSymbolEntry root symbol
  let regionParams ← functionRegionParams none symbol "change_signature" regionParamNames
  let resolved ← putResolvedSignature El module root params returnType effects regionParams []
  let names := params.map (·.name)
  let external ← query (definitionIsExternal · entry.definition)
  if external then do
    let metadata ← query (externalFunctionMetadata P · entry.definition)
    let definition ← putExternalFunction El
      { metadata with symbol := symbol, signature := resolved.signature }
    let root := updateSymbol root symbol fun e =>
      { e with signature := resolved.signature, definition := definition }
    putCheckedRoot El (upsertParamNames root symbol names)
      (some "new external signature invalidates existing root")
  else do
    let rawBody ← query (rawBodyOf El root module entry.signature entry.definition)
    let typedBody ← typeBody El module rawBody root names resolved.paramTypes
      (regionScopeFromParams regionParams) resolved.returnType (some resolved.returnType)
      (typeMismatch El "body type " " does not match new return type " resolved.returnType)
    let definition ← putFunctionDef symbol resolved.signature typedBody
    let root := updateSymbol root symbol fun e =>
      { e with signature := resolved.signature, definition := definition }
    putCheckedRoot El (upsertParamNames root symbol names)
      (some "new signature invalidates existing root")

/-- Add the default argument to the calls in the bodies of callers. -/
def patchCallers (symbol : Hash) (default : El.RawExpr) :
    List Hash → ProgramRootPayload → StoreM P ProgramRootPayload
  | [], root => return root
  | caller :: rest, root =>
    if caller = symbol then patchCallers symbol default rest root
    else do
      let entry ← rootSymbolEntry root caller
      let module := match preferredBinding root caller with
        | some binding => binding.module
        | none => mainBranch
      let callerBody ← query (rawBodyOf El root module entry.signature entry.definition)
      let targetName ← symbolDisplayForModule root module symbol
      let patchedBody := El.appendDefaultArgToCalls callerBody targetName default
      if patchedBody = callerBody then patchCallers symbol default rest root
      else do
        let (paramTypes, returnType) ← query (signatureParts P · entry.signature)
        let regionParams ← query (signatureRegionParams P · entry.signature)
        let typedBody ← typeBody El module patchedBody root (paramNames root caller) paramTypes
          (regionScopeFromParams regionParams) returnType none
          (typeMismatch El "caller body type " " does not match return type " returnType)
        let definition ← putFunctionDef caller entry.signature typedBody
        patchCallers symbol default rest
          (updateSymbol root caller fun e => { e with definition := definition })

/-- The parameters of a signature as the source has them, for their names to be
checked. -/
def paramSpecs (types : List Hash) (names : List String)
    (typeName : Hash → Objects → Except Error String) (objects : Objects) :
    Except Error (List ParamSpec) :=
  (types.zip names).mapM fun (type, name) => do
    let ty ← typeName type objects
    return ⟨name, ty⟩

/-- Add a parameter to a function, and a default argument to the calls of it. -/
def applyAddParameter (inputRoot : Hash) (module : String) (symbol : Hash) (name : String)
    (param : ParamSpec) (default : Option El.RawExpr) : StoreM P Hash := do
  let root ← query (loadRoot P · inputRoot)
  assertNamePoints root module name symbol
  let callers ← query (reverseDependenciesForRoot El root symbol)
  if !callers.isEmpty && default.isNone then do
    let shown ← (callers.mapM (symbolDisplay root) : Except Error _)
    .fail ("add_parameter for " ++ module ++ "." ++ name ++
      " requires default when call sites exist: " ++ ", ".intercalate shown)
  else do
    let entry ← rootSymbolEntry root symbol
    let external ← query (definitionIsExternal · entry.definition)
    if external then
      .fail ("cannot add parameter to external function " ++ module ++ "." ++ name)
    else do
      let oldBody ← query (rawBodyOf El root module entry.signature entry.definition)
      let (oldTypes, returnType) ← query (signatureParts P · entry.signature)
      let regionParams ← query (signatureRegionParams P · entry.signature)
      let scope := regionScopeFromParams regionParams
      let effects ← query (signatureEffects P · entry.signature)
      let paramType ← El.resolveType module root param.ty scope []
      let paramTypes := oldTypes ++ [paramType]
      let names := paramNames root symbol ++ [param.name]
      let params ← query (paramSpecs paramTypes names fun type objects => El.typeName objects type)
      validateParamNames params
      let signature ← putSignature paramTypes returnType effects regionParams []
      let root := updateSymbol root symbol fun e => { e with signature := signature }
      let root := upsertParamNames root symbol names
      let targetName ← symbolDisplayForModule root module symbol
      let targetBody ← (if callers.contains symbol then
          match default with
          | some default => .ok (El.appendDefaultArgToCalls oldBody targetName default)
          | none => .error "add_parameter missing default"
        else .ok oldBody : Except Error El.RawExpr)
      let typedBody ← typeBody El module targetBody root names paramTypes scope returnType
        (some returnType)
        (typeMismatch El "body type " " does not match new return type " returnType)
      let definition ← putFunctionDef symbol signature typedBody
      let root := updateSymbol root symbol fun e => { e with definition := definition }
      let root ← match default with
        | some default => patchCallers El symbol default callers root
        | none => pure root
      putCheckedRoot El root (some "added parameter invalidates existing root")

/-- The region of a name among the region parameters, added if it is missing. -/
def ensureSignatureRegionParam (regionParams : List RegionParamDef) (owner : Hash)
    (region : String) : StoreM P (List RegionParamDef) :=
  if regionParams.any (·.name == region) then return regionParams
  else do
    let hash ← putRegionParamBirth none owner
      ("semantic-patch:region:" ++ owner ++ ":" ++ region)
    return regionParams ++ [⟨hash, region⟩]

/-- Add a region parameter to the signature of a symbol unless it has it. -/
def ensureFunctionSignatureRegion (root : ProgramRootPayload) (symbol : Hash) (module region :
    String) : StoreM P ProgramRootPayload := do
  let entry ← rootSymbolEntry root symbol
  let oldRegions ← query (signatureRegionParams P · entry.signature)
  if oldRegions.any (·.name == region) then return root
  else do
    let regionParams ← ensureSignatureRegionParam oldRegions symbol region
    let (paramTypes, returnType) ← query (signatureParts P · entry.signature)
    let effects ← query (signatureEffects P · entry.signature)
    let signature ← putSignature paramTypes returnType effects regionParams []
    let root := updateSymbol root symbol fun e => { e with signature := signature }
    let params ← query (paramSpecs paramTypes (paramNames root symbol) fun type objects =>
      El.typeNameInRoot objects root module type (regionScopeFromParams regionParams))
    validateParamNames params
    return root

/-- Borrow the argument of a converted parameter in the bodies of the functions
that call it. -/
def convertCallers (oldRoot : ProgramRootPayload) (symbol : Hash) (paramIndex : Nat)
    (region : String) (isMutable : Bool) :
    List Hash → ProgramRootPayload → StoreM P ProgramRootPayload
  | [], root => return root
  | affected :: rest, root => do
    let entry ← rootSymbolEntry root affected
    let external ← query (definitionIsExternal · entry.definition)
    if external then convertCallers oldRoot symbol paramIndex region isMutable rest root
    else
      match rootSymbol oldRoot affected with
      | none => .fail ("affected symbol missing from old root " ++ affected)
      | some oldEntry => do
        let module ← preferredModuleForSymbol oldRoot affected
        let root ← if affected ≠ symbol then
            ensureFunctionSignatureRegion El root affected module region
          else pure root
        let entry ← rootSymbolEntry root affected
        let regionParams ← query (signatureRegionParams P · entry.signature)
        let oldBody ← query (rawBodyOf El oldRoot module oldEntry.signature oldEntry.definition)
        let targetName ← symbolDisplayForModule root module symbol
        let patchedBody ← El.borrowCallArgToCalls oldBody targetName paramIndex region isMutable
        let (paramTypes, returnType) ← query (signatureParts P · entry.signature)
        let typedBody ← typeBody El module patchedBody root (paramNames root affected) paramTypes
          (regionScopeFromParams regionParams) returnType (some returnType)
          fun found objects => do
            let shown ← symbolDisplay root affected
            let scope := regionScopeFromParams regionParams
            let expected ← El.typeNameInRoot objects root module returnType scope
            let found ← El.typeNameInRoot objects root module found scope
            return "converted parameter rewrite changed function " ++ shown ++ " body type from " ++
              expected ++ " to " ++ found
        let definition ← putFunctionDef affected entry.signature typedBody
        convertCallers oldRoot symbol paramIndex region isMutable rest
          (updateSymbol root affected fun e => { e with definition := definition })

/-- Take a parameter by reference, and borrow the arguments of the calls. -/
def applyConvertParamToReference (inputRoot : Hash) (module : String) (symbol : Hash)
    (name : String) (paramIndex : Nat) (paramName region : String) (isMutable : Bool) :
    StoreM P Hash := do
  validateProjectionIdentifier "region parameter" region
  let root ← query (loadRoot P · inputRoot)
  assertNamePoints root module name symbol
  let callers ← query (reverseDependenciesForRoot El root symbol)
  let entry ← rootSymbolEntry root symbol
  let external ← query (definitionIsExternal · entry.definition)
  if external then
    .fail ("cannot convert parameter on external function " ++ module ++ "." ++ name)
  else do
    let (oldTypes, returnType) ← query (signatureParts P · entry.signature)
    let effects ← query (signatureEffects P · entry.signature)
    let names := paramNames root symbol
    match names[paramIndex]?, oldTypes[paramIndex]? with
    | none, _ | some _, none =>
      .fail (module ++ "." ++ name ++ " has no parameter index " ++ toString paramIndex)
    | some actualName, some oldType =>
      if actualName ≠ paramName then
        .fail ("parameter index " ++ toString paramIndex ++ " is " ++ actualName ++ ", not " ++
          paramName ++ " on " ++ module ++ "." ++ name)
      else do
        let reference ← query (El.isReference · root oldType)
        if reference then
          .fail ("parameter " ++ module ++ "." ++ name ++ "." ++ paramName ++
            " is already a reference; convert_by_value_param_to_ref requires a by-value parameter")
        else do
          let oldRegions ← query (signatureRegionParams P · entry.signature)
          let regionParams ← ensureSignatureRegionParam oldRegions symbol region
          let scope := regionScopeFromParams regionParams
          let referent ← query (El.typeNameInRoot · root module oldType scope)
          let source := "&'" ++ region ++ (if isMutable then " mut " else " ") ++ referent
          let referenceType ← El.resolveType module root source scope []
          let signature ← putSignature (oldTypes.set paramIndex referenceType) returnType effects
            regionParams []
          let converted := upsertParamNames
            (updateSymbol root symbol fun e => { e with signature := signature }) symbol names
          let converted ← convertCallers El root symbol paramIndex region isMutable
            (sortedSet (callers ++ [symbol])) converted
          putCheckedRoot El converted (some "converted parameter invalidates existing root")

end CodeDb

import CodeDb.Operations.Names

/-!
# Operations on types

Creating types, alone or in cliques, and changing their members. A type is
registered under a placeholder before its members are resolved, so that they can
refer to it, and gets its definition afterwards.

Fields of records and variants of enums are added, renamed and removed alike, so
each of these is one definition for the two sorts of members.
-/

namespace CodeDb

variable {P : Primitives} (El : Elaborator P)

/-! ### The members of types -/

/-- The two sorts of members. -/
inductive MemberSort where
  | field
  | variant
  deriving DecidableEq

namespace MemberSort

/-- What a member is called in errors and in operations. -/
def label : MemberSort → String
  | .field => "record field"
  | .variant => "enum variant"

def shortLabel : MemberSort → String
  | .field => "field"
  | .variant => "variant"

/-- What the type of a member is called. -/
def typeLabel : MemberSort → String
  | .field => "record"
  | .variant => "enum"

def birthKind : MemberSort → String
  | .field => "record_field"
  | .variant => "enum_variant"

/-- The definition of a type that has such members. -/
def body? : MemberSort → TypeDefinition → Option TypeDefinitionBody
  | .field, .record body => some body
  | .variant, .enum body => some body
  | _, _ => none

/-- A type that has such members. -/
def definition : MemberSort → TypeDefinitionBody → TypeDefinition
  | .field => .record
  | .variant => .enum

/-- Store the birth of a member. -/
def putBirth (sort : MemberSort) (parentHistoryHash : Option Hash) (owner : Hash)
    (birthSeed : String) : StoreM P Hash :=
  match sort with
  | .field => putRecordFieldBirth parentHistoryHash owner birthSeed
  | .variant => putEnumVariantBirth parentHistoryHash owner birthSeed

def rename (sort : MemberSort) (typeSymbol memberSymbol : Hash) (oldName newName : String) :
    MemberRename :=
  match sort with
  | .field => .field typeSymbol memberSymbol oldName newName
  | .variant => .variant typeSymbol memberSymbol oldName newName

end MemberSort

/-- The sort of the members of a source definition. -/
def TypeDefinitionKind.sort : TypeDefinitionKind → MemberSort
  | .record _ => .field
  | .enum _ => .variant

/-- The members of a source definition. -/
def TypeDefinitionKind.members : TypeDefinitionKind → List TypeMemberSpec
  | .record fields => fields
  | .enum variants => variants

/-- The regions a type is parameterised by, born with it or given by the caller. -/
def createRegionParams (parentHistoryHash : Option Hash) (typeSymbol : Hash) (birthSeed : String)
    (names : List String) (births : Option (List SymbolBirthSpec)) :
    StoreM P (List RegionParamDef) := do
  validateRegionParamNames names
  match births with
  | none => functionRegionParams parentHistoryHash typeSymbol birthSeed names
  | some births =>
    if births.length ≠ names.length then
      .fail ("projection identity region parameter count mismatch: expected " ++
        toString names.length ++ ", got " ++ toString births.length)
    else
      StoreM.each (fun (name, birth) => do
        let region ← putSymbolBirthSpec birth "region_param" (some typeSymbol)
        return (⟨region, name⟩ : RegionParamDef)) (names.zip births)

/-- Resolve the members of a type, each with the birth the caller gave it, if it
gave one. -/
def membersFromSource (sort : MemberSort) (root : ProgramRootPayload) (module : String)
    (parentHistoryHash : Option Hash) (birthSeed : String) (typeSymbol : Hash)
    (typeParams : List String) (regionScope : RegionScope)
    (members : List (Nat × TypeMemberSpec × Option SymbolBirthSpec)) :
    StoreM P (List TypeMemberDef) :=
  StoreM.each (fun (idx, member, birth) => do
    validateProjectionIdentifier sort.label member.name
    let memberSymbol ← match birth with
      | some birth => putSymbolBirthSpec birth sort.birthKind (some typeSymbol)
      | none =>
        sort.putBirth parentHistoryHash typeSymbol
          (birthSeed ++ ":" ++ sort.shortLabel ++ ":" ++ toString idx ++ ":" ++ member.name)
    let typeHash ← El.resolveType module root member.ty regionScope typeParams
    return (⟨memberSymbol, member.name, typeHash⟩ : TypeMemberDef)) members

/-- Resolve a source definition. -/
def typeDefinitionFromSource (root : ProgramRootPayload) (module : String)
    (parentHistoryHash : Option Hash) (birthSeed : String) (typeSymbol : Hash)
    (regionParams : List RegionParamDef) (typeParams : List String) (regionScope : RegionScope)
    (definition : TypeDefinitionKind) (identity : Option TypeDefinitionIdentity) :
    StoreM P TypeDefinition :=
  let sort := definition.sort
  let members := definition.members
  let resolve (births : List (Option SymbolBirthSpec)) : StoreM P TypeDefinition := do
    let members ← membersFromSource El sort root module parentHistoryHash birthSeed typeSymbol
      typeParams regionScope ((members.zip births).mapIdx Prod.mk)
    return sort.definition
      { typeSymbol := typeSymbol
        regionParams := regionParams
        typeParams := typeParams
        members := members }
  match identity with
  | none => resolve (members.map fun _ => none)
  | some identity =>
    if identity.memberBirths.length ≠ members.length then
      .fail ("projection identity " ++ sort.label ++ " count mismatch: expected " ++
        toString members.length ++ ", got " ++ toString identity.memberBirths.length)
    else resolve (identity.memberBirths.map some)

/-- Give a type of the root a definition. -/
def updateTypeDefinition (root : ProgramRootPayload) (typeSymbol : Hash)
    (definition : TypeDefinition) : StoreM P ProgramRootPayload := do
  let _ ← rootTypeEntry root typeSymbol
  let typeDef ← putTypeDef typeSymbol definition
  return updateTypeDef root typeSymbol typeDef

/-- The definition of a type of the root. -/
def typeDefinitionForSymbol (root : ProgramRootPayload) (typeSymbol : Hash) (objects : Objects) :
    Except Error TypeDefinition := do
  let entry ← rootTypeEntry root typeSymbol
  typeDefinition P objects entry.typeDef

/-- Store a definition that only stands in for the one to come. -/
def putPlaceholder (typeSymbol : Hash) (regionParams : List RegionParamDef)
    (typeParams : List String) (sort : MemberSort) : StoreM P Hash :=
  putTypeDef typeSymbol (sort.definition
    { typeSymbol := typeSymbol
      regionParams := regionParams
      typeParams := typeParams
      members := [⟨typeSymbol, "placeholder", typeHashFor P "I64"⟩] })

/-- Add a type to a root, under a name of its own. -/
def addType (root : ProgramRootPayload) (module name : String) (typeSymbol typeDef : Hash) :
    ProgramRootPayload :=
  { root with
    types := root.types ++ [⟨typeSymbol, typeDef⟩]
    typeNames := root.typeNames ++ [⟨module, name, typeSymbol, true⟩] }

/-- The modules of a root are listed as soon as there is one other than the main
one. -/
def synchronizeUnlessMain (module : String) (root : ProgramRootPayload) : ProgramRootPayload :=
  if module ≠ mainBranch ∨ root.metadata.contains rootModulesMetadataKey then
    synchronizeModuleMetadata root
  else root

/-! ### Creating types -/

/-- The birth of a type, given by the caller or from the migration. -/
def typeBirth (parentHistoryHash : Option Hash) (birthSeed : String)
    (identity : Option TypeDefinitionIdentity) : SymbolBirthSpec :=
  match identity with
  | some identity => identity.typeSymbolBirth
  | none => birthSpec parentHistoryHash birthSeed "type" none

/-- Store the birth of a type. -/
def putTypeBirth (parentHistoryHash : Option Hash) (birthSeed : String)
    (identity : Option TypeDefinitionIdentity) : StoreM P Hash :=
  match identity with
  | some identity => putSymbolBirthSpec identity.typeSymbolBirth "type" none
  | none => putTypeSymbolBirth parentHistoryHash birthSeed

/-- Create a type. -/
def applyCreateType (inputRoot : Hash) (parentHistoryHash : Option Hash)
    (module name birthSeed : String) (regionParamNames typeParamNames : List String)
    (definition : TypeDefinitionKind) (identity : Option TypeDefinitionIdentity) :
    StoreM P Hash := do
  validateModulePath "module" module
  validateProjectionIdentifier "type name" name
  validateRegionParamNames regionParamNames
  validateTypeParamNames typeParamNames
  validateTypeMemberSpecs definition
  let root ← query (loadRoot P · inputRoot)
  if typeNameTaken root module name then .fail (nameExists "type name" module name)
  else do
    let typeSymbol ← putTypeBirth parentHistoryHash birthSeed identity
    let regionParams ← createRegionParams parentHistoryHash typeSymbol birthSeed regionParamNames
      (identity.map (·.regionParamBirths))
    let placeholder ← putPlaceholder typeSymbol regionParams typeParamNames definition.sort
    let root := addType root module name typeSymbol placeholder
    let semantic ← typeDefinitionFromSource El root module parentHistoryHash birthSeed typeSymbol
      regionParams typeParamNames (regionScopeFromParams regionParams) definition identity
    let root ← updateTypeDefinition root typeSymbol semantic
    putCheckedRoot El (synchronizeUnlessMain module root)

/-- A member of a clique of types that has a symbol and a placeholder. -/
structure PendingType where
  typeSymbol : Hash
  regionParams : List RegionParamDef
  birthSeed : String
  member : TypeGroupMemberSpec

/-- Check the members of a clique of types. -/
def validateTypeGroup (root : ProgramRootPayload) (module : String) :
    List TypeGroupMemberSpec → List String → Except Error Unit
  | [], _ => .ok ()
  | member :: rest, seen => do
    validateProjectionIdentifier "type name" member.name
    validateRegionParamNames member.regionParams
    validateTypeMemberSpecs member.definition
    if seen.contains member.name then
      .error ("duplicate type name in type recursion group: " ++ member.name)
    else if typeNameTaken root module member.name then
      .error (nameExists "type name" module member.name)
    else validateTypeGroup root module rest (member.name :: seen)

/-- The seed of the birth of a member of a clique of types. -/
def typeGroupBirthSeed (ordinal : Nat) : String := "type_recursion_group:" ++ toString ordinal

/-- Register the members of a clique of types under placeholders. -/
def registerTypes (parentHistoryHash : Option Hash) (module : String) :
    Nat → List TypeGroupMemberSpec → ProgramRootPayload →
    StoreM P (List PendingType × ProgramRootPayload)
  | _, [], root => return ([], root)
  | ordinal, member :: rest, root => do
    let birthSeed := typeGroupBirthSeed ordinal
    let typeSymbol ← putTypeBirth parentHistoryHash birthSeed member.identity
    let regionParams ← createRegionParams parentHistoryHash typeSymbol birthSeed
      member.regionParams (member.identity.map (·.regionParamBirths))
    let placeholder ← putPlaceholder typeSymbol regionParams [] member.definition.sort
    let root := addType root module member.name typeSymbol placeholder
    let (pending, root) ← registerTypes parentHistoryHash module (ordinal + 1) rest root
    return (⟨typeSymbol, regionParams, birthSeed, member⟩ :: pending, root)

/-- Give the registered members of a clique their definitions. -/
def defineTypes (parentHistoryHash : Option Hash) (module : String) :
    List PendingType → ProgramRootPayload → StoreM P ProgramRootPayload
  | [], root => return root
  | pending :: rest, root => do
    let semantic ← typeDefinitionFromSource El root module parentHistoryHash pending.birthSeed
      pending.typeSymbol pending.regionParams [] (regionScopeFromParams pending.regionParams)
      pending.member.definition pending.member.identity
    let root ← updateTypeDefinition root pending.typeSymbol semantic
    defineTypes parentHistoryHash module rest root

/-- Create a clique of types. -/
def applyCreateTypeGroup (inputRoot : Hash) (parentHistoryHash : Option Hash) (module : String)
    (members : List TypeGroupMemberSpec) : StoreM P Hash := do
  validateModulePath "module" module
  if members.isEmpty then .fail "type recursion group requires at least one member"
  else do
    let root ← query (loadRoot P · inputRoot)
    validateTypeGroup root module members []
    let base := root.types.length
    let (pending, root) ← registerTypes parentHistoryHash module 0 members root
    let root ← defineTypes El parentHistoryHash module pending root
    let group ← putTypeRecursionGroup module ((root.types.drop base).take members.length)
    putCheckedRoot El (synchronizeUnlessMain module
      { root with typeRecursionGroups := root.typeRecursionGroups ++ [group] })

/-! ### Changing members -/

/-- Add a member to a type. -/
def applyAddMember (sort : MemberSort) (inputRoot : Hash) (parentHistoryHash : Option Hash)
    (module : String) (typeSymbol : Hash) (typeName : String) (member : TypeMemberSpec)
    (birthSeed : String) : StoreM P Hash := do
  validateProjectionIdentifier sort.label member.name
  let root ← query (loadRoot P · inputRoot)
  assertTypeNamePoints root module typeName typeSymbol
  let definition ← query (typeDefinitionForSymbol (P := P) root typeSymbol)
  match sort.body? definition with
  | none => .fail ("add_" ++ sort.shortLabel ++ " requires " ++ sort.typeLabel ++ " type " ++
      module ++ "." ++ typeName)
  | some body =>
    if body.members.any (·.name == member.name) then
      .fail (sort.label ++ " already exists: " ++ member.name)
    else do
      let memberSymbol ← sort.putBirth parentHistoryHash typeSymbol birthSeed
      let typeHash ← El.resolveType module root member.ty
        (regionScopeFromParams body.regionParams) []
      let root ← updateTypeDefinition root typeSymbol (sort.definition
        { body with
          typeSymbol := typeSymbol
          members := body.members ++ [⟨memberSymbol, member.name, typeHash⟩] })
      putCheckedRoot El root

def applyAddField (inputRoot : Hash) (parentHistoryHash : Option Hash) (module : String)
    (typeSymbol : Hash) (typeName : String) (field : TypeMemberSpec) (fieldBirthSeed : String) :
    StoreM P Hash :=
  applyAddMember El .field inputRoot parentHistoryHash module typeSymbol typeName field
    fieldBirthSeed

def applyAddVariant (inputRoot : Hash) (parentHistoryHash : Option Hash) (module : String)
    (typeSymbol : Hash) (typeName : String) (variant : TypeMemberSpec)
    (variantBirthSeed : String) : StoreM P Hash :=
  applyAddMember El .variant inputRoot parentHistoryHash module typeSymbol typeName variant
    variantBirthSeed

/-- Rewrite the bodies of a root for a renamed member, one symbol after the other. -/
def rewriteBodies (oldRoot : ProgramRootPayload) (rename : MemberRename) :
    List (Nat × RootSymbolPayload) → ProgramRootPayload → StoreM P ProgramRootPayload
  | [], root => return root
  | (idx, entry) :: rest, root =>
    match rootSymbol oldRoot entry.symbol with
    | none => rewriteBodies oldRoot rename rest root
    | some oldEntry => do
      let external ← query (definitionIsExternal · oldEntry.definition)
      if external then rewriteBodies oldRoot rename rest root
      else do
        let (paramTypes, returnType) ← query (signatureParts P · entry.signature)
        let regionParams ← query (signatureRegionParams P · entry.signature)
        let module ← preferredModuleForSymbol oldRoot entry.symbol
        let body ← query (functionBodyHash P · oldEntry.definition)
        let rawBody ← query fun objects => El.rewriteForMemberRename objects oldRoot module
          (regionNamesFromParams regionParams) body returnType rename
        let typed ← El.typeExpr module rawBody root (paramNames oldRoot entry.symbol) paramTypes
          (regionScopeFromParams regionParams) (some returnType)
        let assignable ← typeAssignable El root typed.typeHash returnType
        if !assignable then do
          let shown ← symbolDisplay oldRoot entry.symbol
          let expected ← query (El.typeName · returnType)
          let found ← query (El.typeName · typed.typeHash)
          .fail ("renamed member rewrite changed function " ++ shown ++ " body type from " ++
            expected ++ " to " ++ found)
        else do
          let definition ← putFunctionDef entry.symbol entry.signature typed.exprHash
          rewriteBodies oldRoot rename rest
            { root with
              symbols := root.symbols.modify idx fun e => { e with definition := definition } }

/-- Rewrite the bodies of a root for a renamed member. -/
def rewriteFunctionBodiesForMemberRename (oldRoot root : ProgramRootPayload)
    (rename : MemberRename) : StoreM P ProgramRootPayload :=
  rewriteBodies El oldRoot rename (root.symbols.mapIdx Prod.mk) root

/-- Rename a member of a type. -/
def applyRenameMember (sort : MemberSort) (inputRoot : Hash) (module : String) (typeSymbol : Hash)
    (typeName : String) (memberSymbol : Hash) (oldName newName : String) : StoreM P Hash := do
  validateProjectionIdentifier sort.label newName
  let root ← query (loadRoot P · inputRoot)
  assertTypeNamePoints root module typeName typeSymbol
  let definition ← query (typeDefinitionForSymbol (P := P) root typeSymbol)
  match sort.body? definition with
  | none => .fail ("rename_" ++ sort.shortLabel ++ " requires " ++ sort.typeLabel ++ " type " ++
      module ++ "." ++ typeName)
  | some body =>
    if body.members.any (·.name == newName) then
      .fail (sort.label ++ " already exists: " ++ newName)
    else if !body.members.any (fun m => m.memberSymbol == memberSymbol && m.name == oldName) then
      .fail (sort.label ++ " " ++ oldName ++ " does not point to " ++ memberSymbol)
    else do
      let renamed ← updateTypeDefinition root typeSymbol (sort.definition
        { body with
          typeSymbol := typeSymbol
          members := body.members.map fun m =>
            if m.memberSymbol == memberSymbol && m.name == oldName then { m with name := newName }
            else m })
      let renamed ← rewriteFunctionBodiesForMemberRename El root renamed
        (sort.rename typeSymbol memberSymbol oldName newName)
      putCheckedRoot El renamed

def applyRenameField (inputRoot : Hash) (module : String) (typeSymbol : Hash) (typeName : String)
    (fieldSymbol : Hash) (oldName newName : String) : StoreM P Hash :=
  applyRenameMember El .field inputRoot module typeSymbol typeName fieldSymbol oldName newName

def applyRenameVariant (inputRoot : Hash) (module : String) (typeSymbol : Hash)
    (typeName : String) (variantSymbol : Hash) (oldName newName : String) : StoreM P Hash :=
  applyRenameMember El .variant inputRoot module typeSymbol typeName variantSymbol oldName newName

/-- Remove a member of a type. -/
def applyRemoveMember (sort : MemberSort) (inputRoot : Hash) (module : String) (typeSymbol : Hash)
    (typeName : String) (memberSymbol : Hash) (name : String) : StoreM P Hash := do
  let root ← query (loadRoot P · inputRoot)
  assertTypeNamePoints root module typeName typeSymbol
  let definition ← query (typeDefinitionForSymbol (P := P) root typeSymbol)
  match sort.body? definition with
  | none => .fail ("remove_" ++ sort.shortLabel ++ " requires " ++ sort.typeLabel ++ " type " ++
      module ++ "." ++ typeName)
  | some body =>
    let members := body.members.filter fun m =>
      !(m.memberSymbol == memberSymbol && m.name == name)
    if members.length = body.members.length then
      .fail (sort.label ++ " " ++ name ++ " does not point to " ++ memberSymbol)
    else do
      let root ← updateTypeDefinition root typeSymbol (sort.definition
        { body with typeSymbol := typeSymbol, members := members })
      putCheckedRoot El root

def applyRemoveField (inputRoot : Hash) (module : String) (typeSymbol : Hash) (typeName : String)
    (fieldSymbol : Hash) (name : String) : StoreM P Hash :=
  applyRemoveMember El .field inputRoot module typeSymbol typeName fieldSymbol name

def applyRemoveVariant (inputRoot : Hash) (module : String) (typeSymbol : Hash)
    (typeName : String) (variantSymbol : Hash) (name : String) : StoreM P Hash :=
  applyRemoveMember El .variant inputRoot module typeSymbol typeName variantSymbol name

end CodeDb

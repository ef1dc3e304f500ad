import CodeDb.History.Apply
import CodeDb.Operations.Elaborator

/-!
# Operations

The operations a migration can record, with what they are given: names as the
source spells them, symbols as hashes, bodies and types as sources.
-/

namespace CodeDb

variable {P : Primitives} (El : Elaborator P)

/-- A member of a clique of functions. -/
structure RecursionGroupMemberSpec where
  name : String
  regionParams : List String
  typeParams : List String
  params : List ParamSpec
  returnType : String
  effects : List Effect
  body : El.RawExpr

/-- A member of a clique of types. -/
structure TypeGroupMemberSpec where
  name : String
  regionParams : List String
  definition : TypeDefinitionKind
  identity : Option TypeDefinitionIdentity
  deriving DecidableEq

/-- An operation on a program root. -/
inductive Operation where
  | createFunction (module name birthSeed : String) (regionParams typeParams : List String)
    (params : List ParamSpec) (returnType : String) (effects : List Effect) (body : El.RawExpr)
  | createExternalFunction (module name birthSeed : String) (regionParams : List String)
    (params : List ParamSpec) (returnType : String) (effects : List Effect)
    (abi linkName : String) (library : Option String)
  | createRecursionGroup (module : String) (members : List (RecursionGroupMemberSpec El))
  | createTypeGroup (module : String) (members : List TypeGroupMemberSpec)
  | createType (module name birthSeed : String) (regionParams typeParams : List String)
    (definition : TypeDefinitionKind) (identity : Option TypeDefinitionIdentity)
  | renameType (module : String) (typeSymbol : Hash) (oldName newName : String)
  | moveType (module : String) (typeSymbol : Hash) (name newModule : String)
  | addField (module : String) (typeSymbol : Hash) (typeName : String) (field : TypeMemberSpec)
    (fieldBirthSeed : String)
  | renameField (module : String) (typeSymbol : Hash) (typeName : String) (fieldSymbol : Hash)
    (oldName newName : String)
  | removeField (module : String) (typeSymbol : Hash) (typeName : String) (fieldSymbol : Hash)
    (name : String)
  | addVariant (module : String) (typeSymbol : Hash) (typeName : String) (variant : TypeMemberSpec)
    (variantBirthSeed : String)
  | renameVariant (module : String) (typeSymbol : Hash) (typeName : String) (variantSymbol : Hash)
    (oldName newName : String)
  | removeVariant (module : String) (typeSymbol : Hash) (typeName : String) (variantSymbol : Hash)
    (name : String)
  | renameSymbol (module : String) (symbol : Hash) (oldName newName : String)
  | moveSymbol (module : String) (symbol : Hash) (name newModule : String)
  | replaceFunctionBody (module : String) (symbol : Hash) (name : String) (body : El.RawExpr)
  | changeFunctionSignature (module : String) (symbol : Hash) (name : String)
    (regionParams : List String) (params : List ParamSpec) (returnType : String)
    (effects : List Effect)
  | addParameter (module : String) (symbol : Hash) (name : String) (param : ParamSpec)
    (default : Option El.RawExpr)
  | convertParamToReference (module : String) (symbol : Hash) (name : String) (paramIndex : Nat)
    (paramName region : String) (isMutable : Bool)
  | deleteSymbol (module : String) (symbol : Hash) (name : String) (force : Bool)
  | createAlias (module : String) (symbol : Hash) (name aliasName : String)
  | removeAlias (module : String) (symbol : Hash) (name aliasName : String)
  | setExport (module : String) (symbol : Hash) (name exportedName : String)
  | removeExport (module : String) (symbol : Hash) (name exportedName : String)
  | createTest (name entryModule entryName : String) (entrySymbol : Hash) (category : TestCategory)
    (mode : TestMode) (args : List El.TestValue) (expected : El.TestValue)
    (nativeAgreement nativeRequired : Bool)
  | deleteTest (name : String) (test : Hash)
  | mergeBranch (merge : MergeBranch)

variable {El} in
def Operation.kindName : Operation El → String
  | .createFunction .. => "create_function"
  | .createRecursionGroup .. => "create_recursion_group"
  | .createTypeGroup .. => "create_type_group"
  | .createExternalFunction .. => "create_external_function"
  | .createType .. => "create_type"
  | .renameType .. => "rename_type"
  | .moveType .. => "move_type"
  | .addField .. => "add_field"
  | .renameField .. => "rename_field"
  | .removeField .. => "remove_field"
  | .addVariant .. => "add_variant"
  | .renameVariant .. => "rename_variant"
  | .removeVariant .. => "remove_variant"
  | .renameSymbol .. => "rename_symbol"
  | .moveSymbol .. => "move_symbol"
  | .replaceFunctionBody .. => "replace_function_body"
  | .changeFunctionSignature .. => "change_function_signature"
  | .addParameter .. => "add_parameter"
  | .convertParamToReference .. => "convert_param_to_reference"
  | .deleteSymbol .. => "delete_symbol"
  | .createAlias .. => "create_alias"
  | .removeAlias .. => "remove_alias"
  | .setExport .. => "set_export"
  | .removeExport .. => "remove_export"
  | .createTest .. => "create_test"
  | .deleteTest .. => "delete_test"
  | .mergeBranch .. => "merge_branch"

end CodeDb

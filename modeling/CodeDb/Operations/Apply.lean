import CodeDb.Operations.Functions

/-!
# Applying an operation to a root
-/

namespace CodeDb

variable {P : Primitives} (El : Elaborator P)

/-- Apply an operation to a root, and return the new root. Births are on top of a
history point, if there is one. -/
def applyOperationToRoot (inputRoot : Hash) (parentHistoryHash : Option Hash) :
    Operation El → StoreM P Hash
  | .createFunction module name birthSeed regionParams typeParams params returnType effects body =>
    applyCreateFunction El inputRoot parentHistoryHash module name birthSeed regionParams typeParams
      params returnType effects body
  | .createRecursionGroup module members =>
    applyCreateRecursionGroup El inputRoot parentHistoryHash module members
  | .createTypeGroup module members =>
    applyCreateTypeGroup El inputRoot parentHistoryHash module members
  | .createExternalFunction module name birthSeed regionParams params returnType effects abi
      linkName library =>
    applyCreateExternalFunction El inputRoot parentHistoryHash module name birthSeed regionParams
      params returnType effects abi linkName library
  | .createType module name birthSeed regionParams typeParams definition identity =>
    applyCreateType El inputRoot parentHistoryHash module name birthSeed regionParams typeParams
      definition identity
  | .renameType module typeSymbol oldName newName =>
    applyRenameType El inputRoot module typeSymbol oldName newName
  | .moveType module typeSymbol name newModule =>
    applyMoveType El inputRoot module typeSymbol name newModule
  | .addField module typeSymbol typeName field fieldBirthSeed =>
    applyAddField El inputRoot parentHistoryHash module typeSymbol typeName field fieldBirthSeed
  | .renameField module typeSymbol typeName fieldSymbol oldName newName =>
    applyRenameField El inputRoot module typeSymbol typeName fieldSymbol oldName newName
  | .removeField module typeSymbol typeName fieldSymbol name =>
    applyRemoveField El inputRoot module typeSymbol typeName fieldSymbol name
  | .addVariant module typeSymbol typeName variant variantBirthSeed =>
    applyAddVariant El inputRoot parentHistoryHash module typeSymbol typeName variant
      variantBirthSeed
  | .renameVariant module typeSymbol typeName variantSymbol oldName newName =>
    applyRenameVariant El inputRoot module typeSymbol typeName variantSymbol oldName newName
  | .removeVariant module typeSymbol typeName variantSymbol name =>
    applyRemoveVariant El inputRoot module typeSymbol typeName variantSymbol name
  | .renameSymbol module symbol oldName newName =>
    applyRenameSymbol El inputRoot module symbol oldName newName
  | .moveSymbol module symbol name newModule =>
    applyMoveSymbol El inputRoot module symbol name newModule
  | .replaceFunctionBody module symbol name body =>
    applyReplaceBody El inputRoot module symbol name body
  | .changeFunctionSignature module symbol name regionParams params returnType effects =>
    applyChangeSignature El inputRoot module symbol name regionParams params returnType effects
  | .addParameter module symbol name param default =>
    applyAddParameter El inputRoot module symbol name param default
  | .convertParamToReference module symbol name paramIndex paramName region isMutable =>
    applyConvertParamToReference El inputRoot module symbol name paramIndex paramName region
      isMutable
  | .deleteSymbol module symbol name force =>
    applyDeleteSymbol El inputRoot module symbol name force
  | .createAlias module symbol name aliasName =>
    applyCreateAlias El inputRoot module symbol name aliasName
  | .removeAlias module symbol name aliasName =>
    applyRemoveAlias El inputRoot module symbol name aliasName
  | .setExport module symbol name exportedName =>
    applySetExport El inputRoot module symbol name exportedName
  | .removeExport module symbol name exportedName =>
    applyRemoveExport El inputRoot module symbol name exportedName
  | .createTest name entryModule entryName entrySymbol category mode args expected nativeAgreement
      nativeRequired =>
    applyCreateTest El inputRoot name entryModule entryName entrySymbol category mode args expected
      nativeAgreement nativeRequired
  | .deleteTest name test => applyDeleteTest El inputRoot name test
  | .mergeBranch merge =>
    applyMergeBranch El inputRoot merge.sourceRootHash merge.mergedRoot merge.objectPayloads

end CodeDb

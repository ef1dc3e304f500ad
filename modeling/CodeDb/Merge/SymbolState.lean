import CodeDb.Lib.Owned
import CodeDb.Lib.ThreeWay
import CodeDb.Model.ProgramRoot
import Mathlib.Data.Multiset.Basic

/-!
# The state of one symbol or type in a root

A merge compares roots symbol by symbol and type by type. The state of a symbol
gathers its entry, its display names, its parameter names and its exports; a
symbol with no entry in the root has the absent state, whatever other lists of
the root still say about it.

`mergeSymbolState` and `mergeTypeState` merge the states that both branches
changed, and refuse conservatively.

## Main definitions

* `SymbolState`, `symbolState`, `replaceSymbolState`, `mergeSymbolState`
* `TypeState`, `typeState`, `replaceTypeState`, `mergeTypeState`
-/

namespace CodeDb

open Owned SortOn ThreeWay

/-- Why two branches cannot be merged. -/
structure MergeConflict where
  kind : String
  message : String
  symbols : List Hash
  details : JsonValue
  deriving DecidableEq

/-- The details of a conflict about one facet. -/
def facetDetails (facet : String) : JsonValue := .object [("facet", .string facet)]

/-- A conflict about one symbol. -/
def symbolConflict (kind message : String) (symbol : Hash) (facet : String) : MergeConflict where
  kind := kind
  message := message
  symbols := [symbol]
  details := facetDetails facet

/-- A conflict about one type. -/
def typeConflict (kind message : String) (typeSymbol : Hash) (facet : String) :
    MergeConflict where
  kind := kind
  message := message
  symbols := [typeSymbol]
  details := facetDetails facet

/-! ### Symbols -/

/-- Everything a root says about one of its symbols. -/
structure SymbolState where
  entry : Option RootSymbolPayload
  names : List NameBinding
  paramNames : Option ParamNames
  exports : List ExportBinding
  deriving DecidableEq

/-- The state of a symbol the root does not list. -/
def SymbolState.absent : SymbolState := ⟨none, [], none, []⟩

/-- What the names of one symbol are ordered by. -/
def NameBinding.stateKey (b : NameBinding) : String ×ₗ String ×ₗ Bool :=
  toLex (b.module, toLex (b.displayName, b.isPreferred))

/-- The state of a symbol in a root; absent without an entry. -/
def symbolState (root : ProgramRootPayload) (symbol : Hash) : SymbolState :=
  match root.symbols.find? (·.symbol == symbol) with
  | none => .absent
  | some entry =>
    { entry := some entry
      names := sortOn (·.stateKey) (root.names.filter (·.symbol == symbol))
      paramNames := root.paramNames.find? (·.symbol == symbol)
      exports := sortOn (·.exportedName) (root.exports.filter (·.symbol == symbol)) }

/-- Put a state in place of everything a root says about a symbol. -/
def replaceSymbolState (root : ProgramRootPayload) (symbol : Hash) (state : SymbolState) :
    ProgramRootPayload :=
  let state := if state.entry.isSome then state else .absent
  { root with
    symbols := replaceOwned (·.symbol) symbol root.symbols state.entry.toList
    names := replaceOwned (·.symbol) symbol root.names state.names
    paramNames := replaceOwned (·.symbol) symbol root.paramNames state.paramNames.toList
    exports := replaceOwned (·.symbol) symbol root.exports state.exports }

/-- Every symbol some list of a root mentions. -/
def rootSymbols (root : ProgramRootPayload) : List Hash :=
  root.symbols.map (·.symbol) ++ root.names.map (·.symbol) ++
    root.paramNames.map (·.symbol) ++ root.exports.map (·.symbol)

/-- The signature in a state. -/
def signatureOf (state : SymbolState) : Option Hash := state.entry.map (·.signature)

/-- The definition in a state. -/
def definitionOf (state : SymbolState) : Option Hash := state.entry.map (·.definition)

/-- Both sides changed a value, and not alike. -/
def clashes {α : Type*} [DecidableEq α] (base left right : α) : Bool :=
  left ≠ base && right ≠ base && left ≠ right

/-- Merge the states of a symbol that both branches changed. -/
def mergeSymbolState (symbol : Hash) (base left right : SymbolState) :
    Except MergeConflict SymbolState :=
  if left.entry.isSome ≠ base.entry.isSome ∨ right.entry.isSome ≠ base.entry.isSome then
    .error (symbolConflict "delete_conflict"
      "one branch removed or added a symbol changed by the other branch" symbol "presence")
  else if signatureOf left ≠ signatureOf base ∨ signatureOf right ≠ signatureOf base then
    if signatureOf left = signatureOf right ∧ left.names = right.names ∧
        left.paramNames = right.paramNames ∧ left.exports = right.exports ∧
        definitionOf left = definitionOf right then
      .ok left
    else
      .error (symbolConflict "signature_conflict"
        "signature changes require an explicit merge" symbol "signature")
  else if clashes (definitionOf base) (definitionOf left) (definitionOf right) then
    .error (symbolConflict "dependency_conflict"
      "both branches changed the same function body" symbol "definition")
  else if clashes base.names left.names right.names then
    .error (symbolConflict "name_conflict"
      "both branches changed names for the same symbol" symbol "names")
  else if clashes base.paramNames left.paramNames right.paramNames then
    .error (symbolConflict "signature_conflict"
      "both branches changed parameter names for the same symbol" symbol "param_names")
  else if clashes base.exports left.exports right.exports then
    .error (symbolConflict "export_conflict"
      "both branches changed exports for the same symbol" symbol "exports")
  else
    .ok
      { entry := preferRight base.entry left.entry right.entry
        names := preferRight base.names left.names right.names
        paramNames := preferRight base.paramNames left.paramNames right.paramNames
        exports := preferRight base.exports left.exports right.exports }

/-! ### Types -/

/-- Everything a root says about one of its types. -/
structure TypeState where
  entry : Option RootTypePayload
  names : List TypeNameBinding
  deriving DecidableEq

/-- The state of a type the root does not list. -/
def TypeState.absent : TypeState := ⟨none, []⟩

/-- What the names of one type are ordered by. -/
def TypeNameBinding.stateKey (b : TypeNameBinding) : String ×ₗ String ×ₗ Bool :=
  toLex (b.module, toLex (b.displayName, b.isPreferred))

/-- The state of a type in a root; absent without an entry. -/
def typeState (root : ProgramRootPayload) (typeSymbol : Hash) : TypeState :=
  match root.types.find? (·.typeSymbol == typeSymbol) with
  | none => .absent
  | some entry =>
    { entry := some entry
      names := sortOn (·.stateKey) (root.typeNames.filter (·.typeSymbol == typeSymbol)) }

/-- Put a state in place of everything a root says about a type. -/
def replaceTypeState (root : ProgramRootPayload) (typeSymbol : Hash) (state : TypeState) :
    ProgramRootPayload :=
  let state := if state.entry.isSome then state else .absent
  { root with
    types := replaceOwned (·.typeSymbol) typeSymbol root.types state.entry.toList
    typeNames := replaceOwned (·.typeSymbol) typeSymbol root.typeNames state.names }

/-- Every type some list of a root mentions. -/
def rootTypeSymbols (root : ProgramRootPayload) : List Hash :=
  root.types.map (·.typeSymbol) ++ root.typeNames.map (·.typeSymbol)

/-- The definition in a state. -/
def typeDefOf (state : TypeState) : Option Hash := state.entry.map (·.typeDef)

/-- Merge the states of a type that both branches changed. -/
def mergeTypeState (typeSymbol : Hash) (base left right : TypeState) :
    Except MergeConflict TypeState :=
  if left.entry.isSome ≠ base.entry.isSome ∨ right.entry.isSome ≠ base.entry.isSome then
    .error (typeConflict "delete_conflict"
      "one branch removed or added a type changed by the other branch" typeSymbol "presence")
  else if clashes (typeDefOf base) (typeDefOf left) (typeDefOf right) then
    .error (typeConflict "dependency_conflict"
      "both branches changed the same type definition" typeSymbol "definition")
  else if clashes base.names left.names right.names then
    .error (typeConflict "name_conflict"
      "both branches changed names for the same type" typeSymbol "names")
  else
    .ok
      { entry := if typeDefOf right ≠ typeDefOf base then right.entry else left.entry
        names := preferRight base.names left.names right.names }

end CodeDb

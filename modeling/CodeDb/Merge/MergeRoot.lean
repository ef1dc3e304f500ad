import CodeDb.Merge.SymbolState

/-!
# Merging three roots

`mergeRootPayloads` merges a target and a source root that share an ancestor:
symbols and types one by one through their states, the tests and the metadata
each as a whole. The merged root starts as a copy of the target, and whatever no
step of the merge mentions stays as the target has it.

## Main definitions

* `mergeSymbol`, `mergeType` — the step for one symbol and for one type
* `mergeRegistry` — the three-way merge of a whole registry
* `checkBindings` — no key of a list of bindings has two owners
* `mergeRootPayloads` — the merge
-/

namespace CodeDb

open SortOn ThreeWay

/-- Merge one symbol into the root built so far. -/
def mergeSymbol (ancestor target source merged : ProgramRootPayload) (symbol : Hash) :
    Except MergeConflict ProgramRootPayload := do
  let next ← mergeView (mergeSymbolState symbol) (symbolState ancestor symbol)
    (symbolState target symbol) (symbolState source symbol)
  match next with
  | none => pure merged
  | some state => pure (replaceSymbolState merged symbol state)

/-- Merge one type into the root built so far. -/
def mergeType (ancestor target source merged : ProgramRootPayload) (typeSymbol : Hash) :
    Except MergeConflict ProgramRootPayload := do
  let next ← mergeView (mergeTypeState typeSymbol) (typeState ancestor typeSymbol)
    (typeState target typeSymbol) (typeState source typeSymbol)
  match next with
  | none => pure merged
  | some state => pure (replaceTypeState merged typeSymbol state)

/-- Merge a registry as a whole: the target's value, unless only the source
changed it; a conflict when both changed it differently. Registries are compared by what
`value` makes of them. -/
def mergeRegistry {α β : Type*} [DecidableEq β] (value : α → β) (conflict : MergeConflict)
    (ancestor target source : α) : Except MergeConflict α :=
  if value source ≠ value ancestor then
    if value target = value ancestor then .ok source
    else if value target ≠ value source then .error conflict
    else .ok target
  else .ok target

/-- The test objects a conflict about the tests names. -/
def testEntrySymbols (tests : List RootTestBinding) : List Hash := tests.map (·.test)

/-- No key of a list of bindings has two owners. The map lists what was inserted
last first. -/
def checkBindings {β κ : Type*} [BEq κ] (key : β → κ) (owner : β → Hash)
    (conflict : Hash → β → MergeConflict) : List (κ × Hash) → List β → Except MergeConflict Unit
  | _, [] => .ok ()
  | seen, binding :: rest =>
    match seen.lookup (key binding) with
    | some existing =>
      if existing ≠ owner binding then .error (conflict existing binding)
      else checkBindings key owner conflict ((key binding, owner binding) :: seen) rest
    | none => checkBindings key owner conflict ((key binding, owner binding) :: seen) rest

/-- No display name stands for two symbols. -/
def validateNameConflicts (root : ProgramRootPayload) : Except MergeConflict Unit :=
  checkBindings (fun b : NameBinding => (b.module, b.displayName)) (·.symbol)
    (fun existing b =>
      { kind := "name_conflict"
        message := "name " ++ b.module ++ "." ++ b.displayName ++
          " is bound to multiple symbols after merge"
        symbols := [existing, b.symbol]
        details := .object [("module", .string b.module), ("name", .string b.displayName)] })
    [] root.names

/-- No display name stands for two types. -/
def validateTypeNameConflicts (root : ProgramRootPayload) : Except MergeConflict Unit :=
  checkBindings (fun b : TypeNameBinding => (b.module, b.displayName)) (·.typeSymbol)
    (fun existing b =>
      { kind := "name_conflict"
        message := "type name " ++ b.module ++ "." ++ b.displayName ++
          " is bound to multiple type symbols after merge"
        symbols := [existing, b.typeSymbol]
        details := .object [("module", .string b.module), ("name", .string b.displayName)] })
    [] root.typeNames

/-- No exported name stands for two symbols. -/
def validateExportConflicts (root : ProgramRootPayload) : Except MergeConflict Unit :=
  checkBindings (fun b : ExportBinding => b.exportedName) (·.symbol)
    (fun existing b =>
      { kind := "export_conflict"
        message := "export " ++ b.exportedName ++ " is bound to multiple symbols after merge"
        symbols := [existing, b.symbol]
        details := .object [("exported_name", .string b.exportedName)] })
    [] root.exports

/-- The conflict of two branches that both changed the tests. -/
def testsConflict (source : ProgramRootPayload) : MergeConflict where
  kind := "dependency_conflict"
  message := "both branches changed semantic test registry"
  symbols := testEntrySymbols source.tests
  details := facetDetails "tests"

/-- The conflict of two branches that both changed the metadata. -/
def metadataConflict : MergeConflict where
  kind := "dependency_conflict"
  message := "both branches changed root metadata"
  symbols := []
  details := facetDetails "metadata"

/-- The symbols any of three roots mentions, each once, in order. -/
def allSymbols (ancestor target source : ProgramRootPayload) : List Hash :=
  sortedSet (rootSymbols ancestor ++ rootSymbols target ++ rootSymbols source)

/-- The types any of three roots mentions, each once, in order. -/
def allTypes (ancestor target source : ProgramRootPayload) : List Hash :=
  sortedSet (rootTypeSymbols ancestor ++ rootTypeSymbols target ++ rootTypeSymbols source)

/-- Merge a target and a source root that share an ancestor. -/
def mergeRootPayloads (ancestor target source : ProgramRootPayload) :
    Except MergeConflict ProgramRootPayload := do
  let merged ← (allSymbols ancestor target source).foldlM (mergeSymbol ancestor target source)
    target
  let merged ← (allTypes ancestor target source).foldlM (mergeType ancestor target source) merged
  let tests ← mergeRegistry id (testsConflict source) ancestor.tests target.tests source.tests
  let metadata ← mergeRegistry Metadata.value metadataConflict ancestor.metadata target.metadata
    source.metadata
  let merged := { merged with tests := tests, metadata := metadata }
  validateNameConflicts merged
  validateTypeNameConflicts merged
  validateExportConflicts merged
  pure merged

end CodeDb

import CodeDb.Build.Indexing
import CodeDb.Jobs.ArtifactJobs
import Mathlib.Order.Bounds.Basic

/-!
# What to build again

Between two roots the build planner works out which functions have to be compiled again. It looks
at each symbol of either root by itself, and where a signature changed it adds the symbols that
depend on it, in the old root or in the new one. What it collects on the way decides what kind of
build is needed.

## Main definitions

* `planBuildImpact` — the plan
* `SymbolChange` — what became of one symbol

## Main results

* `planBuildImpact_exact` — which functions are compiled again, and what kind of build it is
-/

namespace CodeDb

open SortOn Relation

/-! ### The plan -/

inductive BuildImpactKind where
  | metadataOnly
  | relinkOnly
  | recompileSymbols
  | recompileDependents
  | fullRebuild
  deriving DecidableEq

/-- The place of a kind in their order. -/
def BuildImpactKind.rank : BuildImpactKind → ℕ
  | .metadataOnly => 0
  | .relinkOnly => 1
  | .recompileSymbols => 2
  | .recompileDependents => 3
  | .fullRebuild => 4

theorem BuildImpactKind.rank_injective : Function.Injective BuildImpactKind.rank := by
  intro a b same
  cases a <;> cases b <;> first | rfl | exact nomatch same

instance : LinearOrder BuildImpactKind := LinearOrder.lift' _ BuildImpactKind.rank_injective

inductive BuildImpactReason where
  | rootUnchanged
  | metadataChanged
  | symbolAdded
  | symbolRemoved
  | interfaceHashChanged
  | implementationHashChanged
  | bodyExpressionHashChanged
  | dependencySetChanged
  | typeDefinitionChanged
  | exportMapChanged
  | unclassifiedRootChange
  deriving DecidableEq

/-- The place of a reason in their order. -/
def BuildImpactReason.rank : BuildImpactReason → ℕ
  | .rootUnchanged => 0
  | .metadataChanged => 1
  | .symbolAdded => 2
  | .symbolRemoved => 3
  | .interfaceHashChanged => 4
  | .implementationHashChanged => 5
  | .bodyExpressionHashChanged => 6
  | .dependencySetChanged => 7
  | .typeDefinitionChanged => 8
  | .exportMapChanged => 9
  | .unclassifiedRootChange => 10

/-- The place of a kind of artifact in their order. -/
def ArtifactKind.rank : ArtifactKind → ℕ
  | .canonicalSource => 0
  | .cProjection => 1
  | .typedExpression => 2
  | .functionDependencySet => 3
  | .interfaceHash => 4
  | .implementationHash => 5
  | .typeLayout => 6
  | .loweredIr => 7
  | .objectFile => 8
  | .linkPlan => 9
  | .executable => 10

/-- What has to be built again between two roots. -/
structure BuildImpact where
  kind : BuildImpactKind
  artifactKinds : List ArtifactKind
  projectionArtifacts : List ArtifactKind
  recompileSymbols : List Hash
  relink : Bool
  changedSymbols : List Hash
  unchangedFunctionDefs : List Hash
  directDependents : List (Hash × List Hash)
  transitiveDependents : List (Hash × List Hash)
  reasons : List BuildImpactReason
  deriving DecidableEq

/-- The plan between a root and itself. -/
def BuildImpact.metadataOnly : BuildImpact where
  kind := .metadataOnly
  artifactKinds := []
  projectionArtifacts := []
  recompileSymbols := []
  relink := false
  changedSymbols := []
  unchangedFunctionDefs := []
  directDependents := []
  transitiveDependents := []
  reasons := [.rootUnchanged]

/-- What is collected on the way. The lists of hashes and of reasons stand for sets. -/
structure ImpactState where
  kind : BuildImpactKind
  recompileSymbols : List Hash
  changedSymbols : List Hash
  unchangedFunctionDefs : List Hash
  directDependents : List (Hash × List Hash)
  transitiveDependents : List (Hash × List Hash)
  relink : Bool
  reasons : List BuildImpactReason

/-- The kind is raised where the other is higher. -/
def raiseKind (current candidate : BuildImpactKind) : BuildImpactKind :=
  if candidate > current then candidate else current

/-- The entry of a symbol in the map of a root's symbols: the last one, if there are several. -/
def symbolMap (root : ProgramRootPayload) (symbol : Hash) : Option RootSymbolPayload :=
  root.symbols.reverse.find? (·.symbol == symbol)

/-- The names of a symbol that are not preferred. -/
def aliasesFor (root : ProgramRootPayload) (symbol : Hash) : List String :=
  sortedSet ((root.names.filter fun binding =>
    binding.symbol == symbol && !binding.isPreferred).map (·.displayName))

/-- The names a symbol is exported under. -/
def exportsFor (root : ProgramRootPayload) (symbol : Hash) : List String :=
  sortedSet ((root.exports.filter (·.symbol == symbol)).map (·.exportedName))

section Plan

variable (P : Primitives) (objects : Objects) (table : DependencyTable)
  (oldRootHash newRootHash : Hash) (oldRoot newRoot : ProgramRootPayload)

/-- The symbols of either root. -/
def symbolsOfEither : List Hash :=
  sortedSet (oldRoot.symbols.map (·.symbol) ++ newRoot.symbols.map (·.symbol))

def aliasesChanged : Bool :=
  (symbolsOfEither oldRoot newRoot).any fun symbol =>
    aliasesFor oldRoot symbol != aliasesFor newRoot symbol

def paramNamesChanged : Bool :=
  (symbolsOfEither oldRoot newRoot).any fun symbol =>
    paramNames oldRoot symbol != paramNames newRoot symbol

def rootMetadataChanged : Bool :=
  oldRoot.names != newRoot.names || oldRoot.typeNames != newRoot.typeNames ||
    oldRoot.paramNames != newRoot.paramNames || oldRoot.tests != newRoot.tests ||
    oldRoot.metadata.value != newRoot.metadata.value || aliasesChanged oldRoot newRoot ||
    paramNamesChanged oldRoot newRoot

/-- The symbols that are exported under other names. -/
def exportChangedSymbols : List Hash :=
  (sortedSet (oldRoot.exports.map (·.symbol) ++ newRoot.exports.map (·.symbol))).filter
    fun symbol => exportsFor oldRoot symbol != exportsFor newRoot symbol

/-- The symbols of the new root that depend on a symbol, in the old root or in the new one. -/
def dependentsForSignatureChange (symbol : Hash) (transitive : Bool) : List Hash :=
  sortedSet (([oldRootHash, newRootHash].flatMap fun rootHash =>
    if transitive then table.transitiveDependentsForSymbol rootHash symbol
    else table.directDependentsForSymbol rootHash symbol).filter
      fun dependent => (symbolMap newRoot dependent).isSome)

/-- The body of a definition, unless it is external. -/
def bodyHash (definition : Hash) : Except Error (Option Hash) := do
  let external ← definitionIsExternal objects definition
  if external then return none
  else do
    let hash ← functionBodyHash P objects definition
    return some hash

/-- What is known before the symbols are looked at. -/
def ImpactState.start : ImpactState where
  kind :=
    let kind := if oldRoot.exports ≠ newRoot.exports then raiseKind .metadataOnly .relinkOnly
      else .metadataOnly
    if oldRoot.types ≠ newRoot.types then raiseKind kind .fullRebuild else kind
  recompileSymbols := []
  changedSymbols :=
    if oldRoot.exports ≠ newRoot.exports then exportChangedSymbols oldRoot newRoot else []
  unchangedFunctionDefs := []
  directDependents := []
  transitiveDependents := []
  relink := decide (oldRoot.exports ≠ newRoot.exports) || decide (oldRoot.types ≠ newRoot.types)
  reasons :=
    (if rootMetadataChanged oldRoot newRoot then [.metadataChanged] else []) ++
      (if oldRoot.exports ≠ newRoot.exports then [.exportMapChanged] else []) ++
      (if oldRoot.types ≠ newRoot.types then [.typeDefinitionChanged] else [])

/-- The reasons that are given along with a changed interface or implementation. -/
def changedParts (oldDeps newDeps : List Hash) (oldBody newBody : Option Hash) :
    List BuildImpactReason :=
  (if oldBody ≠ newBody then [.bodyExpressionHashChanged] else []) ++
    (if oldDeps ≠ newDeps then [.dependencySetChanged] else [])

/-- Look at one symbol. -/
def impactOfSymbol (state : ImpactState) (symbol : Hash) : Except Error ImpactState :=
  match symbolMap oldRoot symbol, symbolMap newRoot symbol with
  | none, some entry =>
    .ok { state with
      kind := raiseKind state.kind .recompileSymbols
      relink := true
      changedSymbols := symbol :: state.changedSymbols
      recompileSymbols := symbol :: state.recompileSymbols
      reasons := .symbolAdded :: state.reasons
      unchangedFunctionDefs := state.unchangedFunctionDefs.filter (· ≠ entry.definition) }
  | some _, none =>
    .ok { state with
      kind := raiseKind state.kind .relinkOnly
      relink := true
      changedSymbols := symbol :: state.changedSymbols
      reasons := .symbolRemoved :: state.reasons }
  | some oldEntry, some newEntry => do
    let oldDeps := sortedSet (table.dependenciesForSymbol oldRootHash symbol)
    let newDeps := sortedSet (table.dependenciesForSymbol newRootHash symbol)
    let oldBody ← bodyHash P objects oldEntry.definition
    let newBody ← bodyHash P objects newEntry.definition
    if oldEntry.signature ≠ newEntry.signature then
      let direct := dependentsForSignatureChange table oldRootHash newRootHash newRoot symbol false
      let transitive :=
        dependentsForSignatureChange table oldRootHash newRootHash newRoot symbol true
      return { state with
        kind := raiseKind state.kind .recompileDependents
        relink := true
        changedSymbols := symbol :: state.changedSymbols
        recompileSymbols := transitive ++ symbol :: state.recompileSymbols
        reasons := changedParts oldDeps newDeps oldBody newBody ++
          .interfaceHashChanged :: state.reasons
        directDependents := state.directDependents ++ [(symbol, direct)]
        transitiveDependents := state.transitiveDependents ++ [(symbol, transitive)] }
    else if oldEntry.definition ≠ newEntry.definition ∨ oldDeps ≠ newDeps then
      return { state with
        kind := raiseKind state.kind .recompileSymbols
        relink := true
        changedSymbols := symbol :: state.changedSymbols
        recompileSymbols := symbol :: state.recompileSymbols
        reasons := changedParts oldDeps newDeps oldBody newBody ++
          .implementationHashChanged :: state.reasons }
    else
      return { state with
        unchangedFunctionDefs := newEntry.definition :: state.unchangedFunctionDefs }
  | none, none => .error "internal error: entered unreachable code"

/-- Where a type changed, every symbol is compiled again. -/
def ImpactState.withTypes (state : ImpactState) : ImpactState :=
  if oldRoot.types ≠ newRoot.types then
    { state with
      changedSymbols := newRoot.symbols.map (·.symbol) ++ state.changedSymbols
      recompileSymbols := newRoot.symbols.map (·.symbol) ++ state.recompileSymbols
      unchangedFunctionDefs := [] }
  else state

/-- Where no reason was found, all is built again. -/
def ImpactState.classified (state : ImpactState) : ImpactState :=
  if state.reasons = [] then
    { state with
      kind := raiseKind state.kind .fullRebuild
      reasons := [.unclassifiedRootChange]
      relink := true }
  else state

def projectionArtifacts : List ArtifactKind := [.canonicalSource, .cProjection]

/-- What was collected, as a plan. -/
def ImpactState.toImpact (state : ImpactState) : BuildImpact where
  kind := state.kind
  artifactKinds := sortOn ArtifactKind.rank (projectionArtifacts ++
    (if state.recompileSymbols = [] then [] else [ArtifactKind.loweredIr, .objectFile]) ++
    (if state.relink then [ArtifactKind.linkPlan, .executable] else [])).dedup
  projectionArtifacts := projectionArtifacts
  recompileSymbols := sortedSet state.recompileSymbols
  relink := state.relink
  changedSymbols := sortedSet state.changedSymbols
  unchangedFunctionDefs := sortedSet state.unchangedFunctionDefs
  directDependents := state.directDependents
  transitiveDependents := state.transitiveDependents
  reasons := sortOn BuildImpactReason.rank state.reasons.dedup

/-- What has to be built again between two roots. -/
def planBuildImpact : Except Error BuildImpact :=
  if oldRootHash = newRootHash then .ok .metadataOnly
  else do
    let oldRoot ← loadRoot P objects oldRootHash
    let newRoot ← loadRoot P objects newRootHash
    let state ← (symbolsOfEither oldRoot newRoot).foldlM
      (impactOfSymbol P objects table oldRootHash newRootHash oldRoot newRoot)
      (.start oldRoot newRoot)
    return (state.withTypes oldRoot newRoot).classified.toImpact

end Plan

/-! ### What became of a symbol -/

inductive SymbolChange where
  | same
  | removed
  | added
  | implementation
  | signature
  deriving DecidableEq

/-- The build a change calls for. -/
def SymbolChange.kind : SymbolChange → BuildImpactKind
  | .same => .metadataOnly
  | .removed => .relinkOnly
  | .added | .implementation => .recompileSymbols
  | .signature => .recompileDependents

section Changes

variable {P : Primitives} {objects : Objects} (table : DependencyTable)
  (oldRootHash newRootHash : Hash) (oldRoot newRoot : ProgramRootPayload)

/-- What became of a symbol between two roots. -/
def symbolChange (symbol : Hash) : SymbolChange :=
  match symbolMap oldRoot symbol, symbolMap newRoot symbol with
  | none, none => .same
  | some _, none => .removed
  | none, some _ => .added
  | some oldEntry, some newEntry =>
    if oldEntry.signature ≠ newEntry.signature then .signature
    else if oldEntry.definition ≠ newEntry.definition ∨
        sortedSet (table.dependenciesForSymbol oldRootHash symbol) ≠
          sortedSet (table.dependenciesForSymbol newRootHash symbol) then .implementation
    else .same

/-- A symbol is why another one is compiled again: it is that symbol, or that symbol depends on
its signature. -/
def BringsIn (symbol other : Hash) : Prop :=
  (other = symbol ∧ BuildImpactKind.recompileSymbols ≤
      (symbolChange table oldRootHash newRootHash oldRoot newRoot symbol).kind) ∨
    symbolChange table oldRootHash newRootHash oldRoot newRoot symbol = .signature ∧
      other ∈ dependentsForSignatureChange table oldRootHash newRootHash newRoot symbol true

/-- What is collected from some symbols. -/
structure Collects (symbols : List Hash) (state state' : ImpactState) : Prop where
  kind : ∀ k, k ≤ state'.kind ↔ k ≤ state.kind ∨ ∃ symbol ∈ symbols,
    k ≤ (symbolChange table oldRootHash newRootHash oldRoot newRoot symbol).kind
  recompiled : ∀ a, a ∈ state'.recompileSymbols ↔ a ∈ state.recompileSymbols ∨
    ∃ symbol ∈ symbols, BringsIn table oldRootHash newRootHash oldRoot newRoot symbol a
  relinks : state'.relink = true ↔ state.relink = true ∨ ∃ symbol ∈ symbols,
    symbolChange table oldRootHash newRootHash oldRoot newRoot symbol ≠ .same
  unclassified : state'.reasons = [] ↔ state.reasons = [] ∧ ∀ symbol ∈ symbols,
    symbolChange table oldRootHash newRootHash oldRoot newRoot symbol = .same

variable {table oldRootHash newRootHash oldRoot newRoot} {state state' state'' : ImpactState}

theorem raiseKind_eq_max (a b : BuildImpactKind) : raiseKind a b = max a b := by
  unfold raiseKind
  split_ifs with higher
  · exact (max_eq_right higher.le).symm
  · exact (max_eq_left (not_lt.mp higher)).symm

theorem le_raiseKind_iff {a b k : BuildImpactKind} : k ≤ raiseKind a b ↔ k ≤ a ∨ k ≤ b := by
  rw [raiseKind_eq_max, le_max_iff]

/-- Looking at one symbol collects what became of it. -/
theorem collects_impactOfSymbol {symbol : Hash}
    (run : impactOfSymbol P objects table oldRootHash newRootHash oldRoot newRoot state symbol =
      .ok state') :
    Collects table oldRootHash newRootHash oldRoot newRoot [symbol] state state' := by
  have single : ∀ p : Hash → Prop, (∃ s ∈ [symbol], p s) ↔ p symbol := by simp
  have every : ∀ p : Hash → Prop, (∀ s ∈ [symbol], p s) ↔ p symbol := by simp
  unfold impactOfSymbol at run
  split at run
  -- a symbol that is new
  · rename_i old new
    obtain rfl := Except.ok.inj run
    have change : symbolChange table oldRootHash newRootHash oldRoot newRoot symbol = .added := by
      simp [symbolChange, old, new]
    constructor <;> simp only [single, every, BringsIn, change, SymbolChange.kind]
    · exact fun k => le_raiseKind_iff
    · simp [or_comm]
    · simp
    · simp
  · rename_i old new
    obtain rfl := Except.ok.inj run
    have change : symbolChange table oldRootHash newRootHash oldRoot newRoot symbol =
        .removed := by
      simp [symbolChange, old, new]
    constructor <;> simp only [single, every, BringsIn, change, SymbolChange.kind]
    · exact fun k => le_raiseKind_iff
    -- a removed symbol is only linked without
    · have lower : ¬ BuildImpactKind.recompileSymbols ≤ .relinkOnly := by decide
      simp [lower]
    · simp
    · simp
  · rename_i oldEntry newEntry old new
    obtain ⟨oldBody, -, run⟩ := Except.bind_eq_ok.mp run
    obtain ⟨newBody, -, run⟩ := Except.bind_eq_ok.mp run
    -- a symbol of both roots: another signature, another definition or calls, or as it was
    split_ifs at run with interface implementation
    · obtain rfl := Except.pure_eq_ok.mp run
      have change : symbolChange table oldRootHash newRootHash oldRoot newRoot symbol =
          .signature := by
        simp only [symbolChange, old, new, if_pos interface]
      constructor <;> simp only [single, every, BringsIn, change, SymbolChange.kind]
      · exact fun k => le_raiseKind_iff
      · have higher : BuildImpactKind.recompileSymbols ≤ .recompileDependents := by decide
        intro a
        simp only [List.mem_append, List.mem_cons, higher, and_true, true_and]
        tauto
      · simp
      · simp
    · obtain rfl := Except.pure_eq_ok.mp run
      have change : symbolChange table oldRootHash newRootHash oldRoot newRoot symbol =
          .implementation := by
        simp only [symbolChange, old, new, if_neg interface, if_pos implementation]
      constructor <;> simp only [single, every, BringsIn, change, SymbolChange.kind]
      · exact fun k => le_raiseKind_iff
      · simp [or_comm]
      · simp
      · simp
    · obtain rfl := Except.pure_eq_ok.mp run
      have change : symbolChange table oldRootHash newRootHash oldRoot newRoot symbol =
          .same := by
        simp only [symbolChange, old, new, if_neg interface, if_neg implementation]
      constructor <;> simp only [single, every, BringsIn, change, SymbolChange.kind]
      · intro k
        have lowest : k ≤ .metadataOnly → k ≤ state.kind := fun low =>
          low.trans (by cases state.kind <;> decide)
        tauto
      · have lower : ¬ BuildImpactKind.recompileSymbols ≤ .metadataOnly := by decide
        simp [lower]
      · simp
      · simp
  · cases run

/-- Looking at some symbols in turn. -/
theorem collects_foldlM {symbols : List Hash}
    (run : symbols.foldlM (impactOfSymbol P objects table oldRootHash newRootHash oldRoot newRoot)
      state = .ok state') :
    Collects table oldRootHash newRootHash oldRoot newRoot symbols state state' := by
  induction symbols generalizing state with
  | nil =>
    obtain rfl := Except.pure_eq_ok.mp run
    constructor <;> simp
  | cons symbol symbols ih =>
    rw [List.foldlM_cons] at run
    obtain ⟨mid, first, rest⟩ := Except.bind_eq_ok.mp run
    have head := collects_impactOfSymbol first
    have tail := ih rest
    constructor
    · intro k
      rw [tail.kind, head.kind, or_assoc]
      simp
    · intro a
      rw [tail.recompiled, head.recompiled, or_assoc]
      simp
    · rw [tail.relinks, head.relinks, or_assoc]
      simp
    · rw [tail.unclassified, head.unclassified, and_assoc]
      simp

theorem mem_symbolsOfEither {symbol : Hash} : symbol ∈ symbolsOfEither oldRoot newRoot ↔
    (symbolMap oldRoot symbol).isSome ∨ (symbolMap newRoot symbol).isSome := by
  simp [symbolsOfEither, symbolMap]

theorem relinkOnly_le_kind {change : SymbolChange} :
    .relinkOnly ≤ change.kind ↔ change ≠ .same := by
  cases change <;> decide

theorem recompileSymbols_le_kind {change : SymbolChange} :
    .recompileSymbols ≤ change.kind ↔ change ≠ .same ∧ change ≠ .removed := by
  cases change <;> decide

theorem recompileDependents_le_kind {change : SymbolChange} :
    .recompileDependents ≤ change.kind ↔ change = .signature := by
  cases change <;> decide

/-- What holds of all symbols of either root, where nothing changed elsewhere. -/
theorem exists_mem_symbolsOfEither {p : SymbolChange → Prop} (same : ¬ p .same) :
    (∃ symbol ∈ symbolsOfEither oldRoot newRoot,
      p (symbolChange table oldRootHash newRootHash oldRoot newRoot symbol)) ↔
      ∃ symbol, p (symbolChange table oldRootHash newRootHash oldRoot newRoot symbol) := by
  refine ⟨fun ⟨symbol, _, holds⟩ => ⟨symbol, holds⟩, fun ⟨symbol, holds⟩ => ⟨symbol, ?_, holds⟩⟩
  -- a symbol of neither root is as it was
  by_contra other
  simp only [mem_symbolsOfEither, not_or, Bool.not_eq_true, Option.isSome_eq_false_iff,
    Option.isNone_iff_eq_none] at other
  rw [symbolChange, other.1, other.2] at holds
  exact same holds

theorem le_start_kind {k : BuildImpactKind} : k ≤ (ImpactState.start oldRoot newRoot).kind ↔
    k = .metadataOnly ∨ oldRoot.exports ≠ newRoot.exports ∧ k ≤ .relinkOnly ∨
      oldRoot.types ≠ newRoot.types := by
  have lowest : k ≤ .metadataOnly ↔ k = .metadataOnly := by cases k <;> decide
  have highest : k ≤ .fullRebuild := by cases k <;> decide
  unfold ImpactState.start
  by_cases exports : oldRoot.exports = newRoot.exports <;>
    by_cases types : oldRoot.types = newRoot.types <;>
    simp [le_raiseKind_iff, lowest, highest, exports, types]

theorem start_relink : (ImpactState.start oldRoot newRoot).relink = true ↔
    oldRoot.exports ≠ newRoot.exports ∨ oldRoot.types ≠ newRoot.types := by
  simp [ImpactState.start]

theorem start_reasons : (ImpactState.start oldRoot newRoot).reasons = [] ↔
    rootMetadataChanged oldRoot newRoot = false ∧ oldRoot.exports = newRoot.exports ∧
      oldRoot.types = newRoot.types := by
  unfold ImpactState.start
  split_ifs with metadata exports types types exports types types <;> simp_all

/-! ### The plan in terms of definitions -/

variable (P objects oldRoot newRoot)

/-- A symbol of both roots has another signature. -/
def SignatureChanged (symbol : Hash) : Prop :=
  ∃ oldEntry newEntry, symbolMap oldRoot symbol = some oldEntry ∧
    symbolMap newRoot symbol = some newEntry ∧ oldEntry.signature ≠ newEntry.signature

/-- A symbol of both roots is as it was, and calls what it called. -/
def Unchanged (symbol : Hash) : Prop :=
  ∃ oldEntry newEntry, symbolMap oldRoot symbol = some oldEntry ∧
    symbolMap newRoot symbol = some newEntry ∧ oldEntry.signature = newEntry.signature ∧
    oldEntry.definition = newEntry.definition ∧
    ∀ b, CallsIn P objects oldRoot symbol b ↔ CallsIn P objects newRoot symbol b

/-- Something calls for a kind of build. -/
def CallsFor : BuildImpactKind → Prop
  | .metadataOnly => True
  | .relinkOnly => oldRoot.exports ≠ newRoot.exports ∨
    ∃ symbol, (symbolMap oldRoot symbol).isSome ∧ symbolMap newRoot symbol = none
  | .recompileSymbols =>
    ∃ symbol, (symbolMap newRoot symbol).isSome ∧ ¬ Unchanged P objects oldRoot newRoot symbol
  | .recompileDependents => ∃ symbol, SignatureChanged oldRoot newRoot symbol
  | .fullRebuild => oldRoot.types ≠ newRoot.types ∨
    rootMetadataChanged oldRoot newRoot = false ∧ oldRoot.exports = newRoot.exports ∧
      ∀ symbol ∈ symbolsOfEither oldRoot newRoot, Unchanged P objects oldRoot newRoot symbol

/-- A function has to be compiled again: it is new or changed, a type changed, or it calls, in
the old root or in the new one, something whose signature changed. -/
def NeedsRecompile (symbol : Hash) : Prop :=
  (symbolMap newRoot symbol).isSome ∧ (oldRoot.types ≠ newRoot.types ∨
    ¬ Unchanged P objects oldRoot newRoot symbol ∨
    ∃ callee, SignatureChanged oldRoot newRoot callee ∧
      (TransGen (CallsIn P objects oldRoot) symbol callee ∨
        TransGen (CallsIn P objects newRoot) symbol callee))

variable {P objects oldRoot newRoot}

theorem symbolChange_eq_signature {symbol : Hash} :
    symbolChange table oldRootHash newRootHash oldRoot newRoot symbol = .signature ↔
      SignatureChanged oldRoot newRoot symbol := by
  unfold symbolChange SignatureChanged
  cases symbolMap oldRoot symbol <;> cases symbolMap newRoot symbol
  all_goals simp
  rename_i oldEntry newEntry
  split_ifs <;> simp_all

section Exact

variable (oldExact : table.Exact P objects oldRootHash oldRoot)
  (newExact : table.Exact P objects newRootHash newRoot)
include oldExact newExact

/-- With exact rows, what the table says about the calls of a symbol is what its definitions
say. -/
theorem dependenciesForSymbol_eq_iff (symbol : Hash) :
    sortedSet (table.dependenciesForSymbol oldRootHash symbol) =
        sortedSet (table.dependenciesForSymbol newRootHash symbol) ↔
      ∀ b, CallsIn P objects oldRoot symbol b ↔ CallsIn P objects newRoot symbol b := by
  have mem : ∀ b, (b ∈ table.dependenciesForSymbol oldRootHash symbol ↔
      CallsIn P objects oldRoot symbol b) ∧ (b ∈ table.dependenciesForSymbol newRootHash symbol ↔
      CallsIn P objects newRoot symbol b) := by
    intro b
    rw [DependencyTable.mem_dependenciesForSymbol, DependencyTable.mem_dependenciesForSymbol]
    exact ⟨oldExact.rows symbol b, newExact.rows symbol b⟩
  constructor
  · intro same b
    rw [← (mem b).1, ← (mem b).2, ← mem_sortedSet, same, mem_sortedSet]
  · intro same
    exact sortedSet_eq_of_mem_iff fun b => by rw [(mem b).1, (mem b).2, same]

theorem unchanged_iff {symbol : Hash} : Unchanged P objects oldRoot newRoot symbol ↔
    (symbolMap oldRoot symbol).isSome ∧ (symbolMap newRoot symbol).isSome ∧
      symbolChange table oldRootHash newRootHash oldRoot newRoot symbol = .same := by
  have calls := dependenciesForSymbol_eq_iff oldExact newExact symbol
  unfold Unchanged symbolChange
  cases symbolMap oldRoot symbol <;> cases symbolMap newRoot symbol
  all_goals simp only [Option.isSome_none, Option.isSome_some, reduceCtorEq, false_and, and_false,
    exists_false, true_and, Bool.false_eq_true]
  rename_i oldEntry newEntry
  simp only [Option.some.injEq, ne_eq, exists_and_left, exists_eq_left']
  by_cases interface : oldEntry.signature = newEntry.signature
  · by_cases definition : oldEntry.definition = newEntry.definition
    · simp [interface, definition, ← calls]
    · simp [interface, definition]
  · simp [interface]

/-- A symbol of the new root changed, and was not removed, exactly if it is not as it was. -/
theorem changed_iff {symbol : Hash} :
    (symbolChange table oldRootHash newRootHash oldRoot newRoot symbol ≠ .same ∧
      symbolChange table oldRootHash newRootHash oldRoot newRoot symbol ≠ .removed) ↔
      (symbolMap newRoot symbol).isSome ∧ ¬ Unchanged P objects oldRoot newRoot symbol := by
  rw [unchanged_iff oldExact newExact]
  unfold symbolChange
  cases symbolMap oldRoot symbol <;> cases symbolMap newRoot symbol
  all_goals simp
  rename_i oldEntry newEntry
  split_ifs <;> simp

/-- The symbols of the new root that depend on a symbol are those that call it in any number of
steps. -/
theorem mem_dependentsForSignatureChange {symbol other : Hash} :
    other ∈ dependentsForSignatureChange table oldRootHash newRootHash newRoot symbol true ↔
      (symbolMap newRoot other).isSome ∧ (TransGen (CallsIn P objects oldRoot) other symbol ∨
        TransGen (CallsIn P objects newRoot) other symbol) := by
  rw [← oldExact.directlyDependsOn_eq, ← newExact.directlyDependsOn_eq]
  simp only [dependentsForSignatureChange, if_true, mem_sortedSet, List.mem_filter,
    List.mem_flatMap, List.mem_cons, List.not_mem_nil, or_false, exists_eq_or_imp,
    exists_eq_left, DependencyTable.mem_transitiveDependentsForSymbol, DependencyTable.DependsOn]
  exact and_comm

/-- What is compiled again for the sake of some symbol. -/
theorem exists_bringsIn {a : Hash} : (∃ symbol ∈ symbolsOfEither oldRoot newRoot,
      BringsIn table oldRootHash newRootHash oldRoot newRoot symbol a) ↔
    (symbolMap newRoot a).isSome ∧ (¬ Unchanged P objects oldRoot newRoot a ∨
      ∃ callee, SignatureChanged oldRoot newRoot callee ∧
        (TransGen (CallsIn P objects oldRoot) a callee ∨
          TransGen (CallsIn P objects newRoot) a callee)) := by
  constructor
  -- a symbol is compiled for its own sake, or for that of one it depends on
  · rintro ⟨symbol, -, ⟨rfl, changed⟩ | ⟨changed, dependent⟩⟩
    · obtain ⟨listed, differs⟩ :=
        (changed_iff oldExact newExact).mp (recompileSymbols_le_kind.mp changed)
      exact ⟨listed, Or.inl differs⟩
    · obtain ⟨listed, calls⟩ := (mem_dependentsForSignatureChange oldExact newExact).mp dependent
      exact ⟨listed, Or.inr ⟨symbol, symbolChange_eq_signature.mp changed, calls⟩⟩
  · rintro ⟨listed, differs | ⟨callee, changed, calls⟩⟩
    · refine ⟨a, mem_symbolsOfEither.mpr (Or.inr listed), Or.inl ⟨rfl, ?_⟩⟩
      exact recompileSymbols_le_kind.mpr ((changed_iff oldExact newExact).mpr ⟨listed, differs⟩)
    -- the signature changed between the roots, so both have the callee
    · have both : (symbolMap oldRoot callee).isSome := by
        obtain ⟨oldEntry, -, old, -⟩ := changed
        rw [old]
        rfl
      refine ⟨callee, mem_symbolsOfEither.mpr (Or.inl both), Or.inr ⟨?_, ?_⟩⟩
      · exact symbolChange_eq_signature.mpr changed
      · exact (mem_dependentsForSignatureChange oldExact newExact).mpr ⟨listed, calls⟩

variable (collects : Collects table oldRootHash newRootHash oldRoot newRoot
  (symbolsOfEither oldRoot newRoot) (.start oldRoot newRoot) state)
include collects

/-- What is compiled again. -/
theorem mem_recompileSymbols {a : Hash} :
    a ∈ ((state.withTypes oldRoot newRoot).classified).toImpact.recompileSymbols ↔
      NeedsRecompile P objects oldRoot newRoot a := by
  have classified : ∀ state : ImpactState,
      state.classified.recompileSymbols = state.recompileSymbols := by
    intro state
    unfold ImpactState.classified
    split_ifs <;> rfl
  have listed : a ∈ newRoot.symbols.map (·.symbol) ↔ (symbolMap newRoot a).isSome := by
    simp [symbolMap]
  -- where a type changed all symbols of the new root are added to what was collected
  have collected := collects.recompiled a
  rw [exists_bringsIn oldExact newExact] at collected
  rw [ImpactState.toImpact, mem_sortedSet, classified, ImpactState.withTypes, NeedsRecompile]
  split_ifs with types
  · rw [List.mem_append, collected, listed]
    simp only [ImpactState.start, List.not_mem_nil, false_or, types, not_false_eq_true, ne_eq,
      true_or, and_true]
    tauto
  · rw [collected]
    simp [ImpactState.start, not_not.mp types]

omit oldExact newExact in
/-- The kind is raised by what changed outside the symbols, by the symbols, and where nothing was
found at all. -/
theorem le_kind_iff {k : BuildImpactKind} :
    k ≤ ((state.withTypes oldRoot newRoot).classified).toImpact.kind ↔
      k ≤ (ImpactState.start oldRoot newRoot).kind ∨
        (∃ symbol ∈ symbolsOfEither oldRoot newRoot,
          k ≤ (symbolChange table oldRootHash newRootHash oldRoot newRoot symbol).kind) ∨
        state.reasons = [] := by
  have kept : (state.withTypes oldRoot newRoot).kind = state.kind ∧
      (state.withTypes oldRoot newRoot).reasons = state.reasons := by
    unfold ImpactState.withTypes
    split_ifs <;> exact ⟨rfl, rfl⟩
  have highest : k ≤ .fullRebuild := by cases k <;> decide
  rw [← or_assoc, ← collects.kind, ← kept.1, ← kept.2]
  unfold ImpactState.classified
  split_ifs with none
  · simp [ImpactState.toImpact, le_raiseKind_iff, highest, none]
  · simp [ImpactState.toImpact, none]

/-- Nothing was found exactly if nothing changed that is looked at. -/
theorem reasons_eq_nil_iff : state.reasons = [] ↔
    rootMetadataChanged oldRoot newRoot = false ∧ oldRoot.exports = newRoot.exports ∧
      oldRoot.types = newRoot.types ∧
      ∀ symbol ∈ symbolsOfEither oldRoot newRoot, Unchanged P objects oldRoot newRoot symbol := by
  rw [collects.unclassified, start_reasons, and_assoc, and_assoc]
  refine and_congr_right fun _ => and_congr_right fun _ => and_congr_right fun _ =>
    forall₂_congr fun symbol mem => ?_
  rw [unchanged_iff oldExact newExact]
  constructor
  · intro same
    rw [mem_symbolsOfEither] at mem
    revert mem same
    unfold symbolChange
    cases symbolMap oldRoot symbol <;> cases symbolMap newRoot symbol <;> simp_all
  · exact fun same => same.2.2

omit collects in
/-- What became of a symbol calls for its kind of build. -/
theorem callsFor_kind (symbol : Hash) : CallsFor P objects oldRoot newRoot
    (symbolChange table oldRootHash newRootHash oldRoot newRoot symbol).kind := by
  cases change : symbolChange table oldRootHash newRootHash oldRoot newRoot symbol with
  | same => exact trivial
  | removed =>
    refine Or.inr ⟨symbol, ?_⟩
    revert change
    unfold symbolChange
    cases symbolMap oldRoot symbol <;> cases symbolMap newRoot symbol
    all_goals simp
    split_ifs <;> simp
  | added | implementation =>
    exact ⟨symbol, (changed_iff oldExact newExact).mp (by simp [change])⟩
  | signature => exact ⟨symbol, symbolChange_eq_signature.mp change⟩

/-- The kind of the plan is the highest that something calls for. -/
theorem isGreatest_kind : IsGreatest {k | CallsFor P objects oldRoot newRoot k}
    ((state.withTypes oldRoot newRoot).classified).toImpact.kind := by
  -- whatever calls for a kind has raised the plan to it
  have upper : ∀ k, CallsFor P objects oldRoot newRoot k →
      k ≤ ((state.withTypes oldRoot newRoot).classified).toImpact.kind := by
    intro k calls
    rw [le_kind_iff collects, le_start_kind, reasons_eq_nil_iff oldExact newExact collects]
    cases k with
    | metadataOnly => exact Or.inl (Or.inl rfl)
    | relinkOnly =>
      rcases calls with exports | ⟨symbol, old, new⟩
      · exact Or.inl (Or.inr (Or.inl ⟨exports, le_refl _⟩))
      · refine Or.inr (Or.inl ⟨symbol, mem_symbolsOfEither.mpr (Or.inl old), ?_⟩)
        obtain ⟨entry, found⟩ := Option.isSome_iff_exists.mp old
        simp [symbolChange, found, new, SymbolChange.kind]
    | recompileSymbols =>
      obtain ⟨symbol, new, differs⟩ := calls
      refine Or.inr (Or.inl ⟨symbol, mem_symbolsOfEither.mpr (Or.inr new), ?_⟩)
      exact recompileSymbols_le_kind.mpr ((changed_iff oldExact newExact).mpr ⟨new, differs⟩)
    | recompileDependents =>
      obtain ⟨symbol, changed⟩ := calls
      refine Or.inr (Or.inl ((exists_mem_symbolsOfEither
        (p := fun change => .recompileDependents ≤ change.kind) (by decide)).mpr ⟨symbol, ?_⟩))
      exact recompileDependents_le_kind.mpr (symbolChange_eq_signature.mpr changed)
    | fullRebuild =>
      rcases calls with types | ⟨metadata, exports, all⟩
      · exact Or.inl (Or.inr (Or.inr types))
      -- nothing was found: unless it is a type after all, the plan falls back to a full build
      · by_cases types : oldRoot.types = newRoot.types
        · exact Or.inr (Or.inr ⟨metadata, exports, types, all⟩)
        · exact Or.inl (Or.inr (Or.inr types))
  refine ⟨?_, upper⟩
  -- what raised the kind to where it is calls for it
  have found : ∃ k, CallsFor P objects oldRoot newRoot k ∧
      ((state.withTypes oldRoot newRoot).classified).toImpact.kind ≤ k := by
    rcases (le_kind_iff collects).mp (le_refl _) with start | ⟨symbol, -, raised⟩ | none
    · rcases le_start_kind.mp start with lowest | ⟨exports, low⟩ | types
      · exact ⟨.metadataOnly, trivial, lowest.le⟩
      · exact ⟨.relinkOnly, Or.inl exports, low⟩
      · refine ⟨.fullRebuild, Or.inl types, ?_⟩
        generalize ((state.withTypes oldRoot newRoot).classified).toImpact.kind = k
        cases k <;> decide
    · exact ⟨_, callsFor_kind oldExact newExact symbol, raised⟩
    · obtain ⟨metadata, exports, -, all⟩ :=
        (reasons_eq_nil_iff oldExact newExact collects).mp none
      refine ⟨.fullRebuild, Or.inr ⟨metadata, exports, all⟩, ?_⟩
      generalize ((state.withTypes oldRoot newRoot).classified).toImpact.kind = k
      cases k <;> decide
  obtain ⟨k, calls, le⟩ := found
  exact le_antisymm le (upper k calls) ▸ calls

omit oldExact newExact in
/-- A plan links again unless all that changed is metadata. -/
theorem relink_iff :
    ((state.withTypes oldRoot newRoot).classified).toImpact.relink = true ↔
      ((state.withTypes oldRoot newRoot).classified).toImpact.kind ≠ .metadataOnly := by
  have kept : (state.withTypes oldRoot newRoot).relink = state.relink ∧
      (state.withTypes oldRoot newRoot).reasons = state.reasons := by
    unfold ImpactState.withTypes
    split_ifs <;> exact ⟨rfl, rfl⟩
  have relinks : ((state.withTypes oldRoot newRoot).classified).toImpact.relink = true ↔
      state.relink = true ∨ state.reasons = [] := by
    rw [← kept.1, ← kept.2]
    unfold ImpactState.classified
    split_ifs with none
    · simp [ImpactState.toImpact, none]
    · simp [ImpactState.toImpact, none]
  have above : ∀ k : BuildImpactKind, k ≠ .metadataOnly ↔ .relinkOnly ≤ k := by
    intro k
    cases k <;> decide
  rw [above, le_kind_iff collects, le_start_kind, relinks, collects.relinks, start_relink,
    or_assoc]
  simp [relinkOnly_le_kind]

end Exact

end Changes

/-! ### The plan -/

/-- Between two indexed roots of any run, the plan compiles again exactly the functions of the new
root that are new or changed, or call something whose signature changed, or all of them where a
type changed. The kind of the build is the highest that something calls for, and the program is
linked again unless only metadata changed. -/
theorem planBuildImpact_exact {P : Primitives} {objects : Objects} {table : DependencyTable}
    {indexed : Set Hash} (run : IndexRun P objects table indexed) {oldRootHash newRootHash : Hash}
    (old : oldRootHash ∈ indexed) (new : newRootHash ∈ indexed) (differ : oldRootHash ≠ newRootHash)
    {impact : BuildImpact}
    (planned : planBuildImpact P objects table oldRootHash newRootHash = .ok impact) :
    ∃ oldRoot newRoot, loadRoot P objects oldRootHash = .ok oldRoot ∧
      loadRoot P objects newRootHash = .ok newRoot ∧
      (∀ a, a ∈ impact.recompileSymbols ↔ NeedsRecompile P objects oldRoot newRoot a) ∧
      IsGreatest {k | CallsFor P objects oldRoot newRoot k} impact.kind ∧
      (impact.relink = true ↔ impact.kind ≠ .metadataOnly) := by
  obtain ⟨oldRoot, oldExact⟩ := (run.rows oldRootHash).1 old
  obtain ⟨newRoot, newExact⟩ := (run.rows newRootHash).1 new
  refine ⟨oldRoot, newRoot, oldExact.loaded, newExact.loaded, ?_⟩
  rw [planBuildImpact, if_neg differ] at planned
  obtain ⟨root, loaded, planned⟩ := Except.bind_eq_ok.mp planned
  obtain rfl := Except.ok.inj (oldExact.loaded.symm.trans loaded)
  obtain ⟨root, loaded, planned⟩ := Except.bind_eq_ok.mp planned
  obtain rfl := Except.ok.inj (newExact.loaded.symm.trans loaded)
  obtain ⟨state, looked, result⟩ := Except.bind_eq_ok.mp planned
  obtain rfl := Except.pure_eq_ok.mp result
  have collects := collects_foldlM looked
  exact ⟨fun a => mem_recompileSymbols oldExact newExact collects,
    isGreatest_kind oldExact newExact collects, relink_iff collects⟩

/-! ### From the empty root to one with a function -/

def emptyProgramHash : Hash := objectHash plain "ProgramRoot" (rootToValue .empty)

/-- The store with the function, and the empty root. -/
@[irreducible] def grownObjects : Objects :=
  (putObject plain loopObjects "ProgramRoot" (rootToValue .empty)).2

theorem grows_loopObjects : Grows plain loopObjects grownObjects := by
  unfold grownObjects
  exact grows_putObject _ _ _

theorem loadRoot_emptyProgram : loadRoot plain grownObjects emptyProgramHash = .ok .empty := by
  have empty : Addressed plain ∅ := fun hash _ found =>
    nomatch (AList.lookup_empty hash).symm.trans found
  have addressed : Addressed plain loopObjects := by
    unfold loopObjects
    exact (grows_putAll _ _).addressed empty
  have stored : Stored plain grownObjects "ProgramRoot" (rootToValue .empty) := by
    unfold grownObjects
    exact Stored.put plain_reliable addressed
  rw [emptyProgramHash, stored.loadRoot nofun, normalizeRoot_empty]

theorem emptyProgramHash_ne : emptyProgramHash ≠ loopRootHash := by
  intro same
  have before : Fixed plain.floatText (rootToValue .empty) := fixed_rootToValue nofun
  have after : Fixed plain.floatText (rootToValue loopRoot) := fixed_rootToValue nofun
  have values := objectHash_value_inj before after same
  have roots := (rootFromValue_rootToValue .empty).symm.trans
    ((congrArg rootFromValue values).trans (rootFromValue_rootToValue loopRoot))
  exact List.cons_ne_nil _ _ (congrArg ProgramRootPayload.symbols (Except.ok.inj roots)).symm

/-- Both roots are indexed. -/
theorem indexRun_grownObjects : ∃ table,
    IndexRun plain grownObjects table (insert emptyProgramHash {loopRootHash}) := by
  have run := (IndexRun.start loopObjects).index indexRoot_loopRoot
  rw [insert_empty_eq] at run
  have step : loopTable.indexRoot plain grownObjects emptyProgramHash =
      .ok (loopTable.deleteRoot emptyProgramHash) :=
    Except.bind_eq_ok.mpr ⟨_, loadRoot_emptyProgram, rfl⟩
  exact ⟨_, (run.store grows_loopObjects).index step⟩

theorem symbolMap_loop : symbolMap .empty loop = none ∧
    symbolMap loopRoot loop = some loopEntry := by
  constructor
  · rfl
  · simp [symbolMap, loopRoot, loopEntry, functionEntry]

/-- A plan for adding the function. -/
theorem planBuildImpact_loop (table : DependencyTable) : ∃ impact,
    planBuildImpact plain grownObjects table emptyProgramHash loopRootHash = .ok impact := by
  have either : symbolsOfEither .empty loopRoot = [loop] := by
    simp [symbolsOfEither, sortedSet, sortOn, ProgramRootPayload.empty, loopRoot, loopEntry,
      functionEntry]
  have looked : ∃ state, impactOfSymbol plain grownObjects table emptyProgramHash loopRootHash
      .empty loopRoot (.start .empty loopRoot) loop = .ok state := by
    rw [impactOfSymbol, symbolMap_loop.1, symbolMap_loop.2]
    exact ⟨_, rfl⟩
  obtain ⟨state, looked⟩ := looked
  have all : (symbolsOfEither .empty loopRoot).foldlM
      (impactOfSymbol plain grownObjects table emptyProgramHash loopRootHash .empty loopRoot)
      (.start .empty loopRoot) = .ok state := by
    rw [either, List.foldlM_cons]
    exact Except.bind_eq_ok.mpr ⟨_, looked, rfl⟩
  have loaded := grows_loopObjects.loadRoot loadRoot_loopRoot
  refine ⟨((state.withTypes .empty loopRoot).classified).toImpact, ?_⟩
  rw [planBuildImpact, if_neg emptyProgramHash_ne]
  exact Except.bind_eq_ok.mpr ⟨_, loadRoot_emptyProgram, Except.bind_eq_ok.mpr ⟨_, loaded,
    Except.bind_eq_ok.mpr ⟨_, all, rfl⟩⟩⟩

/-- A function that was added is compiled. -/
theorem planBuildImpact_exact_loop : ∃ table impact,
    planBuildImpact plain grownObjects table emptyProgramHash loopRootHash = .ok impact ∧
      loop ∈ impact.recompileSymbols := by
  obtain ⟨table, run⟩ := indexRun_grownObjects
  obtain ⟨impact, planned⟩ := planBuildImpact_loop table
  obtain ⟨oldRoot, newRoot, old, new, recompiled, -⟩ := planBuildImpact_exact run
    (Set.mem_insert _ _) (Set.mem_insert_of_mem _ (Set.mem_singleton _)) emptyProgramHash_ne planned
  obtain rfl := Except.ok.inj (loadRoot_emptyProgram.symm.trans old)
  obtain rfl := Except.ok.inj ((grows_loopObjects.loadRoot loadRoot_loopRoot).symm.trans new)
  refine ⟨table, impact, planned, (recompiled loop).mpr ⟨?_, Or.inr (Or.inl ?_)⟩⟩
  · rw [symbolMap_loop.2]
    rfl
  · rintro ⟨oldEntry, newEntry, found, -⟩
    exact nomatch symbolMap_loop.1.symm.trans found

end CodeDb

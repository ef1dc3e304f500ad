import CodeDb.History.Apply
import CodeDb.Merge.MergeRoot
import Mathlib.Data.Finset.Card

/-!
# Planning and applying a merge

A merge of two branches looks for a root both of their histories went through,
merges the three roots, and checks the merged one. Applying the plan records one
operation that carries the merged root and the objects it needs.

## Main definitions

* `branchHistoryPoints`, `commonAncestor` — the base of a merge
* `collectMergeObjectPayloads` — the objects a merge brings along
* `planConservativeMerge`, `mergeApplyBranchesInTx`
-/

namespace CodeDb

open SortOn

/-! ### The common ancestor -/

/-- A root a branch went through: how many migrations it had behind it, and the
history point that outputs it. -/
structure HistoryPoint where
  sequence : Nat
  rootHash : Hash
  historyHash : Option Hash
  deriving DecidableEq

/-- The roots a branch went through, oldest first. -/
def branchHistoryPoints (chain : List Db.HistoryItem) (state : BranchState) : List HistoryPoint :=
  match chain with
  | [] => [⟨0, state.rootHash, state.historyHash⟩]
  | first :: _ =>
    ⟨0, first.inputRoot, none⟩ ::
      chain.mapIdx fun idx item => ⟨idx + 1, item.outputRoot, some item.historyHash⟩

structure CommonAncestor where
  rootHash : Hash
  historyHash : Option Hash
  targetUniqueMigrationCount : Nat
  sourceUniqueMigrationCount : Nat
  deriving DecidableEq

/-- A pair of points as a common ancestor. -/
def ancestorAt (targetPoints sourcePoints : List HistoryPoint) (t s : HistoryPoint) :
    CommonAncestor where
  rootHash := t.rootHash
  historyHash := if t.historyHash = s.historyHash then t.historyHash
    else t.historyHash.or s.historyHash
  targetUniqueMigrationCount := targetPoints.length - (1 + t.sequence)
  sourceUniqueMigrationCount := sourcePoints.length - (1 + s.sequence)

/-- Keep the better of two pairs of points: a pair counts if its roots agree, and
is better if more migrations lie behind it. -/
def betterPair (best : Option (HistoryPoint × HistoryPoint)) (pair : HistoryPoint × HistoryPoint) :
    Option (HistoryPoint × HistoryPoint) :=
  if pair.1.rootHash ≠ pair.2.rootHash then best
  else
    match best with
    | none => some pair
    | some (t, s) =>
      if pair.1.sequence + pair.2.sequence > t.sequence + s.sequence then some pair else best

/-- The pair of points of equal root with the most migrations behind it, the
first of them where there are several. -/
def bestPair (targetPoints sourcePoints : List HistoryPoint) :
    Option (HistoryPoint × HistoryPoint) :=
  (targetPoints.flatMap fun t => sourcePoints.map fun s => (t, s)).foldl betterPair none

/-- The root two branches are merged over. -/
def commonAncestor (E : Engine) (db : Db) (targetBranch sourceBranch : String) :
    Except Error (Option CommonAncestor) := do
  let targetState ← db.branch targetBranch
  let sourceState ← db.branch sourceBranch
  let targetChain ← db.historyChain E.readOperation db.walkBound targetBranch
  let targetPoints := branchHistoryPoints targetChain targetState
  let sourceChain ← db.historyChain E.readOperation db.walkBound sourceBranch
  let sourcePoints := branchHistoryPoints sourceChain sourceState
  return (bestPair targetPoints sourcePoints).map fun pair =>
    ancestorAt targetPoints sourcePoints pair.1 pair.2

/-! ### The objects of a merge -/

mutual

/-- The hashes a value mentions, in order. -/
def extractHashStrings : JsonValue → List Hash
  | .string s => if "sha256:".toList.isPrefixOf s.toList then [s] else []
  | .array values => extractFromList values
  | .object entries => extractFromEntries entries
  | _ => []

def extractFromList : List JsonValue → List Hash
  | [] => []
  | v :: values => extractHashStrings v ++ extractFromList values

def extractFromEntries : List (String × JsonValue) → List Hash
  | [] => []
  | (_, v) :: entries => extractHashStrings v ++ extractFromEntries entries

end

/-- The objects reached from a stack of hashes, its top first. -/
def collectFrom (P : Primitives) (objects : Objects) :
    List Hash → List Hash → Except Error (List MergeObjectPayload)
  | [], _ => .ok []
  | hash :: stack, seen =>
    if hash ∈ seen then collectFrom P objects stack seen
    else
      match _found : objects.lookup hash with
      | none => collectFrom P objects stack (hash :: seen)
      | some object => do
        let payload ← P.parseJson object.payloadJson
        let rest ← collectFrom P objects ((extractHashStrings payload).reverse ++ stack)
          (hash :: seen)
        return ⟨hash, object.kind, payload⟩ :: rest
termination_by stack seen => ((objects.keys.toFinset \ seen.toFinset).card, stack.length)
decreasing_by
  · exact Prod.Lex.right _ (by simp)
  · -- no object: the same objects are left, and the stack is shorter
    have absent : hash ∉ objects.keys.toFinset := by
      simpa using fun mem => AList.lookup_eq_none.mp _found (AList.mem_keys.mpr mem)
    have same : objects.keys.toFinset \ (hash :: seen).toFinset =
        objects.keys.toFinset \ seen.toFinset := by
      rw [List.toFinset_cons, Finset.sdiff_insert, Finset.erase_eq_of_notMem]
      exact fun mem => absent (Finset.mem_sdiff.mp mem).1
    rw [same]
    exact Prod.Lex.right _ (by simp)
  · -- an object met for the first time: one object fewer is left
    rename_i fresh
    have present : hash ∈ objects.keys.toFinset := by
      have : hash ∈ objects := AList.lookup_isSome.mp (by simp [_found])
      simpa using AList.mem_keys.mp this
    refine Prod.Lex.left _ _ ?_
    rw [List.toFinset_cons, Finset.sdiff_insert]
    exact Finset.card_erase_lt_of_mem (Finset.mem_sdiff.mpr ⟨present, by simpa using fresh⟩)

/-- The objects reached from a root and a merged payload, in order of hash. -/
def collectMergeObjectPayloads (P : Primitives) (objects : Objects) (sourceRootHash : Hash)
    (mergedRootPayload : JsonValue) : Except Error (List MergeObjectPayload) := do
  let collected ← collectFrom P objects
    ((extractHashStrings mergedRootPayload).reverse ++ [sourceRootHash]) []
  return sortOn (·.hash) collected

/-! ### Plans -/

/-- The symbols whose state differs between two roots. -/
def changedSymbolsBetween (oldRoot newRoot : ProgramRootPayload) : List Hash :=
  sortedSet ((rootSymbols oldRoot ++ rootSymbols newRoot).filter fun symbol =>
    symbolState oldRoot symbol ≠ symbolState newRoot symbol)

structure MergePlan where
  targetBranch : String
  sourceBranch : String
  ancestorRootHash : Hash
  ancestorHistoryHash : Option Hash
  targetRootHash : Hash
  targetHistoryHash : Option Hash
  sourceRootHash : Hash
  sourceHistoryHash : Option Hash
  mergedRootHash : Hash
  mergedRoot : ProgramRootPayload
  objectPayloads : List MergeObjectPayload
  targetChangedSymbols : List Hash
  sourceChangedSymbols : List Hash
  targetUniqueMigrationCount : Nat
  sourceUniqueMigrationCount : Nat
  buildImpact : JsonValue

/-- What came of planning a merge. -/
inductive MergePlanOutcome where
  | mergeable (plan : MergePlan)
  | conflict (conflict : MergeConflict)

/-- The operation that records a planned merge. -/
def MergePlan.toOperation (plan : MergePlan) : MergeBranch where
  targetBranch := plan.targetBranch
  sourceBranch := plan.sourceBranch
  ancestorRootHash := plan.ancestorRootHash
  ancestorHistoryHash := plan.ancestorHistoryHash
  sourceRootHash := plan.sourceRootHash
  sourceHistoryHash := plan.sourceHistoryHash
  mergedRoot := plan.mergedRoot
  objectPayloads := plan.objectPayloads

/-- The conflict of branches without a common ancestor. -/
def noAncestorConflict (targetBranch sourceBranch : String) (target source : BranchState) :
    MergeConflict where
  kind := "dependency_conflict"
  message := "branches do not share a replayable semantic ancestor"
  symbols := []
  details := .object
    [("source_branch", .string sourceBranch), ("source_root_hash", .string source.rootHash),
      ("target_branch", .string targetBranch), ("target_root_hash", .string target.rootHash)]

/-- The conflict of branches whose merged root does not check. -/
def invalidMergeConflict (targetBranch sourceBranch : String) (target source : BranchState)
    (mergedRootHash : Hash) (changed : List Hash) (error : Error) : MergeConflict where
  kind := "dependency_conflict"
  message := "merged root failed semantic validation"
  symbols := changed
  details := .object
    [("error", .string error), ("merged_root_hash", .string mergedRootHash),
      ("source_branch", .string sourceBranch), ("source_root_hash", .string source.rootHash),
      ("target_branch", .string targetBranch), ("target_root_hash", .string target.rootHash)]

variable (P : Primitives) (E : Engine)

/-- Index and type-check a root. -/
def checkRoot (objects : Objects) (rootHash : Hash) : Except Error Objects := do
  let objects ← E.indexRoot objects rootHash
  E.typeCheckRoot objects rootHash
  return objects

/-- Plan the merge of one branch into another. Planning may store objects. -/
def planConservativeMerge (db : Db) (targetBranch sourceBranch : String) :
    Except Error (MergePlanOutcome × Db) := do
  let target ← db.branch targetBranch
  let source ← db.branch sourceBranch
  match ← commonAncestor E db targetBranch sourceBranch with
  | none => return (.conflict (noAncestorConflict targetBranch sourceBranch target source), db)
  | some ancestor =>
    let ancestorRoot ← loadRoot P db.objects ancestor.rootHash
    let targetRoot ← loadRoot P db.objects target.rootHash
    let sourceRoot ← loadRoot P db.objects source.rootHash
    let targetChanged := changedSymbolsBetween ancestorRoot targetRoot
    let sourceChanged := changedSymbolsBetween ancestorRoot sourceRoot
    match mergeRootPayloads ancestorRoot targetRoot sourceRoot with
    | .error conflict => return (.conflict conflict, db)
    | .ok merged =>
      let mergedRoot := normalizeRoot merged
      let payloads ← collectMergeObjectPayloads P db.objects source.rootHash
        (rootToValue mergedRoot)
      let (mergedRootHash, objects) ← putProgramRoot P db.objects mergedRoot
      match checkRoot E objects mergedRootHash with
      | .error error =>
        return (.conflict (invalidMergeConflict targetBranch sourceBranch target source
          mergedRootHash (sortedSet (targetChanged ++ sourceChanged)) error),
          { db with objects := objects })
      | .ok objects =>
        let buildImpact ← E.diffRoots objects target.rootHash mergedRootHash
        return (.mergeable
          { targetBranch := targetBranch
            sourceBranch := sourceBranch
            ancestorRootHash := ancestor.rootHash
            ancestorHistoryHash := ancestor.historyHash
            targetRootHash := target.rootHash
            targetHistoryHash := target.historyHash
            sourceRootHash := source.rootHash
            sourceHistoryHash := source.historyHash
            mergedRootHash := mergedRootHash
            mergedRoot := mergedRoot
            objectPayloads := payloads
            targetChangedSymbols := targetChanged
            sourceChangedSymbols := sourceChanged
            targetUniqueMigrationCount := ancestor.targetUniqueMigrationCount
            sourceUniqueMigrationCount := ancestor.sourceUniqueMigrationCount
            buildImpact := buildImpact }, { db with objects := objects })

/-- What came of applying a merge. -/
inductive MergeApplyOutcome where
  | staleRoot (current : BranchState)
  | conflict (conflict : MergeConflict)
  | recorded (plan : MergePlan) (outcome : MigrationOutcome E)

/-- Merge one branch into another that is expected at a root. The flag tells
whether the transaction is to be committed. -/
def mergeApplyBranchesInTx (db : Db) (targetBranch sourceBranch : String) (expectedRoot : Hash) :
    Except Error (MergeApplyOutcome E × Bool × Db) := do
  let currentTarget ← db.branch targetBranch
  if currentTarget.rootHash ≠ expectedRoot then return (.staleRoot currentTarget, false, db)
  else do
    let (planned, db) ← planConservativeMerge P E db targetBranch sourceBranch
    match planned with
    | .conflict conflict => return (.conflict conflict, false, db)
    | .mergeable plan =>
      let (outcome, shouldCommit, db) ← db.applyAndRecordOnBranch P E targetBranch expectedRoot
        (E.mergeBranch plan.toOperation) none
      return (.recorded plan outcome, shouldCommit, db)

end CodeDb

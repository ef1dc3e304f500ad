import CodeDb.Merge.Plan

/-!
# Requests

The requests that move branches, each a transaction on the database: committed
whole, or rolled back. Transactions run one after the other, so an interleaving of
clients is a sequence of requests. What a client read before its transaction, such
as the state of the branch it starts a new one from, is part of its request and
may be out of date.

## Main definitions

* `Request`, `perform` — a request and what it does
* `Reachable` — the databases reached from a fresh one
-/

namespace CodeDb

variable (P : Primitives) (E : Engine)

/-- A request of a client. -/
inductive Request where
  /-- Make sure the main branch is there. -/
  | ensureInitialized
  /-- Apply one operation to a branch expected at a root. -/
  | apply (branch : String) (expectedRoot : Hash) (op : E.Operation) (agent : Option JsonValue)
  /-- Apply a batch, which may expect the branch at a root. -/
  | applyBatch (branch : String) (expectRoot : Option Hash) (operations : List E.ApiOperation)
    (agent : Option JsonValue)
  | mergeApply (targetBranch sourceBranch : String) (expectedRoot : Hash)
  | createBranch (name : String) (source : BranchState)
  | fastForward (target : String) (expectedRoot : Hash) (source : BranchState)
  | deleteBranch (name : String) (expectedRoot : Option Hash)

/-- The end of a transaction that says whether to commit. -/
def finishFlagged {α : Type} (db : Db) : Except Error (α × Bool × Db) → Db
  | .ok (_, true, after) => after
  | .ok (_, false, _) => db
  | .error _ => db

/-- The end of a transaction that commits unless it fails. -/
def finishImmediate {α : Type} (db : Db) : Except Error (α × Db) → Db
  | .ok (_, after) => after
  | .error _ => db

/-- Make sure the builtin types, the empty root and the main branch are there. -/
def Db.ensureInitialized (db : Db) : Except Error (Hash × Db) := do
  let objects := E.insertBuiltinTypes db.objects
  let (rootHash, objects) ← putProgramRoot P objects .empty
  let objects ← E.indexRoot objects rootHash
  let db := { db with objects := objects }
  if (db.branches.lookup mainBranch).isSome then return (rootHash, db)
  else do
    let db ← db.setBranch mainBranch ⟨rootHash, none⟩
    return (rootHash, db)

variable {E} in
/-- What a request does to the database. -/
def perform (db : Db) : Request E → Db
  | .ensureInitialized => finishImmediate db (db.ensureInitialized P E)
  | .apply branch expectedRoot op agent =>
    finishFlagged db (db.applyAndRecordOnBranch P E branch expectedRoot op agent)
  | .applyBatch branch expectRoot operations agent =>
    finishFlagged db (db.applyOperations P E branch agent expectRoot operations [] false)
  | .mergeApply target source expectedRoot =>
    finishFlagged db (mergeApplyBranchesInTx P E db target source expectedRoot)
  | .createBranch name source => finishImmediate db (db.createBranchPointer P name source)
  | .fastForward target expectedRoot source =>
    finishImmediate db (db.fastForwardBranchPointer P target expectedRoot source)
  | .deleteBranch name expectedRoot => finishImmediate db (db.deleteBranch name expectedRoot)

variable {P E} in
/-- A migration that is recorded on a branch is committed. -/
theorem perform_of_recorded {db after : Db} {branch : String} {expectedRoot : Hash}
    {op : E.Operation} {agent : Option JsonValue} {outcome : MigrationOutcome E}
    (run : db.applyAndRecordOnBranch P E branch expectedRoot op agent =
      .ok (outcome, true, after)) :
    perform P db (.apply branch expectedRoot op agent) = after := by
  simp only [perform, run, finishFlagged]

/-- A database with nothing in it. -/
def Db.empty : Db := ⟨∅, ∅, ∅, ∅⟩

/-- The databases reached from an empty one by requests of any clients, in any
order. -/
inductive Reachable : Db → Prop
  | empty : Reachable .empty
  | perform {db : Db} (before : Reachable db) (request : Request E) :
    Reachable (CodeDb.perform P db request)

variable {P} {E} in
theorem Reachable.requests {db : Db} (reach : Reachable P E db) (requests : List (Request E)) :
    Reachable P E (requests.foldl (CodeDb.perform P) db) := by
  induction requests generalizing db with
  | nil => exact reach
  | cons request requests ih => exact ih (reach.perform request)

/-- The branch a request expects at a root. A batch expects its branch where its
first operation does: at the root of that operation, or else at its own. -/
def Request.expectation {E : Engine} : Request E → Option (String × Hash)
  | .apply branch expectedRoot _ _ => some (branch, expectedRoot)
  | .applyBatch branch expectRoot (op :: _) _ =>
    ((E.expectRootHash op).or expectRoot).map (branch, ·)
  | .mergeApply target _ expectedRoot => some (target, expectedRoot)
  | .fastForward target expectedRoot _ => some (target, expectedRoot)
  | .deleteBranch name (some expectedRoot) => some (name, expectedRoot)
  | _ => none

end CodeDb

import CodeDb.Store.Branches

/-!
# Applying and recording operations

An operation is applied to a branch under an expectation of the branch's root.
Where a precondition fails the branch is not touched: the operation has been
applied already, or there is a conflict. Otherwise the operation's new root is
recorded as a migration and a history point, and the branch moves there.

What operations there are, and what they do to a root, is left to an `Engine`:
recording reads and writes nothing of theirs but objects.

## Main definitions

* `Engine` — the operations, their conditions and their appliers
* `applyAndRecordOnBranch` — apply one operation and record it
* `applyBatch` — apply a batch of operations in one transaction
-/

namespace CodeDb

/-- An object a merge brings along. -/
structure MergeObjectPayload where
  hash : Hash
  kind : String
  payload : JsonValue
  deriving DecidableEq

/-- The operation that records a merge. -/
structure MergeBranch where
  targetBranch : String
  sourceBranch : String
  ancestorRootHash : Hash
  ancestorHistoryHash : Option Hash
  sourceRootHash : Hash
  sourceHistoryHash : Option Hash
  mergedRoot : ProgramRootPayload
  objectPayloads : List MergeObjectPayload
  deriving DecidableEq

/-- The operations, and what recording and merging ask of the rest of the
program. -/
structure Engine where
  Operation : Type
  /-- The operations of a client's request, before their names are resolved. -/
  ApiOperation : Type
  /-- The preconditions other than that a root is current. -/
  Condition : Type
  Postcondition : Type
  Summary : Type
  kindName : Operation → String
  operationValue : Operation → JsonValue
  /-- An operation from the text it is recorded as. -/
  readOperation : String → Except Error Operation
  /-- An operation from its JSON value. -/
  operationFromValue : JsonValue → Except Error Operation
  expectRootHash : ApiOperation → Option Hash
  operationFromApi : Objects → Hash → ApiOperation → Except Error Operation
  conditionsFor : Objects → Hash → Operation → List Condition
  conditionValue : Condition → JsonValue
  conditionHolds : Objects → Hash → Condition → Except Error Bool
  postconditionsFor : Objects → Hash → Operation → List Postcondition
  postconditionValue : Postcondition → JsonValue
  postconditionName : Postcondition → String
  postconditionHolds : Objects → Hash → Postcondition → Except Error Bool
  applyOperationToRoot : Objects → Hash → Option Hash → Operation → Except Error (Hash × Objects)
  migrationSummary : Operation → Summary
  migrationSummaryForRoots : Objects → Operation → Hash → Hash → Except Error Summary
  mergeBranch : MergeBranch → Operation
  insertBuiltinTypes : Objects → Objects
  indexRoot : Objects → Hash → Except Error Objects
  typeCheckRoot : Objects → Hash → Except Error Unit
  /-- The build impact of going from one root to another. -/
  diffRoots : Objects → Hash → Hash → Except Error JsonValue

variable (P : Primitives) (E : Engine)

/-- The preconditions of an operation. -/
inductive Precondition where
  | rootIsCurrent (root : Hash)
  | about (condition : E.Condition)

variable {E} in
/-- The JSON form of a precondition. -/
def Precondition.value : Precondition E → JsonValue
  | .rootIsCurrent root => .object [("kind", .string "root_is_current"), ("root", .string root)]
  | .about condition => E.conditionValue condition

structure MigrationReport where
  oldRoot : Hash
  newRoot : Hash
  migrationHash : Option Hash
  historyHash : Option Hash
  summary : E.Summary

structure MigrationConflict where
  currentRoot : Hash
  expectedRoot : Hash
  summary : E.Summary
  failedPreconditions : List (Precondition E)
  failedPostconditions : List E.Postcondition

/-- What came of an operation. -/
inductive MigrationOutcome where
  | applied (report : MigrationReport E)
  | alreadyApplied (report : MigrationReport E)
  | conflict (conflict : MigrationConflict E)

namespace Db

/-- The preconditions of an operation against an expected root. Every operation
asks first that the root is the current one. -/
def preconditionsFor (db : Db) (expectedRoot : Hash) (op : E.Operation) : List (Precondition E) :=
  .rootIsCurrent expectedRoot :: (E.conditionsFor db.objects expectedRoot op).map .about

/-- Whether a precondition holds of the current root. -/
def preconditionHolds (db : Db) (currentRoot : Hash) : Precondition E → Except Error Bool
  | .rootIsCurrent root => .ok (root == currentRoot)
  | .about condition => E.conditionHolds db.objects currentRoot condition

/-- The conditions of a list that do not hold. -/
def failing {α : Type} (holds : α → Except Error Bool) : List α → Except Error (List α)
  | [] => .ok []
  | a :: rest => do
    let h ← holds a
    let failed ← failing holds rest
    return if h then failed else a :: failed

/-- The preconditions that do not hold of the current root. -/
def failedPreconditions (db : Db) (currentRoot : Hash) (preconditions : List (Precondition E)) :
    Except Error (List (Precondition E)) := do
  let _ ← loadRoot P db.objects currentRoot
  failing (db.preconditionHolds E currentRoot) preconditions

/-- The postconditions that do not hold of a root. -/
def failedPostconditions (objects : Objects) (root : Hash) (postconditions : List E.Postcondition) :
    Except Error (List E.Postcondition) := do
  let _ ← loadRoot P objects root
  failing (E.postconditionHolds objects root) postconditions

/-- The canonical text of an operation. -/
def operationText (op : E.Operation) : String := canonicalJson P.floatText (E.operationValue op)

/-- Some recorded migration is the operation, from one root to another. -/
def recordedOperationOutputMatches (db : Db) (inputRoot outputRoot : Hash) (op : E.Operation) :
    Bool :=
  db.migrations.entries.any fun row =>
    row.2.inputRootHash == inputRoot && row.2.outputRootHash == outputRoot &&
      row.2.operationKind == E.kindName op && row.2.operationJson == operationText P E op

/-- Some recorded migration is the operation. -/
def recordedOperationExists (db : Db) (op : E.Operation) : Bool :=
  db.migrations.entries.any fun row =>
    row.2.operationKind == E.kindName op && row.2.operationJson == operationText P E op

/-- The report on an operation that leaves a branch where it is. -/
def unchangedReport (branch : BranchState) (summary : E.Summary) : MigrationReport E where
  oldRoot := branch.rootHash
  newRoot := branch.rootHash
  migrationHash := none
  historyHash := branch.historyHash
  summary := summary

/-- What comes of an operation some of whose preconditions fail. The database is
only read. -/
def refuse (db : Db) (branch : BranchState) (expectedRoot : Hash) (op : E.Operation)
    (failedPre : List (Precondition E)) : Except Error (MigrationOutcome E) := do
  let oldRoot := branch.rootHash
  let failedPost ← failedPostconditions P E db.objects oldRoot
    (E.postconditionsFor db.objects oldRoot op)
  let staleExpectedRoot := failedPre.any fun
    | .rootIsCurrent _ => true
    | .about _ => false
  let recorded :=
    if staleExpectedRoot then db.recordedOperationOutputMatches P E expectedRoot oldRoot op
    else db.recordedOperationExists P E op
  if failedPost.isEmpty && recorded then do
    let summary ← E.migrationSummaryForRoots db.objects op oldRoot oldRoot
    return .alreadyApplied (unchangedReport E branch summary)
  else
    return .conflict
      { currentRoot := oldRoot
        expectedRoot := expectedRoot
        summary := E.migrationSummary op
        failedPreconditions := failedPre
        failedPostconditions := failedPost }

/-- The preconditions of a migration as they are recorded. -/
def preconditionsValue (preconditions : List (Precondition E)) : JsonValue :=
  .array (preconditions.map Precondition.value)

/-- The postconditions of a migration as they are recorded. -/
def postconditionsValue (postconditions : List E.Postcondition) : JsonValue :=
  .array (postconditions.map E.postconditionValue)

/-- The row of a migration from a branch's state to a new root. -/
def migrationRow (branch : BranchState) (newRoot : Hash) (op : E.Operation)
    (preconditions : List (Precondition E)) (postconditions : List E.Postcondition)
    (agent : Option JsonValue) : MigrationRow where
  parentHistoryHash := branch.historyHash
  inputRootHash := branch.rootHash
  outputRootHash := newRoot
  operationKind := E.kindName op
  operationJson := operationText P E op
  preconditionsJson := canonicalJson P.floatText (preconditionsValue E preconditions)
  postconditionsJson := canonicalJson P.floatText (postconditionsValue E postconditions)
  agentJson := canonicalJson P.floatText (agent.getD (.object []))

/-- Record a migration from a branch's state to a new root, with its history
point, and move the branch there. -/
def record (db : Db) (branchName : String) (branch : BranchState) (newRoot : Hash)
    (op : E.Operation) (preconditions : List (Precondition E))
    (postconditions : List E.Postcondition) (agent : Option JsonValue) :
    Except Error (Hash × Hash × Db) := do
  let migration := migrationHash P branch.historyHash branch.rootHash newRoot
    (E.operationValue op) (preconditionsValue E preconditions)
    (postconditionsValue E postconditions)
  let history := historyHash P branch.historyHash migration newRoot
  let row := migrationRow P E branch newRoot op preconditions postconditions agent
  let db := db.withPoint migration history row ⟨branch.historyHash, migration, newRoot⟩
  let db ← db.setBranch branchName ⟨newRoot, some history⟩
  return (migration, history, db)

/-- Check the root an operation led to, and record the operation unless the root
is the one it started from. -/
def recordChange (db : Db) (branchName : String) (branch : BranchState) (newRoot : Hash)
    (op : E.Operation) (preconditions : List (Precondition E)) (agent : Option JsonValue) :
    Except Error (MigrationOutcome E × Bool × Db) := do
  let postconditions := E.postconditionsFor db.objects newRoot op
  let failedPost ← failedPostconditions P E db.objects newRoot postconditions
  if !failedPost.isEmpty then
    .error ("postcondition failed for " ++ E.kindName op ++ ": " ++
      ",".intercalate (failedPost.map E.postconditionName))
  else if newRoot = branch.rootHash then do
    let summary ← E.migrationSummaryForRoots db.objects op branch.rootHash branch.rootHash
    return (.alreadyApplied (unchangedReport E branch summary), false, db)
  else do
    let summary ← E.migrationSummaryForRoots db.objects op branch.rootHash newRoot
    let (migration, history, db) ← db.record P E branchName branch newRoot op preconditions
      postconditions agent
    return (.applied
      { oldRoot := branch.rootHash
        newRoot := newRoot
        migrationHash := some migration
        historyHash := some history
        summary := summary }, true, db)

/-- Apply an operation to a branch expected at a root, and record it. The flag
tells whether the transaction is to be committed. -/
def applyAndRecordOnBranch (db : Db) (branchName : String) (expectedRoot : Hash)
    (op : E.Operation) (agent : Option JsonValue) :
    Except Error (MigrationOutcome E × Bool × Db) := do
  let branch ← db.branch branchName
  let preconditions := db.preconditionsFor E expectedRoot op
  let failedPre ← db.failedPreconditions P E branch.rootHash preconditions
  if !failedPre.isEmpty then do
    let outcome ← db.refuse P E branch expectedRoot op failedPre
    return (outcome, false, db)
  else do
    let (newRoot, objects) ← E.applyOperationToRoot db.objects branch.rootHash branch.historyHash op
    { db with objects := objects }.recordChange P E branchName branch newRoot op preconditions agent

/-! ### Batches -/

/-- What came of a batch. -/
inductive BatchOutcome where
  | finished (results : List (MigrationOutcome E))
  | conflict (results : List (MigrationOutcome E))
  | failed (results : List (MigrationOutcome E)) (currentRoot : Hash) (message : Error)
    (summary : Option E.Summary)

/-- Apply the operations of a batch one after the other. The expectation of the
batch is that of its first operation, and an operation without one expects the
branch's root of the moment. An operation that was applied already leaves no
trace, and the first conflict or error ends the batch. -/
def applyOperations (branchName : String) (agent : Option JsonValue) :
    Db → Option Hash → List E.ApiOperation → List (MigrationOutcome E) → Bool →
    Except Error (BatchOutcome E × Bool × Db)
  | db, _, [], results, anyApplied => .ok (.finished results, anyApplied, db)
  | db, batchExpectation, apiOperation :: rest, results, anyApplied => do
    let branch ← db.branch branchName
    let expectedRoot :=
      ((E.expectRootHash apiOperation).or batchExpectation).getD branch.rootHash
    match E.operationFromApi db.objects expectedRoot apiOperation with
    | .error message =>
      let invalid := "operation " ++ toString results.length ++ " is invalid: " ++ message
      return (.failed results branch.rootHash invalid none, false, db)
    | .ok op =>
      match db.applyAndRecordOnBranch P E branchName expectedRoot op agent with
      | .error message =>
        let failed := "operation " ++ toString results.length ++ " failed: " ++ message
        return (.failed results branch.rootHash failed (some (E.migrationSummary op)), false, db)
      | .ok (.applied report, _, db') =>
        applyOperations branchName agent db' none rest (results ++ [.applied report]) true
      | .ok (.alreadyApplied report, _, _) =>
        applyOperations branchName agent db none rest (results ++ [.alreadyApplied report])
          anyApplied
      | .ok (.conflict conflict, _, _) =>
        return (.conflict (results ++ [.conflict conflict]), false, db)

end Db

end CodeDb

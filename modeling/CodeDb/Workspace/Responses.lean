import CodeDb.History.Requests
import CodeDb.Workspace.Documents

/-!
# The results of batches and the answers to requests

A batch is reported operation by operation. What is answered to a request is the
result of its batch and the state of the branch, or an error that says why there is
none.

## Main definitions

* `Wire` — the readers and writers of texts
* `Db.applyBatchInTx` — apply a batch and report it
* `WorkspaceResponse`, `applyResultWorkspaceError` — answers
-/

namespace CodeDb

/-! ### Results of batches -/

inductive MigrationStatus where
  | applied
  | alreadyApplied
  | conflict
  deriving DecidableEq

def MigrationStatus.asStr : MigrationStatus → String
  | .applied => "applied"
  | .alreadyApplied => "already_applied"
  | .conflict => "conflict"

def mergeStatus : MigrationStatus → MigrationStatus → MigrationStatus
  | .conflict, _ | _, .conflict => .conflict
  | .applied, _ | _, .applied => .applied
  | .alreadyApplied, .alreadyApplied => .alreadyApplied

section Results

variable (E : Engine)

/-- What is reported of an operation. -/
inductive OperationResult where
  | outcome (outcome : MigrationOutcome E)
  /-- It was applied, and undone with the rest of the batch. -/
  | rolledBack (oldRoot newRoot : Hash) (summary : E.Summary)
  | error (operationIndex : Nat) (currentRootHash : Hash) (error : Error)
    (summary : Option E.Summary)

/-- A batch of operations. -/
structure ApplyBatch where
  schema : Option String
  branch : String
  expectRootHash : Option Hash
  agent : Option JsonValue
  operations : List E.ApiOperation

/-- What is reported of a batch. -/
structure ApplyResult where
  status : String
  branch : String
  committed : Bool
  rollbackReason : Option String
  error : Option Error
  oldRootHash : Hash
  newRootHash : Hash
  oldHistoryHash : Option Hash
  newHistoryHash : Option Hash
  operationCount : Nat
  processedOperationCount : Nat
  appliedOperationCount : Nat
  results : List (OperationResult E)

variable {E}

def MigrationOutcome.status : MigrationOutcome E → MigrationStatus
  | .applied _ => .applied
  | .alreadyApplied _ => .alreadyApplied
  | .conflict _ => .conflict

/-- The status of a batch. -/
def aggregateStatus (results : List (MigrationOutcome E)) : MigrationStatus :=
  results.foldl (fun status outcome => mergeStatus status outcome.status) .alreadyApplied

/-- Report the operations of a batch that is undone. -/
def markRolledBackResults (results : List (MigrationOutcome E)) : List (OperationResult E) :=
  results.map fun
    | .applied report => .rolledBack report.oldRoot report.newRoot report.summary
    | outcome => .outcome outcome

/-- The report of a batch that led a branch from one state to another. -/
def applyResult (request : ApplyBatch E) (initial final : BranchState) (shouldCommit : Bool) :
    Db.BatchOutcome E → ApplyResult E
  | .finished results =>
    { status := (aggregateStatus results).asStr
      branch := request.branch
      committed := shouldCommit
      rollbackReason := none
      error := none
      oldRootHash := initial.rootHash
      newRootHash := final.rootHash
      oldHistoryHash := initial.historyHash
      newHistoryHash := final.historyHash
      operationCount := request.operations.length
      processedOperationCount := results.length
      appliedOperationCount :=
        if shouldCommit then results.countP (·.status = .applied) else 0
      results := results.map .outcome }
  | .conflict results =>
    { status := (aggregateStatus results).asStr
      branch := request.branch
      committed := false
      rollbackReason := some "conflict"
      error := none
      oldRootHash := initial.rootHash
      newRootHash := initial.rootHash
      oldHistoryHash := initial.historyHash
      newHistoryHash := initial.historyHash
      operationCount := request.operations.length
      processedOperationCount := results.length
      appliedOperationCount := 0
      results := markRolledBackResults results }
  | .failed results currentRoot message summary =>
    { status := "error"
      branch := request.branch
      committed := false
      rollbackReason := some "error"
      error := some message
      oldRootHash := initial.rootHash
      newRootHash := initial.rootHash
      oldHistoryHash := initial.historyHash
      newHistoryHash := initial.historyHash
      operationCount := request.operations.length
      processedOperationCount := results.length + 1
      appliedOperationCount := 0
      results := markRolledBackResults results ++
        [.error results.length currentRoot message summary] }

/-- Apply a batch and report it. The flag tells whether the transaction is to be
committed. -/
def Db.applyBatchInTx (P : Primitives) (debug : String → String) (db : Db)
    (request : ApplyBatch E) : Except Error (ApplyResult E × Bool × Db) :=
  if request.schema.any (· ≠ applySchema) then
    .error ("unsupported apply schema " ++ debug (request.schema.getD "") ++ "; expected " ++
      applySchema)
  else do
    let initial ← db.branch request.branch
    let (outcome, shouldCommit, after) ← db.applyOperations P E request.branch request.agent
      request.expectRootHash request.operations [] false
    let final ← (if shouldCommit then after.branch request.branch else .ok initial : Except Error _)
    return (applyResult request initial final shouldCommit outcome, shouldCommit, after)

end Results

/-! ### Answers -/

/-- The state of a branch, as it is shown to clients. -/
structure WorkspaceSnapshot where
  branch : String
  rootHash : Hash
  historyHash : Option Hash
  deriving DecidableEq

section Answers

variable (E : Engine)

structure WorkspaceDiagnostic where
  kind : String
  message : String
  details : Option (ApplyResult E)

structure WorkspaceError where
  kind : String
  message : Error
  expectedRoot : Option Hash
  actualRoot : Option Hash
  expectedRootHash : Option Hash
  actualRootHash : Option Hash

/-- What is answered to a request. -/
structure WorkspaceResponse where
  schema : String
  status : String
  result : Option (ApplyResult E)
  diagnostics : List (WorkspaceDiagnostic E)
  snapshot : Option WorkspaceSnapshot
  error : Option WorkspaceError
  id : Option JsonValue

structure WorkspaceMethodResult where
  result : ApplyResult E
  diagnostics : List (WorkspaceDiagnostic E)
  snapshot : WorkspaceSnapshot

structure WorkspaceMethodError where
  kind : String
  message : Error
  diagnostics : List (WorkspaceDiagnostic E) := []
  snapshot : Option WorkspaceSnapshot := none
  expectedRootHash : Option Hash := none
  actualRootHash : Option Hash := none

/-- The readers and writers of texts that are derived from the types of data, and
how messages quote strings and name conditions. -/
structure Wire where
  /-- The texts answers are kept as. -/
  Text : Type
  writeResponse : WorkspaceResponse E → Text
  readResponse : Text → Except Error (WorkspaceResponse E)
  transactionFromValue : JsonValue → Except Error WorkspaceTransaction
  batchFromValue : JsonValue → Except Error (ApplyBatch E)
  operationFromValue : JsonValue → Except Error E.ApiOperation
  debug : String → String
  conditionName : E.Condition → String
  summaryKind : E.Summary → String
  summaryDisplay : E.Summary → String

/-- What an answer is kept as is read back. -/
def Wire.ReadsResponses {E : Engine} (W : Wire E) : Prop :=
  ∀ response, W.readResponse (W.writeResponse response) = .ok response

variable {E}

def WorkspaceResponse.ok (result : ApplyResult E) (diagnostics : List (WorkspaceDiagnostic E))
    (snapshot : WorkspaceSnapshot) (id : Option JsonValue) : WorkspaceResponse E where
  schema := workspaceResponseSchema
  status := "ok"
  result := some result
  diagnostics := diagnostics
  snapshot := some snapshot
  error := none
  id := id

def WorkspaceResponse.ofError (error : WorkspaceMethodError E) (snapshot : Option WorkspaceSnapshot)
    (id : Option JsonValue) : WorkspaceResponse E where
  schema := workspaceResponseSchema
  status := "error"
  result := none
  diagnostics := error.diagnostics
  snapshot := snapshot
  error := some
    { kind := error.kind
      message := error.message
      expectedRoot := error.expectedRootHash
      actualRoot := error.actualRootHash
      expectedRootHash := error.expectedRootHash
      actualRootHash := error.actualRootHash }
  id := id

/-! ### Errors -/

/-- Does a text contain another. -/
def containsText (text part : String) : Bool := decide (part.toList <:+: text.toList)

variable (W : Wire E)

/-- The name of a precondition. -/
def preconditionName : Precondition E → String
  | .rootIsCurrent _ => "root_is_current"
  | .about condition => W.conditionName condition

/-- What kind of conflict it is. -/
def classifyApplyConflict (conflict : Option (MigrationConflict E)) : String :=
  let failedPre := (conflict.map fun c => c.failedPreconditions.map (preconditionName W)).getD []
  let failedPost := (conflict.map fun c => c.failedPostconditions.map E.postconditionName).getD []
  let operationKind := (conflict.map fun c => W.summaryKind c.summary).getD ""
  if failedPre.contains "root_is_current" then "stale_root"
  else if (failedPre ++ failedPost).any (containsText · "export") then "export_conflict"
  else if operationKind = "change_function_signature" ∨
      failedPost.contains "signature_source_matches" then "signature_conflict"
  else if operationKind = "delete_symbol" ∨ failedPost.contains "symbol_absent" then
    "delete_conflict"
  else if (failedPre ++ failedPost).any fun condition =>
      containsText condition "name" || containsText condition "alias" then "name_conflict"
  else "dependency_conflict"

/-- The first conflict of a batch. -/
def firstConflict : List (OperationResult E) → Option (MigrationConflict E)
  | [] => none
  | .outcome (.conflict conflict) :: _ => some conflict
  | _ :: results => firstConflict results

/-- The first error of a batch. -/
def firstError : List (OperationResult E) → Option Error
  | [] => none
  | .error _ _ error _ :: _ => some error
  | _ :: results => firstError results

def applyConflictWorkspaceError (result : ApplyResult E) (snapshot : WorkspaceSnapshot) :
    WorkspaceMethodError E :=
  let conflict := firstConflict result.results
  let operation := (conflict.map fun c => W.summaryKind c.summary).getD "operation"
  let display := (conflict.map fun c => W.summaryDisplay c.summary).getD "workspace apply"
  { kind := classifyApplyConflict W conflict
    message := operation ++ " conflict: " ++ display
    diagnostics := [⟨"apply_conflict", "codedb/apply/v1 returned conflict", some result⟩]
    snapshot := some snapshot
    expectedRootHash := conflict.map (·.expectedRoot)
    actualRootHash := (conflict.map (·.currentRoot)).or (some snapshot.rootHash) }

def applyErrorWorkspaceError (result : ApplyResult E) (snapshot : WorkspaceSnapshot) :
    WorkspaceMethodError E :=
  let message := ((firstError result.results).or result.error).getD "ops.apply failed"
  { kind := if containsText (message.map Char.toLower) "type" then "type_error"
      else "invalid_operation"
    message := message
    diagnostics := [⟨"apply_error", "codedb/apply/v1 returned error", some result⟩]
    snapshot := some snapshot }

/-- The error of a batch that was undone. -/
def applyResultWorkspaceError (result : ApplyResult E) (snapshot : WorkspaceSnapshot) :
    Option (WorkspaceMethodError E) :=
  if result.status = "conflict" then some (applyConflictWorkspaceError W result snapshot)
  else if result.status = "error" then some (applyErrorWorkspaceError result snapshot)
  else none

end Answers

end CodeDb

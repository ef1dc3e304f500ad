import CodeDb.Lib.Interleaving
import CodeDb.Workspace.Responses

/-!
# Applying operations for clients

A client that asks for operations first looks whether its request has been answered
already, then whether the branch is where it expects it, and then applies its batch in
one transaction. With the commit of a batch whose request carries an id the answer is
recorded under that id. What the client is answered is put together after the commit,
out of what the branch is by then.

Each statement and each transaction is one action, and other clients may act between
any two of them.

## Main definitions

* `WorkspaceDb` — the database, and the answers recorded in it
* `applyWithCommitHook` — the transaction that applies a batch and records the answer
* `opsApply`, `executeWorkspaceRequest` — how a request is served
-/

namespace CodeDb

open Interleaving

variable {E : Engine}

/-- The answer that is recorded for a request. -/
structure WorkspaceTransactionRow (W : Wire E) where
  requestHash : String
  method : String
  branch : String
  expectedRootHash : Option Hash
  responseJson : W.Text

/-- The database, and the answers recorded under the ids of requests. -/
structure WorkspaceDb (W : Wire E) where
  db : Db
  workspaceTransactions : AList fun _ : String => WorkspaceTransactionRow W

/-- What can be told of an action. -/
inductive WorkspaceEvent (E : Engine) where
  /-- The batch of a request that carries an id is applied. -/
  | applying (request : WorkspaceIdempotencyRequest) (batch : ApplyBatch E)
  /-- The batch of a request was committed, and its answer recorded. -/
  | committed (request : WorkspaceIdempotencyRequest) (response : WorkspaceResponse E)

variable (P : Primitives) (W : Wire E)

/-! ### Recorded answers -/

namespace WorkspaceDb

variable {W} (s : WorkspaceDb W)

/-- What is reported of an id that is used again. -/
def requestIdReused (W : Wire E) (requestId : String) : Error :=
  "workspace request_id " ++ W.debug requestId ++ " was already used for a different request"

/-- Look up the answer recorded for a request. -/
def cachedWorkspaceTransactionResponse (requestId requestHash : String) :
    Except Error (Option W.Text) :=
  match s.workspaceTransactions.lookup requestId with
  | none => .ok none
  | some row =>
    if row.requestHash ≠ requestHash then .error (requestIdReused W requestId)
    else .ok (some row.responseJson)

/-- Record the answer of a request, unless one is recorded for it. -/
def recordWorkspaceTransactionResponse (request : WorkspaceIdempotencyRequest)
    (responseJson : W.Text) : Except Error (WorkspaceDb W) :=
  let transactions := insertOrIgnore s.workspaceTransactions request.requestId
    ⟨request.requestHash, request.method, request.branch, request.expectedRootHash, responseJson⟩
  match transactions.lookup request.requestId with
  | none => .error "Query returned no rows"
  | some stored =>
    if stored.requestHash ≠ request.requestHash then .error (requestIdReused W request.requestId)
    else .ok { s with workspaceTransactions := transactions }

/-- The state of a branch, as it is shown to clients. -/
def workspaceSnapshot (branch : String) : Except Error WorkspaceSnapshot := do
  let state ← s.db.branch branch
  return ⟨branch, state.rootHash, state.historyHash⟩

/-- Record the answer of a request whose batch is about to be committed. -/
def recordIdempotentApplyResponse (request : WorkspaceIdempotencyRequest)
    (result : ApplyResult E) : Except Error (WorkspaceResponse E × WorkspaceDb W) := do
  let snapshot ← s.workspaceSnapshot result.branch
  let response := WorkspaceResponse.ok result [] snapshot none
  let recorded ← s.recordWorkspaceTransactionResponse request (W.writeResponse response)
  return (response, recorded)

/-- Report a failure under a context. -/
def inContext {α : Type} (context : Error) (x : Except Error α) : Except Error α :=
  x.mapError (context ++ ": " ++ ·)

/-- Read a batch, or a single operation as a batch of one. -/
def parseApplyJsonRequest (W : Wire E) (text : String) : Except Error (ApplyBatch E) := do
  let value ← inContext "apply JSON must be a JSON object" (P.parseJson text)
  match value.asObject? with
  | none => .error "apply JSON must be an object"
  | some object =>
    if (object.lookup "operations").isSome then
      inContext "apply JSON must match codedb/apply/v1" (W.batchFromValue value)
    else
      match object.lookup "schema" with
      | some (.string schema) =>
        if schema ≠ applySchema then
          .error ("unsupported apply schema " ++ W.debug schema ++ "; expected " ++ applySchema)
        else single (.object (JsonValue.removeKey "schema" object))
      | some _ => .error ("apply schema must be " ++ W.debug applySchema)
      | none => single value
where
  /-- A batch of one operation, for the main branch. -/
  single (value : JsonValue) : Except Error (ApplyBatch E) := do
    let operation ← inContext "apply JSON must match codedb/apply/v1 operation schema"
      (W.operationFromValue value)
    return ⟨some applySchema, mainBranch, E.expectRootHash operation, none, [operation]⟩

/-- Apply a batch in a transaction, and record the answer if it is committed. -/
def applyWithCommitHook (request : Option WorkspaceIdempotencyRequest) (batch : ApplyBatch E) :
    Except Error (ApplyResult E) × List (WorkspaceEvent E) × WorkspaceDb W :=
  match s.db.applyBatchInTx P W.debug batch with
  | .error message => (.error message, [], s)
  | .ok (result, false, _) => (.ok result, [], s)
  | .ok (result, true, after) =>
    match request with
    | none => (.ok result, [], { s with db := after })
    | some request =>
      match { s with db := after }.recordIdempotentApplyResponse request result with
      | .error message => (.error message, [], s)
      | .ok (response, recorded) => (.ok result, [.committed request response], recorded)

end WorkspaceDb

/-! ### Serving a request -/

/-- A part of serving a request, which may end in an error. -/
abbrev MethodM (W : Wire E) (α : Type) : Type :=
  ExceptT (WorkspaceMethodError E) (Program (WorkspaceDb W) (WorkspaceEvent E)) α

variable {W}

/-- Go on with a result, or end in an error of a kind. -/
def orMethodError {α : Type} (kind : String) : Except Error α → MethodM W α
  | .ok a => pure a
  | .error message => throw { kind := kind, message := message }

/-- Look something up. -/
def lookUp {α : Type} (kind : String) (query : WorkspaceDb W → Except Error α) : MethodM W α := do
  let found ← ExceptT.lift (Program.read query)
  orMethodError kind found

/-- The recorded answer of a request, if there is one. -/
def cachedIdempotentApplyResult :
    Option WorkspaceIdempotencyRequest → MethodM W (Option (WorkspaceMethodResult E))
  | none => pure none
  | some request => do
    match ← lookUp "invalid_request"
        (·.cachedWorkspaceTransactionResponse request.requestId request.requestHash) with
    | none => return none
    | some text =>
      match W.readResponse text with
      | .error message =>
        throw { kind := "method_error"
                message := "cached workspace response is invalid JSON: " ++ message }
      | .ok response =>
        match response.result, response.snapshot with
        | none, _ =>
          throw { kind := "method_error", message := "cached workspace response is missing result" }
        | some _, none =>
          throw { kind := "method_error"
                  message := "cached workspace response is missing snapshot" }
        | some result, some snapshot => return some ⟨result, response.diagnostics, snapshot⟩

/-- The state of the branch a batch was for, or of the main branch if it is gone. -/
def snapshotAfter (result : ApplyResult E) : MethodM W WorkspaceSnapshot :=
  tryCatch (lookUp "method_error" (·.workspaceSnapshot result.branch)) fun _ =>
    lookUp "method_error" (·.workspaceSnapshot mainBranch)

/-- Make sure the main branch is there, and apply a batch. -/
def applyJsonStrWithCommitHook (request : Option WorkspaceIdempotencyRequest) (text : String) :
    MethodM W (ApplyResult E) := do
  let initialized ← ExceptT.lift (Program.atomically fun s =>
    match s.db.ensureInitialized P E with
    | .error message => (.error message, [], s)
    | .ok (_, db) => (.ok (), [], { s with db := db }))
  let _ ← orMethodError "invalid_operation" (initialized : Except Error Unit)
  let batch ← orMethodError "invalid_operation" (WorkspaceDb.parseApplyJsonRequest P W text)
  let applied ← ExceptT.lift (Program.atomically fun s =>
    let (outcome, events, after) := s.applyWithCommitHook P request batch
    (outcome, (request.map (WorkspaceEvent.applying · batch)).toList ++ events, after))
  orMethodError "invalid_operation" applied

/-- What is reported of a branch that moved. -/
def staleRoot (W : Wire E) (branch : String) (expectedRoot : Hash) (current : WorkspaceSnapshot) :
    WorkspaceMethodError E where
  kind := "stale_root"
  message := "branch " ++ W.debug branch ++ " moved before ops.apply; expected root " ++
    expectedRoot ++ ", actual root " ++ current.rootHash
  snapshot := some current
  expectedRootHash := some expectedRoot
  actualRootHash := some current.rootHash

/-- Answer a request after its batch: with the recorded answer, if nothing was
committed and there is one. -/
def answerApplied (request : Option WorkspaceIdempotencyRequest) (result : ApplyResult E)
    (snapshot : WorkspaceSnapshot) : MethodM W (WorkspaceMethodResult E) := do
  let cached ← (if result.committed then pure none
    else cachedIdempotentApplyResult request : MethodM W _)
  match cached with
  | some cached => return cached
  | none =>
    match applyResultWorkspaceError W result snapshot with
    | none => return ⟨result, [], snapshot⟩
    | some error =>
      match ← cachedIdempotentApplyResult request with
      | some cached => return cached
      | none => throw error

/-- Apply the operations of a request. -/
def opsApply (params : JsonValue) (request : Option WorkspaceIdempotencyRequest) :
    MethodM W (WorkspaceMethodResult E) := do
  let document ← orMethodError "invalid_params"
    (applyDocumentParam W.debug W.transactionFromValue params true)
  match ← orMethodError "invalid_params" (expectedRootHashFromApplyDocument document) with
  | none => throw { kind := "invalid_params", message := "ops.apply requires expected_root" }
  | some expectedRoot =>
    let branch := documentBranch document
    let current ← lookUp "method_error" (·.workspaceSnapshot branch)
    if current.rootHash ≠ expectedRoot then
      match ← cachedIdempotentApplyResult request with
      | some cached => return cached
      | none => throw (staleRoot W branch expectedRoot current)
    else
      let result ← applyJsonStrWithCommitHook P request (canonicalJson P.floatText document)
      let snapshot ← snapshotAfter result
      answerApplied request result snapshot

/-- Answer with an error, and the state of the main branch if there is nothing better. -/
def respondError (error : WorkspaceMethodError E) (id : Option JsonValue) :
    Program (WorkspaceDb W) (WorkspaceEvent E) (WorkspaceResponse E) :=
  match error.snapshot with
  | some snapshot => pure (.ofError error (some snapshot) id)
  | none => do
    let main ← Program.read (·.workspaceSnapshot mainBranch)
    return .ofError error main.toOption id

/-- A request to apply operations. -/
abbrev OpsApplyRequest := { request : WorkspaceRequest // request.method = "ops.apply" }

/-- What a request to apply operations is known by. -/
def OpsApplyRequest.idempotency (W : Wire E) (request : OpsApplyRequest) :
    Except Error (Option WorkspaceIdempotencyRequest) :=
  workspaceIdempotencyRequest W.debug W.transactionFromValue P.floatText request.val

/-- Apply the operations of a request, and answer it. -/
def dispatchOpsApply (request : OpsApplyRequest)
    (idempotency : Option WorkspaceIdempotencyRequest) :
    Program (WorkspaceDb W) (WorkspaceEvent E) (WorkspaceResponse E) := do
  match ← (opsApply P request.val.params idempotency).run with
  | .ok done => return .ok done.result done.diagnostics done.snapshot request.val.id
  | .error error => respondError error request.val.id

/-- Answer a request with what is recorded for it, or else serve it. -/
def executeWorkspaceRequest (request : OpsApplyRequest) :
    Program (WorkspaceDb W) (WorkspaceEvent E) (WorkspaceResponse E) :=
  let id := request.val.id
  if request.val.schema.any (· ≠ workspaceRequestSchema) then
    respondError
      { kind := "invalid_request"
        message := "unsupported request schema " ++ W.debug (request.val.schema.getD "") ++
          "; expected " ++ workspaceRequestSchema } id
  else if request.val.jsonrpc.any (· ≠ "2.0") then
    respondError
      { kind := "invalid_request"
        message := "unsupported JSON-RPC version " ++ W.debug (request.val.jsonrpc.getD "") ++
          "; expected \"2.0\"" } id
  else
    match request.idempotency P W with
    | .error message => respondError { kind := "invalid_params", message := message } id
    | .ok none => dispatchOpsApply P request none
    | .ok (some idempotency) => do
      match ← Program.read (·.cachedWorkspaceTransactionResponse idempotency.requestId
          idempotency.requestHash) with
      | .error message => respondError { kind := "invalid_request", message := message } id
      | .ok none => dispatchOpsApply P request (some idempotency)
      | .ok (some text) =>
        match W.readResponse text with
        | .ok response => return { response with id := id }
        | .error message =>
          respondError
            { kind := "method_error"
              message := "cached workspace response is invalid JSON: " ++ message } id

/-! ### Clients -/

/-- What clients ask for: operations, or another transaction on the database. -/
inductive ClientRequest (E : Engine) where
  | opsApply (request : OpsApplyRequest)
  | transaction (request : Request E)

/-- The program of a request. Transactions of other kinds are not answered here. -/
def workspaceCode (W : Wire E) :
    ClientRequest E → Program (WorkspaceDb W) (WorkspaceEvent E) (Option (WorkspaceResponse E))
  | .opsApply request => do
    let response ← executeWorkspaceRequest P request
    return some response
  | .transaction request =>
    Program.atomically fun s => (none, [], { s with db := perform P s.db request })

end CodeDb

import CodeDb.Lib.SortedMap
import CodeDb.Operations.Definitions
import CodeDb.Store.Branches

/-!
# The documents of workspace requests

A client asks for operations by a document: a batch, a transaction, or a single
operation, under one of several spellings of the root it expects. The request may
carry an id in one of several places, and is known by its method and parameters,
written canonically.

## Main definitions

* `WorkspaceRequest` — a request as it comes in
* `workspaceIdempotencyRequest` — the id of a request, and what it stands for
* `applyDocumentParam` — the document of a request, in one spelling

## Main results

* `requestHash_inj` — the text a request is known by tells its method and parameters
-/

namespace CodeDb

open SortOn

def workspaceRequestSchema : String := "codedb/request/v1"

def workspaceResponseSchema : String := "codedb/response/v1"

def workspaceTransactionSchema : String := "codedb/workspace-transaction/v1"

def applySchema : String := "codedb/apply/v1"

/-- A request of a client. -/
structure WorkspaceRequest where
  schema : Option String
  jsonrpc : Option String
  method : String
  params : JsonValue
  id : Option JsonValue
  requestId : Option String
  deriving DecidableEq

/-- The transaction form of a batch. -/
structure WorkspaceTransaction where
  schema : Option String
  branch : String
  expectedRootHash : Hash
  operations : List JsonValue
  agent : Option JsonValue

/-- What a request that carries an id is known by. -/
structure WorkspaceIdempotencyRequest where
  method : String
  requestId : String
  requestHash : String
  branch : String
  expectedRootHash : Option Hash
  deriving DecidableEq

/-! ### Fields of documents -/

namespace JsonValue

/-- The entries of an object, if a value is one. -/
def asObject? : JsonValue → Option (List (String × JsonValue))
  | .object entries => some entries
  | _ => none

/-- Remove a key of an object. -/
def removeKey (key : String) (entries : List (String × JsonValue)) : List (String × JsonValue) :=
  entries.filter fun e => e.1 ≠ key

end JsonValue

def paramsObject (params : JsonValue) : Except Error (List (String × JsonValue)) :=
  match params.asObject? with
  | some object => .ok object
  | none => .error "params must be a JSON object"

/-- An optional string under a key. -/
def optionalStr (object : List (String × JsonValue)) (key : String) :
    Except Error (Option String) :=
  match object.lookup key with
  | none => .ok none
  | some (.string s) => .ok (some s)
  | some _ => .error (key ++ " must be a string")

/-- The first of several keys that is there. -/
def optionalStrAny (object : List (String × JsonValue)) :
    List String → Except Error (Option String)
  | [] => .ok none
  | key :: keys => do
    match ← optionalStr object key with
    | some s => return some s
    | none => optionalStrAny object keys

/-- The spellings of the root a batch expects. -/
def rootAliases : List String :=
  ["expect_root_hash", "expected_root_hash", "expect_root", "expected_root"]

/-- The root named by the spellings an object uses, which must agree. -/
def collectExpectedRoot (object : List (String × JsonValue)) :
    List String → Option String → Except Error (Option String)
  | [], expected => .ok expected
  | key :: keys, expected =>
    match object.lookup key with
    | none => collectExpectedRoot object keys expected
    | some (.string value) =>
      if expected.any (· ≠ value) then .error "conflicting expected root aliases"
      else collectExpectedRoot object keys (some value)
    | some _ => .error (key ++ " must be a string")

/-- Spell the root a document expects in one way. -/
def normalizeApplyExpectedRootAliases (document : JsonValue) : Except Error JsonValue :=
  match document.asObject? with
  | none => .error "apply document must be an object"
  | some object => do
    let expected ← collectExpectedRoot object rootAliases none
    let rest := rootAliases.foldl (fun entries key => JsonValue.removeKey key entries) object
    return .object (match expected with
      | some root => SortedMap.insertEntry "expect_root_hash" (.string root) rest
      | none => rest)

/-- The root a document expects. -/
def expectedRootHashFromApplyDocument (document : JsonValue) : Except Error (Option String) :=
  match document.asObject? with
  | none => .error "apply document must be an object"
  | some object => optionalStrAny object rootAliases

/-- The branch a document is about. -/
def documentBranch (document : JsonValue) : String :=
  (JsonValue.asStr? (document.get? "branch")).getD mainBranch

/-- A transaction as a batch. -/
def WorkspaceTransaction.toDocument (transaction : WorkspaceTransaction) : JsonValue :=
  .object [("agent", transaction.agent.getD .null), ("branch", .string transaction.branch),
    ("expect_root_hash", .string transaction.expectedRootHash),
    ("operations", .array transaction.operations), ("schema", .string applySchema)]

section Documents

variable (debug : String → String)
  (transactionFromValue : JsonValue → Except Error WorkspaceTransaction)

/-- The batch that some parameters spell out. -/
def spelledDocument (params : JsonValue) (object : List (String × JsonValue)) :
    Except Error JsonValue :=
  match object.lookup "apply" with
  | some apply =>
    if apply.asObject?.isSome then .ok apply
    else .error "ops apply/preview field apply must be a JSON object"
  | none =>
    if JsonValue.asStr? (object.lookup "schema") = some workspaceTransactionSchema then
      match transactionFromValue params with
      | .error error =>
        .error ("workspace transaction must match " ++ workspaceTransactionSchema ++ ": " ++ error)
      | .ok transaction =>
        if transaction.schema.any (· ≠ workspaceTransactionSchema) then
          .error ("unsupported workspace transaction schema " ++
            debug (transaction.schema.getD "") ++ "; expected " ++ workspaceTransactionSchema)
        else .ok transaction.toDocument
    else .ok params

/-- The document of some parameters. -/
def applyDocumentParam (params : JsonValue) (requireExpectedRoot : Bool) :
    Except Error JsonValue := do
  let object ← paramsObject params
  let spelled ← spelledDocument debug transactionFromValue params object
  let document ← normalizeApplyExpectedRootAliases spelled
  if requireExpectedRoot && (← expectedRootHashFromApplyDocument document).isNone then
    .error "ops.apply requires a batch-level expected_root"
  else return document

/-- The branch and the expected root of some parameters, as far as they can be told. -/
def workspaceTransactionMetadata (params : JsonValue) : String × Option Hash :=
  match applyDocumentParam debug transactionFromValue params false with
  | .error _ => (mainBranch, none)
  | .ok document =>
    (documentBranch document,
      match expectedRootHashFromApplyDocument document with
      | .ok root => root
      | .error _ => none)

/-! ### Request ids -/

def validateRequestId (requestId : String) : Except Error String :=
  if requestId.toList.all Db.isWhitespace then .error "request_id must not be empty"
  else .ok requestId

def requestIdFromValue : Option JsonValue → Except Error (Option String)
  | none => .ok none
  | some (.string requestId) => some <$> validateRequestId requestId
  | some _ => .error "request_id must be a string"

/-- The first request id among some values. -/
def firstRequestId : List (Option JsonValue) → Except Error (Option String)
  | [] => .ok none
  | value :: values => do
    match ← requestIdFromValue value with
    | some requestId => return some requestId
    | none => firstRequestId values

/-- The id a request carries: its own, or one of its parameters, or one of the agent. -/
def workspaceRequestId (request : WorkspaceRequest) : Except Error (Option String) :=
  match request.requestId with
  | some requestId => some <$> validateRequestId requestId
  | none =>
    match request.params.asObject? with
    | none => .ok none
    | some object =>
      let agentId (value : Option JsonValue) : Option JsonValue :=
        (value.bind (·.get? "agent")).bind (·.get? "request_id")
      firstRequestId [object.lookup "request_id", object.lookup "idempotency_key",
        agentId (some request.params), agentId (object.lookup "apply")]

/-- The text a request is known by. -/
def requestHash (floatText : UInt64 → List Char) (request : WorkspaceRequest) : String :=
  canonicalJson floatText
    (.object [("method", .string request.method), ("params", request.params)])

/-- The text a request is known by tells its method and the text of its parameters. -/
theorem requestHash_inj {floatText : UInt64 → List Char} (floats : PlainFloats floatText)
    {request request' : WorkspaceRequest}
    (same : requestHash floatText request = requestHash floatText request') :
    request.method = request'.method ∧
      canonicalJson floatText request.params = canonicalJson floatText request'.params := by
  have texts := canonicalJson_object_inj floats same
  rw [sortOn_canonicalEntries (by simp only [List.map_cons, List.map_nil]; decide),
    sortOn_canonicalEntries (by simp only [List.map_cons, List.map_nil]; decide)] at texts
  simp only [canonicalEntries, List.cons.injEq, Prod.mk.injEq, true_and, and_true] at texts
  obtain ⟨methods, params⟩ := texts
  have method := canonicalChars_optionString_inj (s := some request.method)
    (t := some request'.method) methods
  exact ⟨Option.some.inj method, congrArg String.ofList params⟩

/-- What a request is known by, if it can be repeated and carries an id. -/
def workspaceIdempotencyRequest (floatText : UInt64 → List Char) (request : WorkspaceRequest) :
    Except Error (Option WorkspaceIdempotencyRequest) :=
  if request.method ≠ "ops.apply" then .ok none
  else do
    match ← workspaceRequestId request with
    | none => return none
    | some requestId =>
      let (branch, expectedRootHash) :=
        workspaceTransactionMetadata debug transactionFromValue request.params
      return some ⟨request.method, requestId, requestHash floatText request, branch,
        expectedRootHash⟩

end Documents

end CodeDb

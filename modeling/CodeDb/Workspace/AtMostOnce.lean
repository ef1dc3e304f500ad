import CodeDb.History.Chain
import CodeDb.Lib.Except
import CodeDb.Workspace.Serving

/-!
# At most once

The operations of a request that carries an id are meant to be committed once, every
answer to the id to be the one that was recorded with the commit, and a request that
reuses the id to be refused. Whether that holds is a matter of when requests are begun.

Nothing in the transaction keeps a second commit from happening. Whether a request has
been answered is looked up before its batch is applied, and not in the transaction that
applies it. Two clients that bring the same request can both come away from the lookup
with nothing. The second transaction then meets the answer of the first when it records
its own, which is taken for success; so the batch is committed again if its operations
apply again. A batch that renames a type and renames it back leaves the branch at the
root it expects, and does. If no two requests with one id are served at the same time,
the second finds the answer of the first, and none is committed twice.

## Main definitions

* `OneAtATime` — no two requests with one id are served at the same time
* `Undisturbed` — no other request that may move the branch of a request with an id is
* `HasWork` — no batch with an id is applied that comes to nothing
* `ReusesRecorded` — an id is reused only once an answer is recorded under it

## Main results

* `opsApply_at_most_once` — at most one commit for an id, one answer to it, and no
  other request under it
* `opsApply_commits_twice` — the run of two clients with one request
-/

namespace CodeDb

open Interleaving

section AtMostOnce

variable {E : Engine} {P : Primitives} {W : Wire E} {request : ClientRequest E}
  {s t : WorkspaceDb W} {events : List (WorkspaceEvent E)} {ι : Type}

/-! ### Commits -/

/-- The ids under which batches were committed. -/
def committedIds (events : List (WorkspaceEvent E)) : List String :=
  (commits events).map (·.1.requestId)

theorem mem_committedIds {requestId : String} :
    requestId ∈ committedIds events ↔
      ∃ known response, (known, response) ∈ commits events ∧ known.requestId = requestId := by
  simp [committedIds]

/-- Batches are committed once for an id, and the recorded answers are theirs. -/
structure Commits (events : List (WorkspaceEvent E)) (s : WorkspaceDb W) : Prop where
  recorded : ∀ known response, (known, response) ∈ commits events → s.Recorded known response
  rows : ∀ requestId row, s.workspaceTransactions.lookup requestId = some row →
    requestId ∈ committedIds events
  once : (committedIds events).Nodup

/-- A move keeps what is known of commits. -/
theorem Commits.move {past : List (WorkspaceEvent E)} (committed : Commits past s)
    (move : WorkspaceMove P request s events t) : Commits (past ++ events) t := by
  have lasts : ∀ known response, (known, response) ∈ commits past → t.Recorded known response := by
    intro known response told
    obtain ⟨row, there, rest⟩ := committed.recorded known response told
    exact ⟨row, move.rows _ row there, rest⟩
  have append : committedIds (past ++ events) = committedIds past ++ committedIds events := by
    simp [committedIds]
  rcases move.events with ⟨same, quiet⟩ | ⟨known, response, -, told, fresh, new, others⟩
  · have none : committedIds events = [] := by rw [committedIds, quiet, List.map_nil]
    refine ⟨fun known response told => ?_, fun requestId row found => ?_, ?_⟩
    · rw [commits_append, quiet, List.append_nil] at told
      exact lasts known response told
    · rw [append, none, List.append_nil]
      exact committed.rows requestId row (same ▸ found)
    · rw [append, none, List.append_nil]
      exact committed.once
  · have one : committedIds events = [known.requestId] := by rw [committedIds, told]; rfl
    -- the id is fresh, so it is not among those committed before
    have unused : known.requestId ∉ committedIds past := by
      intro told
      obtain ⟨known', response', told, same⟩ := mem_committedIds.mp told
      obtain ⟨row, there, -⟩ := committed.recorded known' response' told
      rw [same, fresh] at there
      exact nomatch there
    refine ⟨fun known' response' mem => ?_, fun requestId row found => ?_, ?_⟩
    · rw [commits_append, told] at mem
      rcases List.mem_append.mp mem with old | here
      · exact lasts known' response' old
      · obtain ⟨rfl, rfl⟩ := Prod.mk.inj (List.mem_singleton.mp here)
        exact new
    · rw [append, one]
      by_cases same : requestId = known.requestId
      · exact List.mem_append_right _ (List.mem_singleton.mpr same)
      · exact List.mem_append_left _
          (committed.rows requestId row ((others _ same).symm.trans found))
    · rw [append, one]
      exact committed.once.append (List.nodup_singleton _) (by simpa using unused)

/-! ### Schedules -/

/-- A run of clients of the database. -/
abbrev WorkspaceTrace (ι : Type) (W : Wire E) :=
  Trace ι (ClientRequest E) (WorkspaceDb W) (WorkspaceEvent E) (Option (WorkspaceResponse E))

/-- The database and its clients. -/
abbrev WorkspaceConfig (ι : Type) (W : Wire E) :=
  Config ι (ClientRequest E) (WorkspaceDb W) (WorkspaceEvent E) (Option (WorkspaceResponse E))

/-- Clients that have not begun, and a database with no recorded answers. -/
def workspaceStart (ι : Type) (W : Wire E) (db : Db) : WorkspaceConfig ι W :=
  ⟨⟨db, ∅⟩, fun _ => none⟩

/-- The parameters of two requests are spelled alike. -/
def SameParams (P : Primitives) (ops other : OpsApplyRequest) : Prop :=
  canonicalJson P.floatText ops.val.params = canonicalJson P.floatText other.val.params

namespace WorkspaceTrace

variable (P) (trace : WorkspaceTrace ι W)

/-- The first request that came with an id. -/
def firstWith (requestId : String) : Option OpsApplyRequest :=
  trace.started.findSome? fun
    | .opsApply ops =>
      if (ClientRequest.opsApply ops : ClientRequest E).requestId P W = some requestId then some ops
      else none
    | .transaction _ => none

/-- No two requests with one id are served at the same time. -/
def OneAtATime [DecidableEq ι] : Prop := Trace.Apart (DistinctIds P W) (fun _ => none) trace

/-- While a request that carries an id is served, no other one is that may move the branch
which it may move. -/
def Undisturbed [DecidableEq ι] : Prop := Trace.Apart (ApartBranches P W) (fun _ => none) trace

/-- When the batch of a request that carries an id is applied, not all of its operations
have been applied already. -/
def HasWork : Prop :=
  ∀ s client request events, (s, .act client request events) ∈ trace →
    ∀ event ∈ events, WorkspaceEvent.HasWork P s event

/-- A request whose parameters are not those of the first with its id is begun only once an
answer is recorded under the id. -/
def ReusesRecorded : Prop :=
  ∀ s client ops requestId first, (s, .start client (.opsApply ops)) ∈ trace →
    (ClientRequest.opsApply ops : ClientRequest E).requestId P W = some requestId →
    trace.firstWith P requestId = some first → ¬ SameParams P ops first →
    s.workspaceTransactions.lookup requestId ≠ none

end WorkspaceTrace

section Runs

variable [DecidableEq ι] {db : Db} {trace : WorkspaceTrace ι W} {c : WorkspaceConfig ι W}
  {work calm : Prop}

omit [DecidableEq ι] in
theorem workspaceStart_safe (ι : Type) (W : Wire E) (db : Db) :
    (workspaceStart ι W db).Safe (workspaceProtocol P W work calm) (WorkspacePost P W work calm) :=
  .idle trivial fun _ => rfl

/-- A run that is as asked is one the protocol is about. -/
theorem WorkspaceTrace.admitted (one : trace.OneAtATime P) (worked : work → trace.HasWork P)
    (undisturbed : calm → trace.Undisturbed P) :
    (workspaceProtocol P W work calm).Admits (fun _ => none) trace where
  careful step mem := by
    obtain ⟨s, label⟩ := step
    cases label with
    | act client request events => exact fun asked => worked asked s client request events mem
    | start | finish => trivial
  apart := by
    by_cases asked : calm
    · exact (one.and (undisturbed asked)).mono fun _ _ both => ⟨both.1, fun _ => both.2⟩
    · exact one.mono fun _ _ distinct => ⟨distinct, fun asked' => absurd asked' asked⟩

/-- What was committed is what is recorded, along the whole run. -/
theorem commits_of_run (reads : W.ReadsResponses)
    (run : Run (workspaceCode P W) (workspaceStart ι W db) trace c) (one : trace.OneAtATime P) :
    Commits trace.events c.shared := by
  have start : Commits [] (workspaceStart ι W db).shared :=
    ⟨fun _ _ told => absurd told List.not_mem_nil,
      fun requestId row found => by simp [workspaceStart] at found, List.nodup_nil⟩
  exact run.history (D := workspaceProtocol P W False False) (workspaceCode_safe reads)
    (workspaceStart_safe ι W db) (WorkspaceTrace.admitted one nofun nofun) start
    fun _ _ _ _ _ _ _ move committed => committed.move move

/-! ### Whose an id is -/

namespace WorkspaceTrace

variable {trace' : WorkspaceTrace ι W} {requestId : String} {ops first : OpsApplyRequest}

omit [DecidableEq ι] in
theorem firstWith_of_mem (begun : .opsApply ops ∈ trace.started)
    (carries : (ClientRequest.opsApply ops : ClientRequest E).requestId P W = some requestId) :
    ∃ first, trace.firstWith P requestId = some first := by
  refine Option.isSome_iff_exists.mp (List.findSome?_isSome_iff.mpr ⟨.opsApply ops, begun, ?_⟩)
  simp [carries]

omit [DecidableEq ι] in
theorem firstWith_of_started {rest : List (ClientRequest E)}
    (started : trace.started = .opsApply ops :: rest)
    (carries : (ClientRequest.opsApply ops : ClientRequest E).requestId P W = some requestId) :
    trace.firstWith P requestId = some ops := by
  rw [firstWith, started, List.findSome?_cons]
  simp [carries]

omit [DecidableEq ι] in
/-- The first request with an id is the first of every longer run. -/
theorem firstWith_append (found : trace.firstWith P requestId = some first) :
    WorkspaceTrace.firstWith P (trace ++ trace') requestId = some first := by
  unfold firstWith at found ⊢
  rw [Trace.started_append, List.findSome?_append, found]
  rfl

omit [DecidableEq ι] in
theorem HasWork.append (worked : trace.HasWork P) (worked' : trace'.HasWork P) :
    WorkspaceTrace.HasWork P (trace ++ trace') := by
  intro s client request events acted
  rcases List.mem_append.mp acted with acted | acted
  · exact worked s client request events acted
  · exact worked' s client request events acted

omit [DecidableEq ι] in
theorem ReusesRecorded.of_prefix (recorded : trace'.ReusesRecorded P) (earlier : trace <+: trace') :
    trace.ReusesRecorded P := by
  obtain ⟨rest, rfl⟩ := earlier
  intro s client ops requestId first begun carries found differs
  exact recorded s client ops requestId first (List.mem_append_left _ begun) carries
    (firstWith_append found) differs

end WorkspaceTrace

theorem requestHash_of_idempotency {ops : OpsApplyRequest} {known : WorkspaceIdempotencyRequest}
    (carries : ops.idempotency P W = .ok (some known)) :
    known.requestHash = requestHash P.floatText ops.val := by
  unfold OpsApplyRequest.idempotency workspaceIdempotencyRequest at carries
  rw [if_neg (not_not.mpr ops.property)] at carries
  obtain ⟨requestId, -, carries⟩ := Except.bind_eq_ok.mp carries
  cases requestId with
  | none => exact nomatch carries
  | some requestId =>
    obtain rfl := Option.some.inj (Except.ok.inj carries)
    rfl

/-- An id is the first request's that came with it: an answer is recorded under it only for
its parameters, and until then nothing else was begun under it. -/
structure Owned (P : Primitives) (trace : WorkspaceTrace ι W) (s : WorkspaceDb W) : Prop where
  rows : ∀ requestId row, s.workspaceTransactions.lookup requestId = some row →
    ∃ first ops, trace.firstWith P requestId = some first ∧ SameParams P ops first ∧
      row.requestHash = requestHash P.floatText ops.val
  agree : ∀ requestId ops first, s.workspaceTransactions.lookup requestId = none →
    .opsApply ops ∈ trace.started →
    (ClientRequest.opsApply ops : ClientRequest E).requestId P W = some requestId →
    trace.firstWith P requestId = some first → SameParams P ops first

omit [DecidableEq ι] in
/-- Beginning a request keeps whose the ids are, if it reuses one only once an answer is
recorded under it. -/
theorem Owned.start {client : ι} (owned : Owned P trace s)
    (recorded : WorkspaceTrace.ReusesRecorded P (trace ++ [(s, .start client request)])) :
    Owned P (trace ++ [(s, .start client request)]) s where
  rows requestId row found := by
    obtain ⟨first, ops, found, rest⟩ := owned.rows requestId row found
    exact ⟨first, ops, WorkspaceTrace.firstWith_append found, rest⟩
  agree requestId ops first absent begun carries found := by
    rw [Trace.started_append] at begun
    rcases List.mem_append.mp begun with old | new
    · obtain ⟨first', found'⟩ := WorkspaceTrace.firstWith_of_mem old carries
      obtain rfl := Option.some.inj
        ((WorkspaceTrace.firstWith_append found').symm.trans found)
      exact owned.agree requestId ops first' absent old carries found'
    · obtain rfl : ClientRequest.opsApply ops = request := List.mem_singleton.mp new
      by_contra differs
      exact recorded s client ops requestId first (by simp) carries found differs absent

omit [DecidableEq ι] in
/-- An action keeps whose the ids are, as what is recorded is the request's own. -/
theorem Owned.move {client : ι} (owned : Owned P trace s) (begun : request ∈ trace.started)
    (move : WorkspaceMove P request s events t) :
    Owned P (trace ++ [(s, .act client request events)]) t := by
  have same : Trace.started (trace ++ [(s, .act client request events)]) = trace.started := by
    rw [Trace.started_append]
    exact List.append_nil _
  have firsts : ∀ requestId, WorkspaceTrace.firstWith P
      (trace ++ [(s, .act client request events)]) requestId = trace.firstWith P requestId := by
    intro requestId
    rw [WorkspaceTrace.firstWith, same]
    rfl
  refine ⟨fun requestId row found => ?_, fun requestId ops first absent listed carries first' => ?_⟩
  · rw [firsts]
    rcases move.events with ⟨unchanged, -⟩ | ⟨known, response, carries, -, fresh, new, others⟩
    · exact owned.rows requestId row (unchanged ▸ found)
    · by_cases own : requestId = known.requestId
      · subst own
        obtain ⟨row', found', hash, -⟩ := new
        obtain rfl := Option.some.inj (found'.symm.trans found)
        cases request with
        | transaction => exact absurd carries (by simp [ClientRequest.known])
        | opsApply ops =>
          have brought : (ClientRequest.opsApply ops : ClientRequest E).requestId P W =
              some known.requestId := by
            rw [ClientRequest.requestId, carries]
            rfl
          obtain ⟨first, found⟩ := WorkspaceTrace.firstWith_of_mem begun brought
          refine ⟨first, ops, found, owned.agree _ ops first fresh begun brought found, ?_⟩
          rw [hash, requestHash_of_idempotency (idempotency_of_known carries)]
      · exact owned.rows requestId row ((others _ own).symm.trans found)
  · rw [same] at listed
    rw [firsts] at first'
    refine owned.agree requestId ops first ?_ listed carries first'
    by_contra there
    obtain ⟨row, found⟩ := Option.ne_none_iff_exists'.mp there
    exact absurd (absent.symm.trans (move.rows requestId row found)) (by simp)

omit [DecidableEq ι] in
theorem Owned.finish {client : ι} {result : Option (WorkspaceResponse E)}
    (owned : Owned P trace s) : Owned P (trace ++ [(s, .finish client request result)]) s := by
  have same : Trace.started (trace ++ [(s, .finish client request result)]) = trace.started := by
    rw [Trace.started_append]
    exact List.append_nil _
  refine ⟨fun requestId row found => ?_, fun requestId ops first => ?_⟩
  · rw [WorkspaceTrace.firstWith, same]
    exact owned.rows requestId row found
  · rw [WorkspaceTrace.firstWith, same]
    exact owned.agree requestId ops first

/-- Ids have owners along the whole run. -/
theorem owned_of_run (reads : W.ReadsResponses)
    (run : Run (workspaceCode P W) (workspaceStart ι W db) trace c) (one : trace.OneAtATime P)
    (recorded : trace.ReusesRecorded P) : Owned P trace c.shared := by
  induction run with
  | refl =>
    exact ⟨fun requestId row found => by simp [workspaceStart] at found,
      fun _ _ _ _ begun => absurd begun List.not_mem_nil⟩
  | @step trace mid after label before step ih =>
    have earlier : trace <+: trace ++ [(mid.shared, label)] := List.prefix_append _ _
    have one' : WorkspaceTrace.OneAtATime P trace := one.of_prefix earlier
    have owned := ih one' (recorded.of_prefix earlier)
    cases label with
    | start client request =>
      have same : after.shared = mid.shared := by
        cases step
        rfl
      rw [same]
      exact owned.start recorded
    | act client request events =>
      have safe := before.safe (D := workspaceProtocol P W False False) (workspaceCode_safe reads)
        (workspaceStart_safe ι W db) (WorkspaceTrace.admitted one' nofun nofun)
      have move := step.effect safe nofun
      cases step with
      | act busy => exact owned.move (before.mem_started (fun _ => rfl) busy) move
    | finish client request result =>
      have same : after.shared = mid.shared := by
        cases step
        rfl
      rw [same]
      exact owned.finish

omit [DecidableEq ι] in
/-- A request with other parameters than the first with its id reuses the id, however far it
is served. -/
theorem Owned.reuses (floats : PlainFloats P.floatText) (owned : Owned P trace s)
    {ops first : OpsApplyRequest} {requestId : String} (begun : .opsApply ops ∈ trace.started)
    (carries : (ClientRequest.opsApply ops : ClientRequest E).requestId P W = some requestId)
    (found : trace.firstWith P requestId = some first) (differs : ¬ SameParams P ops first) :
    (ClientRequest.opsApply ops).Reuses P s := by
  obtain ⟨row, there⟩ := Option.ne_none_iff_exists'.mp fun absent =>
    differs (owned.agree requestId ops first absent begun carries found)
  obtain ⟨known, knows, rfl⟩ := Option.map_eq_some_iff.mp carries
  refine ⟨known, row, knows, there, fun same => ?_⟩
  obtain ⟨first', owner, found', alike, hash⟩ := owned.rows _ row there
  obtain rfl := Option.some.inj (found.symm.trans found')
  -- the row is that of a request with the parameters of the first
  rw [hash, requestHash_of_idempotency (idempotency_of_known knows)] at same
  exact differs ((requestHash_inj floats same).2.symm.trans alike)

end Runs

end AtMostOnce

/-! ### A batch that comes back -/

/-- The batch that renames a type and renames it back. -/
def thereAndBack : ApplyBatch typeNaming where
  schema := none
  branch := mainBranch
  expectRootHash := some (hashNamed (some "Point"))
  agent := none
  operations := [TypeNaming.renameType "Point" "Pair", TypeNaming.renameType "Pair" "Point"]

/-- The parameters that spell the batch out. -/
def thereAndBackEntries : List (String × JsonValue) :=
  [("branch", .string "main"), ("expect_root_hash", .string (hashNamed (some "Point"))),
    ("operations", .array
      [(TypeNaming.renameType "Point" "Pair").toValue,
        (TypeNaming.renameType "Pair" "Point").toValue])]

def thereAndBackParams : JsonValue := .object thereAndBackEntries

/-- Reads the one batch there is, and keeps answers as they are. -/
def renameWire : Wire typeNaming where
  Text := WorkspaceResponse typeNaming
  writeResponse := id
  readResponse := .ok
  transactionFromValue _ := .error shapeError
  batchFromValue _ := .ok thereAndBack
  operationFromValue _ := .error shapeError
  debug := id
  conditionName := nofun
  summaryKind _ := "rename_type"
  summaryDisplay _ := "rename_type"

/-- A request for the batch, with an id. -/
def thereAndBackRequest : OpsApplyRequest :=
  ⟨⟨none, none, "ops.apply", thereAndBackParams, none, some "there-and-back"⟩, rfl⟩

/-- What the request is known by. -/
def thereAndBackKnown : WorkspaceIdempotencyRequest :=
  ⟨"ops.apply", "there-and-back", requestHash plain.floatText thereAndBackRequest.val, "main",
    some (hashNamed (some "Point"))⟩

theorem thereAndBack_expected : expectedRootHashFromApplyDocument thereAndBackParams =
    .ok (some (hashNamed (some "Point"))) := by
  simp [thereAndBackParams, thereAndBackEntries, JsonValue.asObject?, rootAliases,
    expectedRootHashFromApplyDocument, optionalStrAny, optionalStr, bind, Except.bind, pure,
    Except.pure, List.lookup_cons]

/-- The document spells the expected root as it is to be spelled. -/
theorem thereAndBack_normalized :
    normalizeApplyExpectedRootAliases thereAndBackParams = .ok thereAndBackParams := by
  have first : ¬ "expect_root_hash" < "branch" := by decide
  have second : "expect_root_hash" < "operations" := by decide
  simp [normalizeApplyExpectedRootAliases, thereAndBackParams, thereAndBackEntries,
    JsonValue.asObject?, collectExpectedRoot, rootAliases, JsonValue.removeKey, bind, Except.bind,
    pure, Except.pure, List.lookup_cons]
  rw [SortedMap.insertEntry, if_neg first, if_neg (by decide), SortedMap.insertEntry, if_pos second]

theorem thereAndBack_document (required : Bool) :
    applyDocumentParam renameWire.debug renameWire.transactionFromValue thereAndBackParams
      required = .ok thereAndBackParams := by
  have spelled : spelledDocument renameWire.debug renameWire.transactionFromValue thereAndBackParams
      thereAndBackEntries = .ok thereAndBackParams := by
    simp [spelledDocument, thereAndBackEntries, List.lookup_cons, JsonValue.asStr?]
  have object : paramsObject thereAndBackParams = .ok thereAndBackEntries := rfl
  simp [applyDocumentParam, object, spelled, thereAndBack_normalized, thereAndBack_expected, bind,
    Except.bind, pure, Except.pure]

theorem thereAndBack_known :
    thereAndBackRequest.idempotency plain renameWire = .ok (some thereAndBackKnown) := by
  have validated : validateRequestId "there-and-back" = .ok "there-and-back" := by decide
  have branch : documentBranch thereAndBackParams = "main" := by
    simp [documentBranch, thereAndBackParams, thereAndBackEntries, JsonValue.get?, JsonValue.asStr?]
  simp [OpsApplyRequest.idempotency, workspaceIdempotencyRequest, thereAndBackRequest,
    workspaceRequestId, validated, thereAndBackKnown, workspaceTransactionMetadata,
    thereAndBack_document, thereAndBack_expected, branch, bind, Except.bind, pure, Except.pure,
    Functor.map, Except.map]

theorem thereAndBack_parsed :
    WorkspaceDb.parseApplyJsonRequest plain renameWire
      (canonicalJson plain.floatText thereAndBackParams) = .ok thereAndBack := by
  have sorted : (thereAndBackEntries.map (·.1)).Pairwise (· < ·) := by
    simp only [thereAndBackEntries, List.map]
    decide
  have read : plain.parseJson (canonicalJson plain.floatText thereAndBackParams) =
      .ok (.object (readBackEntries plain.floatText thereAndBackEntries)) :=
    plain_reads.mpr (readBack_object sorted).symm
  have operations :
      ((readBackEntries plain.floatText thereAndBackEntries).lookup
        "operations").isSome = true := by
    simp [thereAndBackEntries, readBackEntries, List.lookup_cons]
  unfold WorkspaceDb.parseApplyJsonRequest
  rw [read]
  simp only [WorkspaceDb.inContext, Except.mapError, bind, Except.bind, JsonValue.asObject?,
    operations, if_true]
  rfl

/-- A request for something else, with the same id. -/
def otherRequest : OpsApplyRequest :=
  ⟨⟨none, none, "ops.apply", .object [], none, some "there-and-back"⟩, rfl⟩

/-- What the other request is known by. -/
def otherKnown : WorkspaceIdempotencyRequest :=
  ⟨"ops.apply", "there-and-back", requestHash plain.floatText otherRequest.val, "main", none⟩

theorem other_known : otherRequest.idempotency plain renameWire = .ok (some otherKnown) := by
  have validated : validateRequestId "there-and-back" = .ok "there-and-back" := by decide
  have branch : documentBranch (.object []) = "main" := rfl
  have document : applyDocumentParam renameWire.debug renameWire.transactionFromValue (.object [])
      false = .ok (.object []) := rfl
  have expected : expectedRootHashFromApplyDocument (.object []) = .ok none := rfl
  simp [OpsApplyRequest.idempotency, workspaceIdempotencyRequest, otherRequest,
    workspaceRequestId, validated, otherKnown, workspaceTransactionMetadata, document, expected,
    branch, bind, Except.bind, pure, Except.pure, Functor.map, Except.map]

theorem not_sameParams : ¬ SameParams plain otherRequest thereAndBackRequest := by
  intro same
  have texts := congrArg List.length (canonicalJson_object_inj plain_reliable.floats same)
  rw [sortOn_canonicalEntries (by simp), sortOn_canonicalEntries (by
    simp only [thereAndBackEntries, List.map]
    decide)] at texts
  exact absurd texts (by simp [canonicalEntries, thereAndBackEntries])

/-! ### Serving the request -/

section Serving

variable {E : Engine} {W : Wire E} {α β : Type} {kind : String} {s t u : WorkspaceDb W} {a : α}
  {allowed : WorkspaceDb W → List (WorkspaceEvent E) → Prop} {events : List (WorkspaceEvent E)}
  {left : Program (WorkspaceDb W) (WorkspaceEvent E) (Except (WorkspaceMethodError E) β)}

/-- A method goes on with what it has. -/
theorem acts_orMethodError (f : α → MethodM W β) {x : Except Error α} (got : x = .ok a)
    (rest : Program.Acts allowed (f a) s events left t) :
    Program.Acts allowed (orMethodError kind x >>= f : MethodM W β) s events left t := by
  subst got
  exact rest

/-- A method goes on with what it found. -/
theorem acts_lookUp (f : α → MethodM W β) {query : WorkspaceDb W → Except Error α}
    (quiet : allowed s []) (found : query s = .ok a)
    (rest : Program.Acts allowed (f a) s events left t) :
    Program.Acts allowed (lookUp kind query >>= f : MethodM W β) s events left t := by
  refine .act quiet ?_
  show Program.Acts allowed (orMethodError kind (query s) >>= f : MethodM W β) s events left t
  exact acts_orMethodError f found rest

/-- A method goes on with what came of an action. -/
theorem acts_lift (f : α → MethodM W β) (change : WorkspaceDb W → α × List (WorkspaceEvent E) ×
    WorkspaceDb W) (told : List (WorkspaceEvent E)) (came : change s = (a, told, u))
    (fine : allowed s told) (rest : Program.Acts allowed (f a) u events left t) :
    Program.Acts allowed (ExceptT.lift (Program.atomically change) >>= f : MethodM W β) s
      (told ++ events) left t := by
  have told' : (change s).2.1 = told := by rw [came]
  subst told'
  refine .act fine ?_
  show Program.Acts allowed (f (change s).1) (change s).2.2 events left t
  rw [came]
  exact rest

/-- A method goes on with the branch it found a batch was for. -/
theorem acts_snapshotAfter (f : WorkspaceSnapshot → MethodM W β) {result : ApplyResult E}
    {snapshot : WorkspaceSnapshot} (quiet : allowed s [])
    (found : s.workspaceSnapshot result.branch = .ok snapshot)
    (rest : Program.Acts allowed (f snapshot) s events left t) :
    Program.Acts allowed (snapshotAfter result >>= f : MethodM W β) s events left t := by
  refine .act quiet ?_
  show Program.Acts allowed ((tryCatch (orMethodError "method_error"
    (s.workspaceSnapshot result.branch)) fun _ => lookUp "method_error"
      (·.workspaceSnapshot mainBranch)) >>= f : MethodM W β) s events left t
  rw [found]
  exact rest

/-- A batch that is committed and did not fail is answered with its result. -/
theorem answerApplied_committed {known : Option WorkspaceIdempotencyRequest}
    {result : ApplyResult E} {snapshot : WorkspaceSnapshot} (committed : result.committed = true)
    (fine : applyResultWorkspaceError W result snapshot = none) :
    (answerApplied known result snapshot : MethodM W _) = pure ⟨result, [], snapshot⟩ := by
  unfold answerApplied
  rw [if_pos committed, fine]
  rfl

end Serving

/-- Recording an answer under an id of the request's own is taken for success, whether or
not an answer is there. -/
theorem recordWorkspaceTransactionResponse_known {E : Engine} {W : Wire E} {s : WorkspaceDb W}
    {known : WorkspaceIdempotencyRequest}
    (own : ∀ row, s.workspaceTransactions.lookup known.requestId = some row →
      row.requestHash = known.requestHash) (text : W.Text) :
    ∃ t row, s.recordWorkspaceTransactionResponse known text = .ok t ∧ t.db = s.db ∧
      t.workspaceTransactions.lookup known.requestId = some row ∧
      row.requestHash = known.requestHash ∧
      (s.workspaceTransactions.lookup known.requestId = none → row.responseJson = text) := by
  let row : WorkspaceTransactionRow W :=
    ⟨known.requestHash, known.method, known.branch, known.expectedRootHash, text⟩
  let stored := (s.workspaceTransactions.lookup known.requestId).getD row
  have hash : stored.requestHash = known.requestHash := by
    cases there : s.workspaceTransactions.lookup known.requestId with
    | none => simp only [stored, there, Option.getD_none, row]
    | some row' =>
      simp only [stored, there, Option.getD_some]
      exact own row' there
  have found : (insertOrIgnore s.workspaceTransactions known.requestId row).lookup known.requestId =
      some stored := lookup_insertOrIgnore_self s.workspaceTransactions known.requestId row
  refine ⟨⟨s.db, insertOrIgnore s.workspaceTransactions known.requestId row⟩, stored, ?_, rfl,
    found, hash, fun absent => ?_⟩
  · unfold WorkspaceDb.recordWorkspaceTransactionResponse
    dsimp only
    rw [found]
    exact if_neg (not_not.mpr hash)
  · simp only [stored, absent, Option.getD_none, row]

/-- The database is at the named root, and the id is free or known. -/
structure Ready (s : WorkspaceDb renameWire) : Prop where
  here : AtNamed s.db mainBranch (some "Point")
  free : ∀ row, s.workspaceTransactions.lookup thereAndBackKnown.requestId = some row →
    row.requestHash = thereAndBackKnown.requestHash

/-- The answer to the request is recorded. -/
def AnswerRecorded (s : WorkspaceDb renameWire) (response : WorkspaceResponse typeNaming) : Prop :=
  ∃ row, s.workspaceTransactions.lookup thereAndBackKnown.requestId = some row ∧
    row.requestHash = thereAndBackKnown.requestHash ∧ row.responseJson = response

variable {s : WorkspaceDb renameWire}

/-- The transaction commits, whether or not an answer is recorded already. -/
theorem Ready.applyWithCommitHook (ready : Ready s) :
    ∃ result snapshot t, s.applyWithCommitHook plain (some thereAndBackKnown) thereAndBack =
        (.ok result, [.committed thereAndBackKnown (.ok result [] snapshot none)], t) ∧ Ready t ∧
      result.committed = true ∧ t.workspaceSnapshot result.branch = .ok snapshot ∧
      applyResultWorkspaceError renameWire result snapshot = none ∧
      (s.workspaceTransactions.lookup thereAndBackKnown.requestId = none →
        AnswerRecorded t (.ok result [] snapshot none)) := by
  obtain ⟨history, found⟩ := ready.here.state
  obtain ⟨report, report', after, applied, back⟩ :=
    ready.here.applyOperations (show "Point" ≠ "Pair" by decide) none
  obtain ⟨history', found'⟩ := back.state
  let result := applyResult thereAndBack ⟨hashNamed (some "Point"), history⟩
    ⟨hashNamed (some "Point"), history'⟩ true (.finished [.applied report, .applied report'])
  let snapshot : WorkspaceSnapshot := ⟨"main", hashNamed (some "Point"), history'⟩
  have batch : s.db.applyBatchInTx plain renameWire.debug thereAndBack =
      .ok (result, true, after) :=
    Except.bind_eq_ok.mpr ⟨_, found, Except.bind_eq_ok.mpr ⟨_, applied,
      Except.bind_eq_ok.mpr ⟨_, found', rfl⟩⟩⟩
  have answer : WorkspaceDb.workspaceSnapshot { s with db := after } mainBranch = .ok snapshot :=
    Except.bind_eq_ok.mpr ⟨_, found', rfl⟩
  obtain ⟨t, row, recorded, same, there, hash, text⟩ := recordWorkspaceTransactionResponse_known
    (s := { s with db := after }) ready.free (.ok result [] snapshot none)
  refine ⟨result, snapshot, t, ?_, ⟨same ▸ back, fun row' found => ?_⟩, rfl, ?_, rfl, fun absent =>
    ⟨row, there, hash, text absent⟩⟩
  · unfold WorkspaceDb.applyWithCommitHook
    rw [batch]
    dsimp only
    rw [show WorkspaceDb.recordIdempotentApplyResponse { s with db := after } thereAndBackKnown
      result = .ok (.ok result [] snapshot none, t) from
        Except.bind_eq_ok.mpr ⟨_, answer, Except.bind_eq_ok.mpr ⟨_, recorded, rfl⟩⟩]
  · obtain rfl := Option.some.inj (there.symm.trans found)
    exact hash
  · unfold WorkspaceDb.workspaceSnapshot
    rw [same]
    exact answer

/-- Initializing leaves a database ready. -/
theorem Ready.ensureInitialized (ready : Ready s) :
    ∃ root after, s.db.ensureInitialized plain typeNaming = .ok (root, after) ∧
      Ready { s with db := after } := by
  obtain ⟨history, found⟩ := ready.here.branch
  have grows := grows_putObject (P := plain) s.db.objects "ProgramRoot" (rootToValue .empty)
  refine ⟨objectHash plain "ProgramRoot" (rootToValue .empty), { s.db with objects :=
    (putObject plain s.db.objects "ProgramRoot" (rootToValue .empty)).2 }, ?_,
    ⟨grows.addressed ready.here.addressed, ready.here.stored.grow grows, history, found⟩,
      ready.free⟩
  refine Except.bind_eq_ok.mpr ⟨_, putProgramRoot_empty _, Except.bind_eq_ok.mpr ⟨_, rfl, ?_⟩⟩
  simp only [found, Option.isSome_some, if_true]
  rfl

/-- The batch has work to do. -/
theorem Ready.hasWork (ready : Ready s) :
    WorkspaceEvent.HasWork plain s (.applying thereAndBackKnown thereAndBack) := by
  rintro ⟨⟨branch, op, report, commit, after, found, read, run⟩, -⟩
  obtain ⟨history, found'⟩ := ready.here.state
  obtain rfl := Except.ok.inj (found'.symm.trans found)
  obtain rfl : TypeNaming.renameType "Point" "Pair" = op := Except.ok.inj read
  obtain ⟨report', after', run', -⟩ := ready.here.applyAndRecordOnBranch
    (.renameType "Point" "Pair") (by decide) none
  exact nomatch run'.symm.trans run

section Acts

variable {allowed : WorkspaceDb renameWire → List (WorkspaceEvent typeNaming) → Prop}
  (quiet : ∀ u, allowed u [])
  (commits : ∀ u response, Ready u → u.workspaceTransactions = s.workspaceTransactions →
    allowed u [.applying thereAndBackKnown thereAndBack, .committed thereAndBackKnown response])
include quiet commits

/-- The batch is applied and committed, whatever comes after it. -/
theorem Ready.acts_apply (ready : Ready s) {β : Type} (f : ApplyResult typeNaming →
    MethodM renameWire β) :
    ∃ result snapshot t, Program.Acts allowed (applyJsonStrWithCommitHook plain
      (some thereAndBackKnown) (canonicalJson plain.floatText thereAndBackParams) >>= f :
        MethodM renameWire β) s [.applying thereAndBackKnown thereAndBack,
          .committed thereAndBackKnown (.ok result [] snapshot none)] (f result) t ∧ Ready t ∧
      result.committed = true ∧ t.workspaceSnapshot result.branch = .ok snapshot ∧
      applyResultWorkspaceError renameWire result snapshot = none ∧
      (s.workspaceTransactions.lookup thereAndBackKnown.requestId = none →
        AnswerRecorded t (.ok result [] snapshot none)) := by
  obtain ⟨root, after, initialized, ready'⟩ := ready.ensureInitialized
  obtain ⟨result, snapshot, t, committed, rest⟩ := ready'.applyWithCommitHook
  refine ⟨result, snapshot, t, ?_, rest⟩
  have done : Program.Acts allowed (f result) t [] (f result) t := .refl _ _
  unfold applyJsonStrWithCommitHook
  simp only [bind_assoc]
  refine acts_lift _ _ [] (u := { s with db := after }) (a := (.ok () : Except Error Unit))
    (by rw [initialized]) (quiet s) ?_
  refine acts_orMethodError _ rfl (acts_orMethodError _ thereAndBack_parsed ?_)
  exact acts_lift _ _ [_, _] (by rw [committed]; rfl) (commits _ _ ready' rfl)
    (acts_orMethodError _ rfl done)

/-- Served from there, the request is committed and answered. -/
theorem Ready.acts (ready : Ready s) :
    ∃ response t, Program.Acts allowed
      (dispatchOpsApply plain thereAndBackRequest (some thereAndBackKnown)) s
      [.applying thereAndBackKnown thereAndBack, .committed thereAndBackKnown response]
      (.done response) t ∧ response.status = "ok" ∧ Ready t ∧
      (s.workspaceTransactions.lookup thereAndBackKnown.requestId = none →
        AnswerRecorded t response) := by
  obtain ⟨history, found⟩ := ready.here.state
  have branch : documentBranch thereAndBackParams = "main" := by
    simp [documentBranch, thereAndBackParams, thereAndBackEntries, JsonValue.get?, JsonValue.asStr?]
  have shown : s.workspaceSnapshot (documentBranch thereAndBackParams) =
      .ok ⟨"main", hashNamed (some "Point"), history⟩ := by
    rw [branch]
    exact Except.bind_eq_ok.mpr ⟨_, found, rfl⟩
  obtain ⟨result, snapshot, t, acts, ready', committed, shown', fine, recorded⟩ :=
    ready.acts_apply quiet commits fun result => do
      let snapshot ← snapshotAfter result
      answerApplied (some thereAndBackKnown) result snapshot
  refine ⟨.ok result [] snapshot none, t, ?_, rfl, ready', recorded⟩
  have answered : Program.Acts allowed (do
      let snapshot ← snapshotAfter result
      answerApplied (some thereAndBackKnown) result snapshot : MethodM renameWire _) t []
      (pure ⟨result, [], snapshot⟩ : MethodM renameWire _) t := by
    refine acts_snapshotAfter _ (quiet t) shown' ?_
    rw [answerApplied_committed committed fine]
    exact .refl _ _
  have served : Program.Acts allowed (opsApply plain thereAndBackParams
      (some thereAndBackKnown) : MethodM renameWire _) s
      [.applying thereAndBackKnown thereAndBack,
        .committed thereAndBackKnown (.ok result [] snapshot none)]
      (pure ⟨result, [], snapshot⟩ : MethodM renameWire _) t := by
    unfold opsApply
    refine acts_orMethodError _ (thereAndBack_document true)
      (acts_orMethodError _ thereAndBack_expected (acts_lookUp _ (quiet s) shown ?_))
    rw [if_neg (by simp)]
    exact acts.trans answered
  exact served.bind _

end Acts

/-! ### Two clients with one request -/

/-- The request of both clients. -/
def duplicate : ClientRequest typeNaming := .opsApply thereAndBackRequest

/-- The request for something else. -/
def another : ClientRequest typeNaming := .opsApply otherRequest

theorem requestId_duplicate : duplicate.requestId plain renameWire = some "there-and-back" := by
  rw [duplicate, ClientRequest.requestId, known_opsApply thereAndBack_known]
  rfl

theorem requestId_another : another.requestId plain renameWire = some "there-and-back" := by
  rw [another, ClientRequest.requestId, known_opsApply other_known]
  rfl

/-- What is left of the request when no answer to it was found. -/
def serving : Program (WorkspaceDb renameWire) (WorkspaceEvent typeNaming)
    (Option (WorkspaceResponse typeNaming)) := do
  let response ← dispatchOpsApply plain thereAndBackRequest (some thereAndBackKnown)
  return some response

section Serving

variable {allowed : WorkspaceDb renameWire → List (WorkspaceEvent typeNaming) → Prop}
  (quiet : ∀ u, allowed u [])
include quiet

/-- A request without a recorded answer is served. -/
theorem acts_unanswered
    (unanswered : s.workspaceTransactions.lookup thereAndBackKnown.requestId = none) :
    Program.Acts allowed (workspaceCode plain renameWire duplicate) s [] serving s := by
  have nothing : s.cachedWorkspaceTransactionResponse thereAndBackKnown.requestId
      thereAndBackKnown.requestHash = .ok none := by
    unfold WorkspaceDb.cachedWorkspaceTransactionResponse
    rw [unanswered]
  have serves : Program.Acts allowed (executeWorkspaceRequest plain thereAndBackRequest) s []
      (dispatchOpsApply plain thereAndBackRequest (some thereAndBackKnown)) s := by
    unfold executeWorkspaceRequest
    dsimp only
    rw [if_neg (by simp [thereAndBackRequest]), if_neg (by simp [thereAndBackRequest]),
      thereAndBack_known]
    refine .act (quiet s) ?_
    dsimp only
    rw [nothing]
    exact .refl _ _
  exact serves.bind _

/-- A request with a recorded answer is answered with it. -/
theorem acts_answered {response : WorkspaceResponse typeNaming}
    (recorded : AnswerRecorded s response) :
    Program.Acts allowed (workspaceCode plain renameWire duplicate) s []
      (.done (some { response with id := none })) s := by
  obtain ⟨row, found, hash, rfl⟩ := recorded
  have cached : s.cachedWorkspaceTransactionResponse thereAndBackKnown.requestId
      thereAndBackKnown.requestHash = .ok (some row.responseJson) := by
    unfold WorkspaceDb.cachedWorkspaceTransactionResponse
    rw [found]
    exact if_neg (not_not.mpr hash)
  have serves : Program.Acts allowed (executeWorkspaceRequest plain thereAndBackRequest) s []
      (.done ({ row.responseJson with id := none } : WorkspaceResponse typeNaming)) s := by
    unfold executeWorkspaceRequest
    dsimp only
    rw [if_neg (by simp [thereAndBackRequest]), if_neg (by simp [thereAndBackRequest]),
      thereAndBack_known]
    refine .act (quiet s) ?_
    dsimp only
    rw [cached]
    exact .refl _ _
  exact serves.bind _

/-- A request under whose id the answer to another one is recorded gets an answer. -/
theorem acts_refused {response : WorkspaceResponse typeNaming}
    (recorded : AnswerRecorded s response) :
    ∃ refusal, Program.Acts allowed (workspaceCode plain renameWire another) s []
      (.done (some refusal)) s := by
  obtain ⟨row, found, hash, -⟩ := recorded
  have differs : row.requestHash ≠ otherKnown.requestHash := by
    rw [hash]
    exact fun same => not_sameParams (requestHash_inj plain_reliable.floats same).2.symm
  have reused : s.cachedWorkspaceTransactionResponse otherKnown.requestId otherKnown.requestHash =
      .error (WorkspaceDb.requestIdReused renameWire otherKnown.requestId) := by
    unfold WorkspaceDb.cachedWorkspaceTransactionResponse
    rw [show s.workspaceTransactions.lookup otherKnown.requestId = some row from found]
    exact if_pos differs
  have serves : Program.Acts allowed (executeWorkspaceRequest plain otherRequest) s []
      (.done (WorkspaceResponse.ofError
        { kind := "invalid_request"
          message := WorkspaceDb.requestIdReused renameWire otherKnown.requestId }
        (s.workspaceSnapshot mainBranch).toOption none)) s := by
    unfold executeWorkspaceRequest
    dsimp only
    rw [if_neg (by simp [otherRequest]), if_neg (by simp [otherRequest]), other_known]
    refine .act (quiet s) ?_
    dsimp only
    rw [reused]
    exact .act (quiet s) (.refl _ _)
  exact ⟨_, serves.bind _⟩

end Serving

section Runs

variable {c : WorkspaceConfig Bool renameWire} (client : Bool)

/-- Nothing is asked of the actions. -/
def Anything (_ : ClientRequest typeNaming) (_ : WorkspaceDb renameWire)
    (_ : List (WorkspaceEvent typeNaming)) : Prop := True

/-- A client that comes with the request. -/
def serveDuplicate (c : WorkspaceConfig Bool renameWire) : WorkspaceConfig Bool renameWire :=
  ⟨c.shared, Function.update c.running client (some (duplicate, serving))⟩

/-- A client that comes with the request and finds no answer recorded serves it. -/
theorem run_lookUp (idle : c.running client = none)
    (unanswered : c.shared.workspaceTransactions.lookup thereAndBackKnown.requestId = none) :
    ∃ trace, Run (workspaceCode plain renameWire) c trace (serveDuplicate client c) ∧
      trace.events = [] := by
  let begun : WorkspaceConfig Bool renameWire := ⟨c.shared, Function.update c.running client
    (some (duplicate, workspaceCode plain renameWire duplicate))⟩
  have busy : begun.running client = some (duplicate, workspaceCode plain renameWire duplicate) :=
    Function.update_self ..
  obtain ⟨trace, run, quietly, -⟩ := Run.acts (workspaceCode plain renameWire) Anything
    busy (acts_unanswered (fun _ => trivial) unanswered)
  rw [Function.update_idem] at run
  refine ⟨_, (Run.refl.step (.start duplicate idle)).trans run, ?_⟩
  rw [Trace.events_append, quietly]
  rfl

/-- A client that serves the request commits its batch, whether or not an answer is
recorded by then. -/
theorem run_commit (busy : c.running client = some (duplicate, serving)) (ready : Ready c.shared) :
    ∃ trace left t, Run (workspaceCode plain renameWire) c trace
        ⟨t, Function.update c.running client (some (duplicate, left))⟩ ∧
      committedIds trace.events = [thereAndBackKnown.requestId] ∧ Ready t := by
  have anything : ∀ s events, Anything duplicate s events := fun _ _ => trivial
  obtain ⟨response, t, acts, -, ready', -⟩ := ready.acts (fun u => anything u [])
    fun u _ _ _ => anything u _
  obtain ⟨trace, run, told, -⟩ := Run.acts (workspaceCode plain renameWire) Anything
    busy (acts.bind fun response => pure (some response))
  exact ⟨trace, _, t, run, by rw [told]; rfl, ready'⟩

end Runs

theorem ready_of_atNamed {db : Db} (here : AtNamed db mainBranch (some "Point")) :
    Ready ⟨db, ∅⟩ :=
  ⟨here, fun _ found => by simp at found⟩

theorem ready_createdDb : Ready ⟨createdDb, ∅⟩ := ready_of_atNamed namedOn_createdDb.atNamed

/-- Batches are applied that have work. -/
def Worked (_ : ClientRequest typeNaming) (s : WorkspaceDb renameWire)
    (events : List (WorkspaceEvent typeNaming)) : Prop :=
  ∀ event ∈ events, WorkspaceEvent.HasWork plain s event

/-- A request is served before the next is begun, and its batch has work. -/
structure Alone (request : ClientRequest typeNaming) (s t : WorkspaceDb renameWire)
    (answer : WorkspaceResponse typeNaming) (client : Bool)
    (trace : WorkspaceTrace Bool renameWire) : Prop where
  run : Run (workspaceCode plain renameWire) ⟨s, fun _ => none⟩ trace ⟨t, fun _ => none⟩
  started : trace.started = [request]
  apart : ∀ apart, Trace.Apart apart (fun _ => none) trace
  finished : (t, .finish client request (some answer)) ∈ trace
  begun : ∀ s' client' request', (s', .start client' request') ∈ trace → s' = s ∧ request' = request
  worked : trace.HasWork plain

theorem exists_alone {request : ClientRequest typeNaming} {s t : WorkspaceDb renameWire}
    {answer : WorkspaceResponse typeNaming} {events : List (WorkspaceEvent typeNaming)}
    (client : Bool)
    (acts : Program.Acts (Worked request) (workspaceCode plain renameWire request) s events
      (.done (some answer)) t) :
    ∃ trace, Alone request s t answer client trace ∧ trace.events = events := by
  obtain ⟨trace, run, told, started, apart, finished, steps⟩ := Run.alone
    (c := ⟨s, fun _ => none⟩) (workspaceCode plain renameWire) Worked client
    (fun _ => rfl) acts
  refine ⟨trace, ⟨run, started, apart, finished, fun s' client' request' begun => ?_,
    fun s' client' request' events' acted event listed => ?_⟩, told⟩
  · rcases steps _ begun with same | same | ⟨_, same, -⟩
    · obtain ⟨state, label⟩ := Prod.mk.inj same
      exact ⟨state, (Label.start.inj label).2⟩
    · exact nomatch (Prod.mk.inj same).2
    · exact nomatch same
  · rcases steps _ acted with same | same | ⟨told, same, fine⟩
    · exact nomatch (Prod.mk.inj same).2
    · exact nomatch (Prod.mk.inj same).2
    · obtain ⟨-, -, rfl⟩ := Label.act.inj same
      exact fine event listed

/-- Of a request, the same one again and one with other parameters under its id, only the last
has other parameters than the first, and it comes when the answer is recorded. -/
theorem reusesRecorded_retry {db : Db} {t : WorkspaceDb renameWire}
    {response answer refusal : WorkspaceResponse typeNaming}
    {trace trace' trace'' : WorkspaceTrace Bool renameWire} {first second third : Bool}
    (alone : Alone duplicate ⟨db, ∅⟩ t response first trace)
    (alone' : Alone duplicate t t answer second trace')
    (alone'' : Alone another t t refusal third trace'') (recorded : AnswerRecorded t response) :
    WorkspaceTrace.ReusesRecorded plain (trace ++ (trace' ++ trace'')) := by
  have owner : trace.firstWith plain "there-and-back" = some thereAndBackRequest :=
    WorkspaceTrace.firstWith_of_started alone.started requestId_duplicate
  intro s client ops requestId other begun carries found differs
  -- a request that is the first one again has its parameters
  have again : ∀ request, .opsApply ops = request → request = duplicate → False := by
    rintro _ rfl same
    obtain rfl := ClientRequest.opsApply.inj same
    obtain rfl := Option.some.inj (carries.symm.trans requestId_duplicate)
    obtain rfl := Option.some.inj (found.symm.trans (WorkspaceTrace.firstWith_append owner))
    exact differs rfl
  rcases List.mem_append.mp begun with begun | begun
  · exact absurd (alone.begun _ _ _ begun).2 (again _ rfl)
  rcases List.mem_append.mp begun with begun | begun
  · exact absurd (alone'.begun _ _ _ begun).2 (again _ rfl)
  · obtain ⟨rfl, same⟩ := alone''.begun _ _ _ begun
    obtain rfl := ClientRequest.opsApply.inj same
    obtain rfl := Option.some.inj (carries.symm.trans requestId_another)
    obtain ⟨row, there, -⟩ := recorded
    exact Option.ne_none_iff_exists'.mpr ⟨row, there⟩

end CodeDb

import CodeDb.History.Growth
import CodeDb.Workspace.OpsApply

/-!
# Recorded answers while requests are served

What the actions of clients may do to the recorded answers and to the branches, and
that every request is served by such actions and answered with what is recorded, as
long as no two clients serve requests with one id at the same time. Then what is
recorded under an id does not change while a request with it is served, but by the
commit of the request itself.

Two things are promised only where more is asked. An answer to a batch that came to
nothing has no record, unless some operation of every batch is left to be applied. And
what is shown of a branch is what was recorded of it, if no other request that may move
the branch is served at the same time.

## Main definitions

* `DistinctIds`, `ApartBranches` — the requests that may be served at the same time
* `WorkspaceMove` — what an action may do to the recorded answers and the branches

## Main results

* `workspaceCode_safe` — requests are served by such actions
-/

namespace CodeDb

open Interleaving

variable {E : Engine}

/-! ### Requests that are served at the same time -/

section Requests

variable (P : Primitives) (W : Wire E)

/-- The batch that a request asks for, if it can be read. -/
def OpsApplyRequest.batch (request : OpsApplyRequest) : Option (ApplyBatch E) :=
  match applyDocumentParam W.debug W.transactionFromValue request.val.params true with
  | .error _ => none
  | .ok document =>
    (WorkspaceDb.parseApplyJsonRequest P W (canonicalJson P.floatText document)).toOption

namespace ClientRequest

/-- What a request is known by, if it carries an id. -/
def known : ClientRequest E → Option WorkspaceIdempotencyRequest
  | opsApply request =>
    match request.idempotency P W with
    | .ok known => known
    | .error _ => none
  | transaction _ => none

/-- The id of a request, if it carries one. -/
def requestId (request : ClientRequest E) : Option String :=
  (request.known P W).map (·.requestId)

/-- The branch that a request may move or delete. -/
def moved : ClientRequest E → Option String
  | opsApply request => (request.batch P W).map (·.branch)
  | transaction request => request.moved

end ClientRequest

/-- The requests do not carry the same id. -/
def DistinctIds (request other : ClientRequest E) : Prop :=
  ∀ requestId, request.requestId P W = some requestId → other.requestId P W ≠ some requestId

/-- The requests may move the same branch only if neither carries an id. -/
def ApartBranches (request other : ClientRequest E) : Prop :=
  ∀ name, request.moved P W = some name → other.moved P W = some name →
    request.requestId P W = none ∧ other.requestId P W = none

end Requests

variable {P : Primitives} {W : Wire E}

theorem DistinctIds.symm {request other : ClientRequest E}
    (distinct : DistinctIds P W request other) : DistinctIds P W other request :=
  fun requestId carries carries' => distinct requestId carries' carries

theorem ApartBranches.symm {request other : ClientRequest E}
    (apart : ApartBranches P W request other) : ApartBranches P W other request :=
  fun name onto onto' => (apart name onto' onto).symm

theorem known_opsApply {ops : OpsApplyRequest} {idempotency : Option WorkspaceIdempotencyRequest}
    (carries : ops.idempotency P W = .ok idempotency) :
    (ClientRequest.opsApply ops : ClientRequest E).known P W = idempotency := by
  simp only [ClientRequest.known, carries]

theorem idempotency_of_known {ops : OpsApplyRequest} {known : WorkspaceIdempotencyRequest}
    (carries : (ClientRequest.opsApply ops : ClientRequest E).known P W = some known) :
    ops.idempotency P W = .ok (some known) := by
  simp only [ClientRequest.known] at carries
  split at carries
  · rename_i read
    rw [read, carries]
  · exact nomatch carries

/-! ### Batches that come to nothing -/

/-- An operation of a batch is found to be applied already. -/
def Db.FindsApplied (P : Primitives) (db : Db) (name : String) (agent : Option JsonValue)
    (expectation : Option Hash) (apiOperation : E.ApiOperation) : Prop :=
  ∃ branch op report commit after, db.branch name = .ok branch ∧
    E.operationFromApi db.objects
      (((E.expectRootHash apiOperation).or expectation).getD branch.rootHash) apiOperation =
      .ok op ∧
    db.applyAndRecordOnBranch P E name
      (((E.expectRootHash apiOperation).or expectation).getD branch.rootHash) op agent =
        .ok (.alreadyApplied report, commit, after)

/-- All operations of a batch are found to be applied already. The first is expected
where the batch is. -/
def Db.NothingLeft (P : Primitives) (db : Db) (name : String) (agent : Option JsonValue) :
    Option Hash → List E.ApiOperation → Prop
  | _, [] => True
  | expectation, apiOperation :: rest =>
    db.FindsApplied P name agent expectation apiOperation ∧ db.NothingLeft P name agent none rest

/-- What a batch comes to: to its end, where it is committed unless there was nothing left
to be applied, or to a conflict or an error, where it is not. -/
theorem Db.applyOperations_outcome {db after : Db} {name : String} {agent : Option JsonValue}
    {operations : List E.ApiOperation} {expectation : Option Hash}
    {results : List (MigrationOutcome E)} {anyApplied commit : Bool} {outcome : Db.BatchOutcome E}
    (run : db.applyOperations P E name agent expectation operations results anyApplied =
      .ok (outcome, commit, after)) :
    (∃ all, outcome = .finished all ∧
      (commit = false → anyApplied = false ∧ db.NothingLeft P name agent expectation operations)) ∨
    (commit = false ∧ ∃ earlier conflict, outcome = .conflict (earlier ++ [.conflict conflict])) ∨
    commit = false ∧ ∃ earlier root message summary,
      outcome = .failed earlier root message summary := by
  induction operations generalizing db expectation results anyApplied with
  | nil =>
    obtain ⟨rfl, rest⟩ := Prod.mk.inj (Except.ok.inj run)
    obtain ⟨rfl, -⟩ := Prod.mk.inj rest
    exact Or.inl ⟨results, rfl, fun none => ⟨none, trivial⟩⟩
  | cons apiOperation operations ih =>
    rw [Db.applyOperations] at run
    obtain ⟨branch, found, run⟩ := Except.bind_eq_ok.mp run
    dsimp only at run
    split at run
    · obtain ⟨rfl, rest⟩ := Prod.mk.inj (Except.pure_eq_ok.mp run)
      obtain ⟨rfl, -⟩ := Prod.mk.inj rest
      exact Or.inr (Or.inr ⟨rfl, _, _, _, _, rfl⟩)
    · rename_i op read
      split at run
      · obtain ⟨rfl, rest⟩ := Prod.mk.inj (Except.pure_eq_ok.mp run)
        obtain ⟨rfl, -⟩ := Prod.mk.inj rest
        exact Or.inr (Or.inr ⟨rfl, _, _, _, _, rfl⟩)
      -- once something was applied the batch is committed, if it comes to its end
      · refine (ih run).imp_left ?_
        rintro ⟨all, rfl, left⟩
        exact ⟨all, rfl, fun none => absurd (left none).1 (by simp)⟩
      · rename_i report commit' after' applied
        refine (ih run).imp_left ?_
        rintro ⟨all, rfl, left⟩
        exact ⟨all, rfl, fun none => ⟨(left none).1,
          ⟨branch, op, report, commit', after', found, read, applied⟩, (left none).2⟩⟩
      · obtain ⟨rfl, rest⟩ := Prod.mk.inj (Except.pure_eq_ok.mp run)
        obtain ⟨rfl, -⟩ := Prod.mk.inj rest
        exact Or.inr (Or.inl ⟨rfl, _, _, rfl⟩)

theorem aggregateStatus_conflict (earlier : List (MigrationOutcome E))
    (conflict : MigrationConflict E) :
    aggregateStatus (earlier ++ [.conflict conflict]) = .conflict := by
  rw [aggregateStatus, List.foldl_append]
  cases earlier.foldl (fun status outcome => mergeStatus status outcome.status) .alreadyApplied <;>
    rfl

/-- A batch moves its branch and no other, is reported for it and as what it comes to, and
is not committed only if it fails or has nothing left to be applied. -/
theorem applyBatchInTx_ok {db after : Db} {batch : ApplyBatch E} {result : ApplyResult E}
    {commit : Bool} (run : db.applyBatchInTx P W.debug batch = .ok (result, commit, after)) :
    result.branch = batch.branch ∧ result.committed = commit ∧
      Db.Moves P E (some batch.branch) none (fun _ => True) db after ∧
      (commit = false → result.status = "conflict" ∨ result.status = "error" ∨
        db.NothingLeft P batch.branch batch.agent batch.expectRootHash batch.operations) := by
  unfold Db.applyBatchInTx at run
  split_ifs at run
  obtain ⟨initial, -, run⟩ := Except.bind_eq_ok.mp run
  obtain ⟨⟨outcome, shouldCommit, mid⟩, applied, run⟩ := Except.bind_eq_ok.mp run
  obtain ⟨final, -, run⟩ := Except.bind_eq_ok.mp run
  obtain ⟨rfl, rest⟩ := Prod.mk.inj (Except.pure_eq_ok.mp run)
  obtain ⟨rfl, rfl⟩ := Prod.mk.inj rest
  have moves : Db.Moves P E (some batch.branch) none (fun _ => True) db mid :=
    Db.applyOperations_moves (fun _ _ _ _ _ _ => trivial) applied
  rcases Db.applyOperations_outcome applied with ⟨all, rfl, left⟩ |
    ⟨rfl, earlier, conflict, rfl⟩ | ⟨rfl, earlier, root, message, summary, rfl⟩
  · exact ⟨rfl, rfl, moves, fun none => Or.inr (Or.inr (left none).2)⟩
  · refine ⟨rfl, rfl, moves, fun _ => Or.inl ?_⟩
    simp only [applyResult, aggregateStatus_conflict]
    rfl
  · exact ⟨rfl, rfl, moves, fun _ => Or.inr (Or.inl rfl)⟩

/-! ### The protocol -/

/-- The commits among some events. -/
def commits (events : List (WorkspaceEvent E)) :
    List (WorkspaceIdempotencyRequest × WorkspaceResponse E) :=
  events.filterMap fun
    | .committed request response => some (request, response)
    | .applying .. => none

@[simp] theorem commits_append (events events' : List (WorkspaceEvent E)) :
    commits (events ++ events') = commits events ++ commits events' :=
  List.filterMap_append

theorem mem_commits {events : List (WorkspaceEvent E)} {request : WorkspaceIdempotencyRequest}
    {response : WorkspaceResponse E} :
    (request, response) ∈ commits events ↔ .committed request response ∈ events := by
  simp only [commits, List.mem_filterMap]
  constructor
  · rintro ⟨event, told, same⟩
    cases event with
    | committed request' response' =>
      obtain ⟨rfl, rfl⟩ := Prod.mk.inj (Option.some.inj same)
      exact told
    | applying => exact nomatch same
  · exact fun told => ⟨_, told, rfl⟩

/-- Not all operations of a batch with an id have been applied already, when it is
applied. -/
def WorkspaceEvent.HasWork (P : Primitives) (s : WorkspaceDb W) : WorkspaceEvent E → Prop
  | .applying _ batch =>
    ¬ s.db.NothingLeft P batch.branch batch.agent batch.expectRootHash batch.operations
  | .committed .. => True

/-- An answer is recorded for a request. -/
def WorkspaceDb.Recorded (s : WorkspaceDb W) (request : WorkspaceIdempotencyRequest)
    (response : WorkspaceResponse E) : Prop :=
  ∃ row, s.workspaceTransactions.lookup request.requestId = some row ∧
    row.requestHash = request.requestHash ∧ W.readResponse row.responseJson = .ok response

/-- A request reuses an id under which the answer to another request is recorded. -/
def ClientRequest.Reuses (P : Primitives) (s : WorkspaceDb W) (request : ClientRequest E) : Prop :=
  ∃ known row, request.known P W = some known ∧
    s.workspaceTransactions.lookup known.requestId = some row ∧
    row.requestHash ≠ known.requestHash

/-- What an action may do: recorded answers stay, and a commit adds one under the id of
the request; a request that reuses an id changes nothing; and a branch that the request
may not move stays where it is. -/
structure WorkspaceMove (P : Primitives) (request : ClientRequest E) (before : WorkspaceDb W)
    (events : List (WorkspaceEvent E)) (after : WorkspaceDb W) : Prop where
  rows : ∀ requestId row, before.workspaceTransactions.lookup requestId = some row →
    after.workspaceTransactions.lookup requestId = some row
  events : (after.workspaceTransactions = before.workspaceTransactions ∧ commits events = []) ∨
    ∃ known response, request.known P W = some known ∧ commits events = [(known, response)] ∧
      before.workspaceTransactions.lookup known.requestId = none ∧ after.Recorded known response ∧
      ∀ other, other ≠ known.requestId → after.workspaceTransactions.lookup other =
        before.workspaceTransactions.lookup other
  refused : request.Reuses P before → after = before
  branches : ∀ name state, request.moved P W ≠ some name →
    before.db.branches.lookup name = some state → after.db.branches.lookup name = some state

/-- What serving requests promises, where every batch has work or it is not asked, and
where requests with an id have their branch to themselves or it is not asked. -/
def workspaceProtocol (P : Primitives) (W : Wire E) (work calm : Prop) :
    Protocol (ClientRequest E) (WorkspaceDb W) (WorkspaceEvent E) where
  inv _ := True
  careful _ s events := work → ∀ event ∈ events, event.HasWork P s
  effect := WorkspaceMove P
  apart request other := DistinctIds P W request other ∧ (calm → ApartBranches P W request other)
  symm _ _ apart := ⟨apart.1.symm, fun asked => (apart.2 asked).symm⟩

variable {work calm : Prop} {request : ClientRequest E} {ops : OpsApplyRequest}
  {s t u : WorkspaceDb W} {idempotency : Option WorkspaceIdempotencyRequest}
  {events : List (WorkspaceEvent E)}

/-- No answer is recorded under the id of a request. -/
def Fresh (idempotency : Option WorkspaceIdempotencyRequest) (s : WorkspaceDb W) : Prop :=
  ∀ known, idempotency = some known → s.workspaceTransactions.lookup known.requestId = none

/-- An answer under an id is not given to a request that reuses it. It is the recorded
one, if batches have work. -/
def AnswersAsRecorded (work calm : Prop) (idempotency : Option WorkspaceIdempotencyRequest)
    (result : ApplyResult E) (snapshot : WorkspaceSnapshot) (s : WorkspaceDb W) : Prop :=
  ∀ known, idempotency = some known →
    (∀ row, s.workspaceTransactions.lookup known.requestId = some row →
      row.requestHash = known.requestHash) ∧
    (work → ∃ recorded, s.Recorded known recorded ∧ recorded.result = some result ∧
      (calm → recorded.snapshot = some snapshot))

/-- What holds of an answer that is not an error. -/
def AnsweredAsRecorded (P : Primitives) (work calm : Prop) (ops : OpsApplyRequest)
    (response : WorkspaceResponse E) (s : WorkspaceDb W) : Prop :=
  response.status ≠ "error" → ∀ known, ops.idempotency P W = .ok (some known) →
    (∀ row, s.workspaceTransactions.lookup known.requestId = some row →
      row.requestHash = known.requestHash) ∧
    (work → ∃ recorded, s.Recorded known recorded ∧ response.result = recorded.result ∧
      (calm → response.snapshot = recorded.snapshot))

/-- What holds of what a client is answered. -/
def WorkspacePost (P : Primitives) (W : Wire E) (work calm : Prop) (request : ClientRequest E)
    (answer : Option (WorkspaceResponse E)) (s : WorkspaceDb W) : Prop :=
  ∀ ops response, request = .opsApply ops → answer = some response →
    AnsweredAsRecorded P work calm ops response s

/-! ### What lasts -/

/-- Looking is a move. -/
theorem WorkspaceMove.look (s : WorkspaceDb W) : WorkspaceMove P request s [] s where
  rows _ _ found := found
  events := Or.inl ⟨rfl, rfl⟩
  refused _ := rfl
  branches _ _ _ found := found

/-- What is recorded under the id of a request stays as it is while others act. -/
theorem lookup_rely (carries : ops.idempotency P W = .ok idempotency)
    (st : (workspaceProtocol P W work calm).Rely (.opsApply ops) s t)
    {known : WorkspaceIdempotencyRequest} (same : idempotency = some known) :
    t.workspaceTransactions.lookup known.requestId =
      s.workspaceTransactions.lookup known.requestId := by
  refine st.preserves (p := fun u => u.workspaceTransactions.lookup known.requestId =
    s.workspaceTransactions.lookup known.requestId) (fun other u events v apart move kept => ?_) rfl
  rcases move.events with ⟨unchanged, -⟩ | ⟨known', response, carries', -, -, -, others⟩
  · rw [unchanged]
    exact kept
  · -- the other request has another id
    have own : (ClientRequest.opsApply ops : ClientRequest E).requestId P W =
        some known.requestId := by
      rw [ClientRequest.requestId, known_opsApply carries, same]
      rfl
    refine (others _ fun same => apart.1 _ own ?_).trans kept
    rw [ClientRequest.requestId, carries', same]
    rfl

theorem Fresh.rely (fresh : Fresh idempotency s) (carries : ops.idempotency P W = .ok idempotency)
    (st : (workspaceProtocol P W work calm).Rely (.opsApply ops) s t) : Fresh idempotency t :=
  fun known same => (lookup_rely carries st same).trans (fresh known same)

theorem Recorded.rely {known : WorkspaceIdempotencyRequest} {response : WorkspaceResponse E}
    (recorded : s.Recorded known response) (carries : ops.idempotency P W = .ok (some known))
    (st : (workspaceProtocol P W work calm).Rely (.opsApply ops) s t) :
    t.Recorded known response := by
  obtain ⟨row, found, same, reads⟩ := recorded
  exact ⟨row, (lookup_rely carries st rfl).trans found, same, reads⟩

theorem AnswersAsRecorded.rely {result : ApplyResult E} {snapshot : WorkspaceSnapshot}
    (right : AnswersAsRecorded work calm idempotency result snapshot s)
    (carries : ops.idempotency P W = .ok idempotency)
    (st : (workspaceProtocol P W work calm).Rely (.opsApply ops) s t) :
    AnswersAsRecorded work calm idempotency result snapshot t := by
  rintro known rfl
  obtain ⟨own, answer⟩ := right known rfl
  refine ⟨fun row found => own row ((lookup_rely carries st rfl).symm.trans found), fun asked => ?_⟩
  obtain ⟨recorded, there, same⟩ := answer asked
  exact ⟨recorded, Recorded.rely there carries st, same⟩

/-- The branch of a request that carries an id stays where it is while others act, if the
request has it to itself. -/
theorem workspaceSnapshot_rely {known : WorkspaceIdempotencyRequest} {name : String}
    {snapshot : WorkspaceSnapshot} (carries : ops.idempotency P W = .ok (some known))
    (moved : (ClientRequest.opsApply ops : ClientRequest E).moved P W = some name) (asked : calm)
    (shown : s.workspaceSnapshot name = .ok snapshot)
    (st : (workspaceProtocol P W work calm).Rely (.opsApply ops) s t) :
    t.workspaceSnapshot name = .ok snapshot := by
  obtain ⟨state, found, result⟩ := Except.bind_eq_ok.mp shown
  refine Except.bind_eq_ok.mpr ⟨state, Db.branch_ok.mpr ?_, result⟩
  refine st.preserves (p := fun u => u.db.branches.lookup name = some state)
    (fun other u events v apart move kept => move.branches name state (fun moves => ?_) kept)
    (Db.branch_ok.mp found)
  have none := (apart.2 asked name moved moves).1
  rw [ClientRequest.requestId, known_opsApply carries] at none
  exact nomatch none

theorem WorkspaceDb.Recorded.unique {request request' : WorkspaceIdempotencyRequest}
    {response response' : WorkspaceResponse E} (recorded : s.Recorded request response)
    (recorded' : s.Recorded request' response') (same : request.requestId = request'.requestId) :
    request.requestHash = request'.requestHash ∧ response = response' := by
  obtain ⟨row, found, hash, reads⟩ := recorded
  obtain ⟨row', found', hash', reads'⟩ := recorded'
  rw [same] at found
  obtain rfl := Option.some.inj (found.symm.trans found')
  exact ⟨hash.symm.trans hash', Except.ok.inj (reads.symm.trans reads')⟩

/-! ### Recording -/

/-- A recorded answer is that of the batch, with the branch as it is then, and goes under its
id unless one is recorded there. -/
theorem recordIdempotentApplyResponse_ok {known : WorkspaceIdempotencyRequest}
    {result : ApplyResult E} {response : WorkspaceResponse E}
    (run : s.recordIdempotentApplyResponse known result = .ok (response, t)) :
    ∃ snapshot row, s.workspaceSnapshot result.branch = .ok snapshot ∧
      response = .ok result [] snapshot none ∧ row.requestHash = known.requestHash ∧
      row.responseJson = W.writeResponse response ∧
      t = { s with
        workspaceTransactions := insertOrIgnore s.workspaceTransactions known.requestId row } := by
  unfold WorkspaceDb.recordIdempotentApplyResponse at run
  obtain ⟨snapshot, shown, run⟩ := Except.bind_eq_ok.mp run
  obtain ⟨recorded, recording, done⟩ := Except.bind_eq_ok.mp run
  obtain ⟨rfl, rfl⟩ : _ = response ∧ recorded = t := by simpa using Except.pure_eq_ok.mp done
  unfold WorkspaceDb.recordWorkspaceTransactionResponse at recording
  dsimp only at recording
  split at recording
  · exact absurd recording (by simp)
  · split_ifs at recording
    obtain rfl := Except.ok.inj recording
    exact ⟨snapshot, _, shown, rfl, rfl, rfl, rfl⟩

/-- Recording under an id that has no answer. -/
theorem recordIdempotentApplyResponse_fresh (reads : W.ReadsResponses)
    {known : WorkspaceIdempotencyRequest} {result : ApplyResult E} {response : WorkspaceResponse E}
    (run : s.recordIdempotentApplyResponse known result = .ok (response, t))
    (fresh : s.workspaceTransactions.lookup known.requestId = none) :
    t.db = s.db ∧ t.Recorded known response ∧ ∀ other, other ≠ known.requestId →
      t.workspaceTransactions.lookup other = s.workspaceTransactions.lookup other := by
  obtain ⟨snapshot, row, -, rfl, hash, text, rfl⟩ := recordIdempotentApplyResponse_ok run
  refine ⟨rfl, ⟨row, ?_, hash, by rw [text]; exact reads _⟩,
    fun other differs => lookup_insertOrIgnore_of_ne _ _ differs⟩
  rw [lookup_insertOrIgnore_self, fresh, Option.getD_none]

/-- What the transaction of a batch comes to: nothing, a commit without an id, or a
commit with a record. -/
theorem applyWithCommitHook_cases (known : Option WorkspaceIdempotencyRequest)
    (batch : ApplyBatch E) (s : WorkspaceDb W) :
    (∃ outcome, s.applyWithCommitHook P known batch = (outcome, [], s) ∧
      ∀ result, outcome = .ok result → result.committed = false ∧
        (result.status = "conflict" ∨ result.status = "error" ∨
          s.db.NothingLeft P batch.branch batch.agent batch.expectRootHash batch.operations)) ∨
    ∃ result after, result.branch = batch.branch ∧ result.committed = true ∧
      Db.Moves P E (some batch.branch) none (fun _ => True) s.db after ∧
      ((known = none ∧ s.applyWithCommitHook P known batch =
        (.ok result, [], { s with db := after })) ∨
      ∃ idempotency response recorded, known = some idempotency ∧
        s.applyWithCommitHook P known batch =
          (.ok result, [.committed idempotency response], recorded) ∧
        WorkspaceDb.recordIdempotentApplyResponse { s with db := after } idempotency result =
          .ok (response, recorded)) := by
  unfold WorkspaceDb.applyWithCommitHook
  split
  · exact Or.inl ⟨_, rfl, nofun⟩
  · rename_i result after run
    obtain ⟨-, uncommitted, -, left⟩ := applyBatchInTx_ok run
    refine Or.inl ⟨_, rfl, fun result' same => ?_⟩
    obtain rfl := Except.ok.inj same
    exact ⟨uncommitted, left rfl⟩
  · rename_i result after run
    obtain ⟨onto, committed, moves, -⟩ := applyBatchInTx_ok run
    cases known with
    | none => exact Or.inr ⟨result, after, onto, committed, moves, Or.inl ⟨rfl, rfl⟩⟩
    | some idempotency =>
      dsimp only
      split
      · exact Or.inl ⟨_, rfl, nofun⟩
      · rename_i response recorded stored
        exact Or.inr ⟨result, after, onto, committed, moves,
          Or.inr ⟨idempotency, response, recorded, rfl, rfl, stored⟩⟩

/-- A request under whose id no answer is recorded reuses none. -/
theorem Fresh.not_reuses (fresh : Fresh idempotency s)
    (carries : ops.idempotency P W = .ok idempotency) :
    ¬ (ClientRequest.opsApply ops).Reuses P s := by
  rintro ⟨known, row, carries', found, -⟩
  rw [known_opsApply carries] at carries'
  exact nomatch (fresh known carries').symm.trans found

/-- What holds after the batch of a request that carries an id: if it is committed, its answer
is recorded, with the branch as it is; and if it is not, none is. -/
structure Applied (P : Primitives) (work calm : Prop) (ops : OpsApplyRequest)
    (known : WorkspaceIdempotencyRequest) (result : ApplyResult E) (s : WorkspaceDb W) : Prop where
  recorded : result.committed = true →
    (ClientRequest.opsApply ops : ClientRequest E).moved P W = some result.branch ∧
    ∃ snapshot, s.Recorded known (.ok result [] snapshot none) ∧
      (calm → s.workspaceSnapshot result.branch = .ok snapshot)
  failed : result.committed = false → s.workspaceTransactions.lookup known.requestId = none ∧
    (work → result.status = "conflict" ∨ result.status = "error")

theorem Applied.rely {known : WorkspaceIdempotencyRequest} {result : ApplyResult E}
    (applied : Applied P work calm ops known result s)
    (carries : ops.idempotency P W = .ok (some known))
    (st : (workspaceProtocol P W work calm).Rely (.opsApply ops) s t) :
    Applied P work calm ops known result t where
  recorded committed := by
    obtain ⟨moved, snapshot, recorded, shown⟩ := applied.recorded committed
    exact ⟨moved, snapshot, Recorded.rely recorded carries st, fun asked =>
      workspaceSnapshot_rely carries moved asked (shown asked) st⟩
  failed uncommitted :=
    ⟨(lookup_rely carries st rfl).trans (applied.failed uncommitted).1,
      (applied.failed uncommitted).2⟩

/-- The transaction of a batch is a move, if no answer is recorded under the id of its
request; and its answer is recorded then, if it is committed. -/
theorem applyWithCommitHook_move (work calm : Prop) (reads : W.ReadsResponses)
    (carries : ops.idempotency P W = .ok idempotency) {batch : ApplyBatch E}
    (asks : ops.batch P W = some batch) (fresh : Fresh idempotency s) :
    WorkspaceMove P (.opsApply ops) s
        ((idempotency.map (WorkspaceEvent.applying · batch)).toList ++
          (s.applyWithCommitHook P idempotency batch).2.1)
        (s.applyWithCommitHook P idempotency batch).2.2 ∧
      ((work → ∀ event ∈ (idempotency.map (WorkspaceEvent.applying · batch)).toList ++
          (s.applyWithCommitHook P idempotency batch).2.1, event.HasWork P s) →
        ∀ result, (s.applyWithCommitHook P idempotency batch).1 = .ok result →
        ∀ known, idempotency = some known → Applied P work calm ops known result
          (s.applyWithCommitHook P idempotency batch).2.2) := by
  have untold : commits (idempotency.map (WorkspaceEvent.applying · batch)).toList = [] := by
    cases idempotency <;> rfl
  have moved : (ClientRequest.opsApply ops : ClientRequest E).moved P W = some batch.branch := by
    simp only [ClientRequest.moved, asks, Option.map_some]
  rcases applyWithCommitHook_cases (P := P) idempotency batch s with
    ⟨outcome, same, uncommitted⟩ | ⟨result, after, onto, committed, moves, ⟨rfl, same⟩ |
      ⟨known, response, recorded, rfl, same, stored⟩⟩
  · rw [same]
    refine ⟨⟨fun _ _ found => found, Or.inl ⟨rfl, by rw [commits_append, untold]; rfl⟩,
      fun _ => rfl, fun _ _ _ found => found⟩, fun worked result done known carried => ?_⟩
    obtain ⟨flag, why⟩ := uncommitted result done
    refine ⟨fun committed => by simp [flag] at committed, fun _ => ⟨fresh known carried, ?_⟩⟩
    subst carried
    intro asked
    -- the batch had work, so it failed
    have had := worked asked (.applying known batch) (by simp)
    rcases why with conflict | error | left
    · exact Or.inl conflict
    · exact Or.inr error
    · exact absurd left had
  · rw [same]
    refine ⟨⟨fun _ _ found => found, Or.inl ⟨rfl, rfl⟩,
      fun reuses => absurd reuses (fresh.not_reuses carries), fun name state other found => ?_⟩,
      fun _ _ _ _ none => nomatch none⟩
    exact moves.stays (moved ▸ other) found
  · rw [same]
    have unrecorded := fresh known rfl
    obtain ⟨unchanged, new, others⟩ := recordIdempotentApplyResponse_fresh reads stored unrecorded
    refine ⟨⟨fun requestId row found => ?_, Or.inr ⟨known, response, known_opsApply carries, rfl,
      unrecorded, new, others⟩, fun reuses => absurd reuses (fresh.not_reuses carries),
      fun name state other found => ?_⟩, fun _ result' done known' carried => ?_⟩
    · refine (others requestId ?_).trans found
      rintro rfl
      exact nomatch unrecorded.symm.trans found
    · rw [unchanged]
      exact moves.stays (moved ▸ other) found
    · obtain rfl := Except.ok.inj done
      obtain rfl := Option.some.inj carried
      obtain ⟨snapshot, -, shown, told, -⟩ := recordIdempotentApplyResponse_ok stored
      refine ⟨fun _ => ⟨onto ▸ moved, snapshot, told ▸ new, fun _ => ?_⟩, fun uncommitted => ?_⟩
      · unfold WorkspaceDb.workspaceSnapshot
        rw [unchanged]
        exact shown
      · simp [committed] at uncommitted

/-! ### Parts of serving a request -/

section Serving

variable (carries : ops.idempotency P W = .ok idempotency)

theorem orMethodError_safe {α : Type} {kind : String} {x : Except Error α}
    {post : α → WorkspaceDb W → Prop}
    (right : ∀ a, x = .ok a → ∀ t, (workspaceProtocol P W work calm).Rely request s t → post a t) :
    Program.SafeOk (workspaceProtocol P W work calm) request post (orMethodError kind x) s := by
  cases x with
  | ok a => exact Program.safeOk_return fun t st _ => right a rfl t st
  | error message => exact Program.safeOk_throw _

/-- What is found held at some moment since. -/
theorem read_safe {α : Type} (query : WorkspaceDb W → α) :
    (Program.read query : Program (WorkspaceDb W) (WorkspaceEvent E) α).Safe
      (workspaceProtocol P W work calm) request
      (fun found t => ∃ u, (workspaceProtocol P W work calm).Rely request s u ∧
        (workspaceProtocol P W work calm).Rely request u t ∧ query u = found) s :=
  Program.safe_read _ (fun t _ => .look t) fun u su _ _ _ ut _ => ⟨u, su, ut, rfl⟩

/-- What came of looking something up, at some moment since. -/
theorem lookUp_outcome {α : Type} {kind : String} {query : WorkspaceDb W → Except Error α} :
    @Program.Safe _ _ _ (Except (WorkspaceMethodError E) α) (workspaceProtocol P W work calm)
      request (fun outcome t => ∃ u, (workspaceProtocol P W work calm).Rely request s u ∧
        (workspaceProtocol P W work calm).Rely request u t ∧
        ∀ a, query u = .ok a ↔ outcome = .ok a)
      (lookUp kind query) s := by
  have lifted : @Program.Safe _ _ _ (Except (WorkspaceMethodError E) (Except Error α))
      (workspaceProtocol P W work calm) request
      (fun outcome t => ∃ u, (workspaceProtocol P W work calm).Rely request s u ∧
        (workspaceProtocol P W work calm).Rely request u t ∧ outcome = .ok (query u))
      (ExceptT.lift (Program.read query)) s :=
    Program.Safe.bind (read_safe query) (fun found t _ ⟨u, su, ut, same⟩ =>
      Program.safe_pure fun v tv _ => ⟨u, su, ut.trans tv, congrArg Except.ok same.symm⟩) trivial
  refine Program.Safe.bind lifted (fun outcome t _ right => ?_) trivial
  obtain ⟨u, su, ut, rfl⟩ := right
  show Program.Safe _ _ _ (orMethodError kind (query u)) t
  cases found : query u with
  | ok a => exact Program.safe_pure fun v tv _ => ⟨u, su, ut.trans tv, fun b => by simp [found]⟩
  | error message =>
    exact Program.safe_pure fun v tv _ => ⟨u, su, ut.trans tv, fun b => by simp [found]⟩

theorem lookUp_safe {α : Type} {kind : String} {query : WorkspaceDb W → Except Error α} :
    Program.SafeOk (workspaceProtocol P W work calm) request
      (fun a t => ∃ u, (workspaceProtocol P W work calm).Rely request s u ∧
        (workspaceProtocol P W work calm).Rely request u t ∧ query u = .ok a)
      (lookUp kind query) s :=
  lookUp_outcome.mono fun _ _ ⟨u, su, ut, found⟩ a same => ⟨u, su, ut, (found a).mpr same⟩

/-- What is looked up for a request is the text of its row. -/
theorem cachedWorkspaceTransactionResponse_ok {known : WorkspaceIdempotencyRequest}
    {found : Option W.Text}
    (run : s.cachedWorkspaceTransactionResponse known.requestId known.requestHash = .ok found) :
    (found = none ∧ s.workspaceTransactions.lookup known.requestId = none) ∨
      ∃ row, found = some row.responseJson ∧
        s.workspaceTransactions.lookup known.requestId = some row ∧
        row.requestHash = known.requestHash := by
  unfold WorkspaceDb.cachedWorkspaceTransactionResponse at run
  split at run
  · rename_i absent
    exact Or.inl ⟨(Except.ok.inj run).symm, absent⟩
  · rename_i row there
    split_ifs at run with differs
    exact Or.inr ⟨row, (Except.ok.inj run).symm, there, not_not.mp differs⟩

include carries in
/-- A recorded answer is one. -/
theorem cachedIdempotentApplyResult_safe :
    Program.SafeOk (workspaceProtocol P W work calm) (.opsApply ops)
      (fun cached t => (workspaceProtocol P W work calm).Rely (.opsApply ops) s t ∧
        ∀ done, cached = some done →
          AnswersAsRecorded work calm idempotency done.result done.snapshot t)
      (cachedIdempotentApplyResult idempotency) s := by
  cases idempotency with
  | none => exact Program.safeOk_return fun t st _ => ⟨st, nofun⟩
  | some known =>
    refine Program.SafeOk.bind _ lookUp_safe (fun found t _ right => ?_) trivial
    obtain ⟨u, su, ut, run⟩ := right
    obtain ⟨rfl, -⟩ | ⟨row, rfl, there, hash⟩ := cachedWorkspaceTransactionResponse_ok run
    · exact Program.safeOk_return fun v tv _ => ⟨su.trans (ut.trans tv), nofun⟩
    dsimp only
    cases reads : W.readResponse row.responseJson with
    | error message => exact Program.safeOk_throw _
    | ok response =>
      dsimp only
      cases hasResult : response.result with
      | none => exact Program.safeOk_throw _
      | some result =>
        cases hasSnapshot : response.snapshot with
        | none => exact Program.safeOk_throw _
        | some snapshot =>
          refine Program.safeOk_return fun v tv _ => ⟨su.trans (ut.trans tv), fun done same => ?_⟩
          obtain rfl := Option.some.inj same
          refine AnswersAsRecorded.rely (fun known' carried => ?_) carries (ut.trans tv)
          obtain rfl := Option.some.inj carried
          refine ⟨fun row' found => ?_, fun _ => ⟨response, ⟨row, there, hash, reads⟩, hasResult,
            fun _ => hasSnapshot⟩⟩
          obtain rfl := Option.some.inj (there.symm.trans found)
          exact hash

/-- The batch of a request is applied by moves, and recorded if it is committed. -/
theorem applyJsonStrWithCommitHook_safe (reads : W.ReadsResponses)
    (carries : ops.idempotency P W = .ok idempotency) (fresh : Fresh idempotency s) {text : String}
    (asks : ∀ batch, WorkspaceDb.parseApplyJsonRequest P W text = .ok batch →
      ops.batch P W = some batch) :
    Program.SafeOk (workspaceProtocol P W work calm) (.opsApply ops)
      (fun result t => ∀ known, idempotency = some known → Applied P work calm ops known result t)
      (applyJsonStrWithCommitHook P idempotency text) s := by
  refine Program.SafeOk.bind (fun _ t => Fresh idempotency t) (Program.Safe.lift _
    (Program.safe_atomically fun t st _ _ => ?_) trivial
      fun _ _ _ tu fresh => fresh.rely carries tu) (fun initialized t _ fresh => ?_) trivial
  · have here := fresh.rely carries st
    cases run : t.db.ensureInitialized P E with
    | error message => exact ⟨.look t, trivial, fun u tu _ => here.rely carries tu⟩
    | ok initialized =>
      obtain ⟨root, db⟩ := initialized
      have moves : Db.Moves P E none none (fun _ => True) t.db db := Db.ensureInitialized_moves run
      refine ⟨⟨fun _ _ found => found, Or.inl ⟨rfl, rfl⟩,
        fun reuses => absurd reuses (here.not_reuses carries), fun _ _ _ found =>
          moves.stays nofun found⟩, trivial, fun u tu _ => ?_⟩
      exact Fresh.rely (s := { t with db := db }) here carries tu
  refine Program.SafeOk.bind (fun _ t => Fresh idempotency t)
    (orMethodError_safe fun _ _ _ tu => fresh.rely carries tu) (fun _ t _ fresh => ?_) trivial
  refine Program.SafeOk.bind (fun batch t => WorkspaceDb.parseApplyJsonRequest P W text =
      .ok batch ∧ Fresh idempotency t)
    (orMethodError_safe fun _ read _ tu => ⟨read, fresh.rely carries tu⟩)
    (fun batch t _ right => ?_) trivial
  obtain ⟨read, fresh⟩ := right
  refine Program.SafeOk.bind (fun applied t => ∀ result : ApplyResult E, applied = .ok result →
      ∀ known, idempotency = some known → Applied P work calm ops known result t)
    (Program.Safe.lift _ (Program.safe_atomically fun t st _ worked => ?_) trivial ?_)
    (fun applied t _ right => orMethodError_safe fun result same u tu => ?_) trivial
  · obtain ⟨move, applied⟩ := applyWithCommitHook_move work calm reads carries
      (asks batch read) (fresh.rely carries st)
    refine ⟨move, trivial, fun u tu _ result same known carried => ?_⟩
    exact (applied worked result same known carried).rely (carried ▸ carries) tu
  · exact fun applied t u tu right result same known carried =>
      (right result same known carried).rely (carried ▸ carries) tu
  · exact fun known carried => (right result same known carried).rely (carried ▸ carries) tu

section After

variable {result : ApplyResult E} {snapshot : WorkspaceSnapshot}
  (carries : ops.idempotency P W = .ok idempotency)
  (applied : ∀ known, idempotency = some known → Applied P work calm ops known result s)
include carries applied

/-- The snapshot looked up for the answer to a committed batch shows the branch as it is
recorded, if the request has the branch to itself. -/
theorem snapshotAfter_safe :
    Program.SafeOk (workspaceProtocol P W work calm) (.opsApply ops)
      (fun snapshot t => (workspaceProtocol P W work calm).Rely (.opsApply ops) s t ∧
        ∀ known, idempotency = some known → calm → result.committed = true →
          t.workspaceSnapshot result.branch = .ok snapshot)
      (snapshotAfter result) s := by
  -- the branch is there then, so that the main branch need not be looked up instead
  have there : calm → result.committed = true → ∀ known, idempotency = some known →
      ∃ snapshot, ∀ t, (workspaceProtocol P W work calm).Rely (.opsApply ops) s t →
        t.workspaceSnapshot result.branch = .ok snapshot := by
    rintro asked committed known rfl
    obtain ⟨moved, snapshot, -, shown⟩ := (applied known rfl).recorded committed
    exact ⟨snapshot, fun t st => workspaceSnapshot_rely carries moved asked (shown asked) st⟩
  refine Program.SafeOk.tryCatch (fun t =>
    (workspaceProtocol P W work calm).Rely (.opsApply ops) s t ∧
      ∀ known, idempotency = some known → calm → result.committed = true → False)
    (lookUp_outcome.mono fun outcome t right => ?_) (fun _ t _ failed => ?_) trivial ?_
  · obtain ⟨u, su, ut, found⟩ := right
    refine ⟨fun e same => ⟨su.trans ut, fun known carried asked committed => ?_⟩,
      fun snapshot same => ⟨su.trans ut, fun known carried asked committed => ?_⟩⟩
    · obtain ⟨snapshot, shown⟩ := there asked committed known carried
      exact nomatch same.symm.trans ((found snapshot).mp (shown u su))
    · obtain ⟨snapshot', shown⟩ := there asked committed known carried
      obtain rfl := Except.ok.inj (((found snapshot').mp (shown u su)).symm.trans same)
      exact shown t (su.trans ut)
  · refine Program.Safe.mono lookUp_safe fun outcome t' right snapshot same => ?_
    obtain ⟨u, tu, ut', -⟩ := right snapshot same
    exact ⟨failed.1.trans (tu.trans ut'), fun known carried asked committed =>
      absurd committed (failed.2 known carried asked)⟩
  · rintro snapshot t u tu ⟨st, shown⟩
    refine ⟨st.trans tu, fun known carried asked committed => ?_⟩
    subst carried
    exact workspaceSnapshot_rely carries ((applied known rfl).recorded committed).1 asked
      (shown known rfl asked committed) tu

/-- The answer after a batch is the recorded one. -/
theorem answerApplied_safe
    (shown : ∀ known, idempotency = some known → calm → result.committed = true →
      s.workspaceSnapshot result.branch = .ok snapshot) :
    Program.SafeOk (workspaceProtocol P W work calm) (.opsApply ops)
      (fun done t => AnswersAsRecorded work calm idempotency done.result done.snapshot t)
      (answerApplied idempotency result snapshot) s := by
  -- what there is to say of the batch, however long it takes to say it
  have committed : result.committed = true →
      AnswersAsRecorded work calm idempotency result snapshot s := by
    rintro flag known rfl
    obtain ⟨moved, snapshot', there, now⟩ := (applied known rfl).recorded flag
    refine ⟨fun row found => ?_, fun _ => ⟨_, there, rfl, fun asked => ?_⟩⟩
    · obtain ⟨row', found', hash, -⟩ := there
      obtain rfl := Option.some.inj (found'.symm.trans found)
      exact hash
    · exact congrArg some (Except.ok.inj ((now asked).symm.trans (shown known rfl asked flag)))
  have uncommitted : result.committed = false → applyResultWorkspaceError W result snapshot = none →
      AnswersAsRecorded work calm idempotency result snapshot s := by
    rintro flag fine known rfl
    obtain ⟨fresh, failed⟩ := (applied known rfl).failed flag
    refine ⟨fun row found => (nomatch fresh.symm.trans found), fun asked => ?_⟩
    rcases failed asked with conflict | error
    · simp [applyResultWorkspaceError, conflict] at fine
    · simp [applyResultWorkspaceError, error] at fine
  unfold answerApplied
  refine Program.SafeOk.bind (fun cached t =>
    (workspaceProtocol P W work calm).Rely (.opsApply ops) s t ∧
    ∀ done, cached = some done →
      AnswersAsRecorded work calm idempotency done.result done.snapshot t) ?_
    (fun cached t _ found => ?_) trivial
  · cases result.committed with
    | true => exact Program.safeOk_return fun t st _ => ⟨st, nofun⟩
    | false => exact cachedIdempotentApplyResult_safe carries
  · cases cached with
    | some cached => exact Program.safeOk_return fun u tu _ => (found.2 cached rfl).rely carries tu
    | none =>
      dsimp only
      cases fine : applyResultWorkspaceError W result snapshot with
      | none =>
        refine Program.safeOk_return fun u tu _ => ?_
        cases flag : result.committed with
        | true => exact (committed flag).rely carries (found.1.trans tu)
        | false => exact (uncommitted flag fine).rely carries (found.1.trans tu)
      | some error =>
        refine Program.SafeOk.bind _ (cachedIdempotentApplyResult_safe carries)
          (fun cached t _ found => ?_) trivial
        cases cached with
        | some cached =>
          exact Program.safeOk_return fun u tu _ => (found.2 cached rfl).rely carries tu
        | none => exact Program.safeOk_throw _

end After

/-- What a request is answered with, if nothing goes wrong, is the recorded answer. -/
theorem opsApply_safe (reads : W.ReadsResponses)
    (carries : ops.idempotency P W = .ok idempotency) (fresh : Fresh idempotency s) :
    Program.SafeOk (workspaceProtocol P W work calm) (.opsApply ops)
      (fun done t => AnswersAsRecorded work calm idempotency done.result done.snapshot t)
      (opsApply P ops.val.params idempotency) s := by
  unfold opsApply
  refine Program.SafeOk.bind (fun document t => applyDocumentParam W.debug W.transactionFromValue
      ops.val.params true = .ok document ∧ Fresh idempotency t)
    (orMethodError_safe fun _ read _ st => ⟨read, fresh.rely carries st⟩)
    (fun document t _ right => ?_) trivial
  obtain ⟨spelled, fresh⟩ := right
  refine Program.SafeOk.bind (fun _ t => Fresh idempotency t)
    (orMethodError_safe fun _ _ _ tu => fresh.rely carries tu) (fun expected t _ fresh => ?_)
    trivial
  cases expected with
  | none => exact Program.safeOk_throw _
  | some expectedRoot =>
    refine Program.SafeOk.bind _ lookUp_safe (fun current t' _ right => ?_) trivial
    obtain ⟨u, tu, ut', -⟩ := right
    have fresh := fresh.rely carries (tu.trans ut')
    by_cases stale : current.rootHash ≠ expectedRoot
    · rw [if_pos stale]
      refine Program.SafeOk.bind _ (cachedIdempotentApplyResult_safe carries)
        (fun cached t _ found => ?_) trivial
      cases cached with
      | some cached => exact Program.safeOk_return fun v tv _ =>
        (found.2 cached rfl).rely carries tv
      | none => exact Program.safeOk_throw _
    · rw [if_neg stale]
      refine Program.SafeOk.bind _ (applyJsonStrWithCommitHook_safe reads carries fresh
        fun batch parsed => ?_) (fun result t _ applied => ?_) trivial
      · simp only [OpsApplyRequest.batch, spelled, parsed]
        rfl
      · refine Program.SafeOk.bind _ (snapshotAfter_safe carries applied)
          (fun snapshot v _ right => ?_) trivial
        exact answerApplied_safe carries (fun known carried =>
          (applied known carried).rely (carried ▸ carries) right.1) right.2

/-! ### Serving a request -/

/-- Nothing is promised of errors. -/
theorem respondError_safe (error : WorkspaceMethodError E) (id : Option JsonValue) :
    (respondError error id).Safe (workspaceProtocol P W work calm) (.opsApply ops)
      (AnsweredAsRecorded P work calm ops) s := by
  have failed : ∀ snapshot t, AnsweredAsRecorded P work calm ops
      (WorkspaceResponse.ofError error snapshot id) (t : WorkspaceDb W) := by
    intro snapshot t fine
    exact absurd rfl fine
  unfold respondError
  cases error.snapshot with
  | some snapshot => exact Program.safe_pure fun t _ _ => failed _ t
  | none =>
    refine Program.Safe.bind (read_safe _) (fun main t _ _ => ?_) trivial
    exact Program.safe_pure fun t _ _ => failed _ t

theorem dispatchOpsApply_safe (reads : W.ReadsResponses)
    (carries : ops.idempotency P W = .ok idempotency) (fresh : Fresh idempotency s) :
    (dispatchOpsApply P ops idempotency).Safe (workspaceProtocol P W work calm) (.opsApply ops)
      (AnsweredAsRecorded P work calm ops) s := by
  refine Program.Safe.bind (opsApply_safe reads carries fresh) (fun outcome t _ right => ?_) trivial
  cases outcome with
  | error error => exact respondError_safe error _
  | ok done =>
    refine Program.safe_pure fun u tu _ _ known carried => ?_
    obtain rfl := Except.ok.inj (carries.symm.trans carried)
    obtain ⟨own, answer⟩ := (right done rfl).rely carries tu known rfl
    refine ⟨own, fun asked => ?_⟩
    obtain ⟨recorded, there, result, snapshot⟩ := answer asked
    exact ⟨recorded, there, result.symm, fun asked => (snapshot asked).symm⟩

/-- A request is answered with what is recorded for it. -/
theorem executeWorkspaceRequest_safe (reads : W.ReadsResponses) :
    (executeWorkspaceRequest P ops).Safe (workspaceProtocol P W work calm) (.opsApply ops)
      (AnsweredAsRecorded P work calm ops) s := by
  unfold executeWorkspaceRequest
  dsimp only
  split_ifs with schema jsonrpc
  · exact respondError_safe _ _
  · exact respondError_safe _ _
  · cases carries : ops.idempotency P W with
    | error message => exact respondError_safe _ _
    | ok idempotency =>
      cases idempotency with
      | none => exact dispatchOpsApply_safe reads carries nofun
      | some known =>
        refine Program.Safe.bind (read_safe _) (fun found t _ right => ?_) trivial
        obtain ⟨u, su, ut, rfl⟩ := right
        cases run : u.cachedWorkspaceTransactionResponse known.requestId known.requestHash with
        | error message => exact respondError_safe _ _
        | ok found =>
          obtain ⟨rfl, absent⟩ | ⟨row, rfl, there, hash⟩ :=
            cachedWorkspaceTransactionResponse_ok run
          -- nothing was recorded under the id, and so nothing is until the request is committed
          · refine dispatchOpsApply_safe reads carries fun known' same => ?_
            obtain rfl := Option.some.inj same
            exact (lookup_rely carries ut rfl).trans absent
          · dsimp only
            cases stored : W.readResponse row.responseJson with
            | error message => exact respondError_safe _ _
            | ok response =>
              refine Program.safe_pure fun v tv _ _ known' carried => ?_
              obtain rfl := Option.some.inj (Except.ok.inj (carries.symm.trans carried))
              have now := (lookup_rely carries (ut.trans tv) rfl).trans there
              refine ⟨fun row' found => ?_, fun _ => ⟨response, ⟨row, now, hash, stored⟩, rfl,
                fun _ => rfl⟩⟩
              obtain rfl := Option.some.inj (now.symm.trans found)
              exact hash

/-- Every request is served by moves, and answered with what is recorded. -/
theorem workspaceCode_safe (reads : W.ReadsResponses) (request : ClientRequest E)
    (s : WorkspaceDb W) (kept : (workspaceProtocol P W work calm).inv s) :
    (workspaceCode P W request).Safe (workspaceProtocol P W work calm) request
      (WorkspacePost P W work calm request) s := by
  cases request with
  | opsApply ops =>
    refine Program.Safe.bind (executeWorkspaceRequest_safe reads)
      (fun response t _ right => Program.safe_pure fun u tu _ => ?_) kept
    intro ops' response' sameOps same
    obtain rfl := ClientRequest.opsApply.inj sameOps
    obtain rfl := Option.some.inj same
    intro fine known carried
    obtain ⟨own, answer⟩ := right fine known carried
    refine ⟨fun row found => own row ((lookup_rely carried tu rfl).symm.trans found),
      fun asked => ?_⟩
    obtain ⟨recorded, there, same⟩ := answer asked
    exact ⟨recorded, Recorded.rely there carried tu, same⟩
  | transaction request =>
    refine Program.safe_atomically fun t _ _ _ => ⟨⟨fun _ _ found => found, Or.inl ⟨rfl, rfl⟩,
      fun reuses => ?_, fun name state other found => ?_⟩, trivial,
      fun _ _ _ _ _ sameOps => nomatch sameOps⟩
    · obtain ⟨known, row, none, -⟩ := reuses
      exact nomatch none
    · exact (perform_moves t.db request).stays other found

end Serving

end CodeDb

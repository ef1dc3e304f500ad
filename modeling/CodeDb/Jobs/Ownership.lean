import CodeDb.Jobs.ArtifactJobs
import CodeDb.Lib.Except

/-!
# One owner for each artifact job

Whatever workers do, and in whatever order, a running job has one owner: the worker
that claimed it last. Nobody else changes its row, and nobody else gets the job
before the owner has completed, failed or abandoned it. The row of a job is never
removed, keeps its kind, and always has the worker, the timestamps and the error that
its status calls for.

All of it follows from what a single statement can do to the row of a job, which is
`JobsMove`, and nothing a worker saw earlier matters.

## Main definitions

* `JobsMove` — what an action may do to the rows
* `Shaped` — the columns a status calls for

## Main results

* `jobCode_keeps` — every action of every worker is such a move
* `artifactJobs_one_owner` — jobs have one owner, in every run of any number of workers
-/

namespace CodeDb

open Interleaving

variable {P : Primitives} {request : JobRequest} {db db' : JobsDb} {key other worker : String}

/-! ### What an action may do -/

/-- A worker runs a job. -/
def JobsDb.RunsJob (db : JobsDb) (key worker : String) : Prop :=
  ∃ row, db.artifactJobs.lookup key = some row ∧ row.status = .running ∧
    row.workerId = some worker

/-- A request by which a worker gives up a job. -/
def JobRequest.Ends (request : JobRequest) (key worker : String) : Prop :=
  request = .complete key worker ∨ (∃ error, request = .fail key worker error) ∨
    ∃ error, request = .abandon key worker error

/-- The worker, the timestamps and the error of a row are there exactly as its status
calls for. -/
def ArtifactJobRow.Shaped (row : ArtifactJobRow) : Prop :=
  match row.status with
  | .queued => row.workerId.isNone ∧ row.startedAt.isNone ∧ row.finishedAt.isNone ∧
      row.errorJson.isNone
  | .running => row.workerId.isSome ∧ row.startedAt.isSome ∧ row.finishedAt.isNone ∧
      row.errorJson.isNone
  | .succeeded => row.workerId.isSome ∧ row.startedAt.isSome ∧ row.finishedAt.isSome ∧
      row.errorJson.isNone
  | .failed | .abandoned => row.workerId.isSome ∧ row.startedAt.isSome ∧
      row.finishedAt.isSome ∧ row.errorJson.isSome

/-- Every row has the columns its status calls for. -/
def JobsDb.Shaped (db : JobsDb) : Prop :=
  ∀ key row, db.artifactJobs.lookup key = some row → row.Shaped

/-- What an action may do to the rows: jobs stay and keep their kind, the row of a
running job is touched by its worker alone, who gives it up, and a worker gets a job
that did not run. -/
structure JobsMove (request : JobRequest) (before : JobsDb) (events : List JobEvent)
    (after : JobsDb) : Prop where
  kind : ∀ key row, before.artifactJobs.lookup key = some row →
    ∃ row', after.artifactJobs.lookup key = some row' ∧ row'.artifactKind = row.artifactKind
  owned : ∀ key row worker, before.artifactJobs.lookup key = some row → row.status = .running →
    row.workerId = some worker → after.artifactJobs.lookup key = some row ∨
      (request.Ends key worker ∧ events = [.ended key worker])
  events : events = [] ∨
    (∃ key worker, events = [.claimed key worker] ∧ after.RunsJob key worker ∧
      ∀ owner, ¬ before.RunsJob key owner) ∨
    ∃ key worker, events = [.ended key worker]

/-- What jobs promise: an action is a move, and rows are shaped in between. -/
def jobProtocol : Protocol JobRequest JobsDb JobEvent where
  inv := JobsDb.Shaped
  careful _ _ _ := True
  effect := JobsMove
  apart _ _ := True
  symm _ _ _ := trivial

/-! ### Moves -/

/-- An action that leaves the rows alone. -/
theorem JobsMove.of_same (same : db'.artifactJobs = db.artifactJobs) :
    JobsMove request db [] db' where
  kind key row found := ⟨row, by rw [same]; exact found, rfl⟩
  owned key row worker found _ _ := Or.inl (by rw [same]; exact found)
  events := Or.inl rfl

/-- A move after one that nothing is told of. -/
theorem JobsMove.after_silent {mid : JobsDb} {events : List JobEvent}
    (first : JobsMove request db [] mid) (second : JobsMove request mid events db') :
    JobsMove request db events db' where
  kind key row found := by
    obtain ⟨row', found', same⟩ := first.kind key row found
    obtain ⟨row'', found'', same'⟩ := second.kind key row' found'
    exact ⟨row'', found'', same'.trans same⟩
  owned key row worker found running owner := by
    rcases first.owned key row worker found running owner with kept | ⟨-, told⟩
    · exact second.owned key row worker kept running owner
    · exact absurd told (by simp)
  events := by
    refine second.events.imp_right (Or.imp_left ?_)
    rintro ⟨key, worker, rfl, runs, free⟩
    refine ⟨key, worker, rfl, runs, fun owner => ?_⟩
    rintro ⟨row, found, running, owns⟩
    rcases first.owned key row owner found running owns with kept | ⟨-, told⟩
    · exact free owner ⟨row, kept, running, owns⟩
    · exact absurd told (by simp)

/-- Inserting a row keeps the rows that are there. -/
theorem JobsMove.insertJob (row : ArtifactJobRow) :
    JobsMove request db [] (db.insertJob key row) where
  kind _ old found := ⟨old, lookup_insertOrIgnore_of_some found, rfl⟩
  owned _ _ _ found _ _ := Or.inl (lookup_insertOrIgnore_of_some found)
  events := Or.inl rfl

theorem JobsDb.Shaped.insertJob (shaped : db.Shaped) {row : ArtifactJobRow} (new : row.Shaped) :
    (db.insertJob key row).Shaped := by
  intro other old found
  by_cases same : other = key
  · subst same
    rw [JobsDb.insertJob, lookup_insertOrIgnore_self, Option.some.injEq] at found
    cases there : db.artifactJobs.lookup other with
    | none => rw [there] at found; exact found ▸ new
    | some old' => rw [there] at found; exact found ▸ shaped other old' there
  · rw [JobsDb.insertJob, lookup_insertOrIgnore_of_ne _ _ same] at found
    exact shaped other old found

/-- An update changed nothing, or one row that met the condition. -/
theorem JobsDb.updateJob_cases (db : JobsDb) (key : String) (condition : ArtifactJobRow → Bool)
    (set : ArtifactJobRow → ArtifactJobRow) :
    db.updateJob key condition set = (false, db) ∨
      ∃ row, db.artifactJobs.lookup key = some row ∧ condition row = true ∧
        db.updateJob key condition set =
          (true, { db with artifactJobs := db.artifactJobs.insert key (set row) }) := by
  unfold JobsDb.updateJob
  cases found : db.artifactJobs.lookup key with
  | none => exact Or.inl rfl
  | some row =>
    by_cases met : condition row = true
    · exact Or.inr ⟨row, rfl, met, by simp [met]⟩
    · exact Or.inl (by simp [met])

section Update

variable {row new : ArtifactJobRow} (found : db.artifactJobs.lookup key = some row)
include found

/-- Updating a row keeps the rest. A row that does not run is anybody's, as long as
the update keeps its kind. -/
theorem JobsMove.insert (kind : new.artifactKind = row.artifactKind)
    (free : row.status ≠ .running) :
    JobsMove request db [] { db with artifactJobs := db.artifactJobs.insert key new } where
  kind other old there := by
    by_cases same : other = key
    · subst same
      obtain rfl := Option.some.inj (found.symm.trans there)
      exact ⟨new, AList.lookup_insert _, kind⟩
    · exact ⟨old, (AList.lookup_insert_ne same).trans there, rfl⟩
  owned other old worker there running _ := by
    by_cases same : other = key
    · subst same
      obtain rfl := Option.some.inj (found.symm.trans there)
      exact absurd running free
    · exact Or.inl ((AList.lookup_insert_ne same).trans there)
  events := Or.inl rfl

/-- A worker may take a job that does not run. -/
theorem JobsMove.take (kind : new.artifactKind = row.artifactKind) (free : row.status ≠ .running)
    (runs : new.status = .running) (owner : new.workerId = some worker) :
    JobsMove request db [.claimed key worker]
      { db with artifactJobs := db.artifactJobs.insert key new } where
  kind := (JobsMove.insert found kind free : JobsMove request db [] _).kind
  owned other old worker' there running owns := by
    rcases (JobsMove.insert found kind free : JobsMove request db [] _).owned other old worker'
      there running owns with kept | ⟨-, told⟩
    · exact Or.inl kept
    · exact absurd told (by simp)
  events := by
    refine Or.inr (Or.inl ⟨key, worker, rfl, ⟨new, AList.lookup_insert _, runs, owner⟩, ?_⟩)
    rintro owner' ⟨old, there, running, -⟩
    obtain rfl := Option.some.inj (found.symm.trans there)
    exact free running

/-- The worker of a job may end it. -/
theorem JobsMove.end (kind : new.artifactKind = row.artifactKind)
    (owner : row.workerId = some worker) (ends : request.Ends key worker) :
    JobsMove request db [.ended key worker]
      { db with artifactJobs := db.artifactJobs.insert key new } where
  kind other old there := by
    by_cases same : other = key
    · subst same
      obtain rfl := Option.some.inj (found.symm.trans there)
      exact ⟨new, AList.lookup_insert _, kind⟩
    · exact ⟨old, (AList.lookup_insert_ne same).trans there, rfl⟩
  owned other old worker' there _ owns := by
    by_cases same : other = key
    · subst same
      obtain rfl := Option.some.inj (found.symm.trans there)
      obtain rfl := Option.some.inj (owner.symm.trans owns)
      exact Or.inr ⟨ends, rfl⟩
    · exact Or.inl ((AList.lookup_insert_ne same).trans there)
  events := Or.inr (Or.inr ⟨key, worker, rfl⟩)

omit found in
theorem JobsDb.Shaped.insert (shaped : db.Shaped) (new : row.Shaped) :
    JobsDb.Shaped { db with artifactJobs := db.artifactJobs.insert key row } := by
  intro other old there
  by_cases same : other = key
  · subst same
    obtain rfl := Option.some.inj ((AList.lookup_insert _).symm.trans there)
    exact new
  · exact shaped other old ((AList.lookup_insert_ne same).symm.trans there)

end Update

/-! ### Statements -/

/-- A statement that does what is allowed keeps to the protocol. -/
theorem execute_keeps {change : JobsDb → JobsDb}
    (allowed : ∀ db, db.Shaped → JobsMove request db [] (change db) ∧ (change db).Shaped) :
    Program.Keeps jobProtocol request (execute change) :=
  Program.Keeps.bind (Program.keeps_atomically fun db shaped _ => allowed db shaped)
    fun _ => Program.keeps_pure _

theorem executeUpdate_keeps {change : JobsDb → Bool × JobsDb}
    (allowed : ∀ db, db.Shaped → JobsMove request db [] (change db).2 ∧ (change db).2.Shaped) :
    Program.Keeps jobProtocol request (executeUpdate change) :=
  Program.Keeps.bind (Program.keeps_atomically fun db shaped _ => allowed db shaped)
    fun _ => Program.keeps_pure _

theorem queryJobs_keeps {α : Type} {query : JobsDb → Except Error α} :
    Program.Keeps jobProtocol request (queryJobs query) :=
  Program.keeps_read fun _ _ => JobsMove.of_same rfl

/-- An update of a row that does not run, which keeps its kind and leaves it shaped. -/
theorem updateJob_move {condition : ArtifactJobRow → Bool} {set : ArtifactJobRow → ArtifactJobRow}
    (shaped : db.Shaped)
    (sets : ∀ row, condition row = true → row.Shaped → row.status ≠ .running ∧
      (set row).artifactKind = row.artifactKind ∧ (set row).Shaped) :
    JobsMove request db [] (db.updateJob key condition set).2 ∧
      (db.updateJob key condition set).2.Shaped := by
  rcases db.updateJob_cases key condition set with same | ⟨row, found, met, changed⟩
  · rw [same]
    exact ⟨.of_same rfl, shaped⟩
  · obtain ⟨free, kind, new⟩ := sets row met (shaped key row found)
    rw [changed]
    exact ⟨.insert found kind free, shaped.insert new⟩

theorem observeJob_move {kind : ArtifactKind} (shaped : db.Shaped) :
    JobsMove request db [] (db.observeJob key kind).2 ∧ (db.observeJob key kind).2.Shaped := by
  refine updateJob_move shaped fun row met _ => ?_
  simp only [Bool.and_eq_true, bne_iff_ne] at met
  refine ⟨met.2, rfl, ?_⟩
  simp [ArtifactJobRow.Shaped]

theorem requeueJob_move (shaped : db.Shaped) :
    JobsMove request db [] (db.requeueJob key).2 ∧ (db.requeueJob key).2.Shaped := by
  refine updateJob_move shaped fun row met _ => ?_
  simp only [Bool.and_eq_true, beq_iff_eq] at met
  refine ⟨by simp [met.1], rfl, ?_⟩
  simp [JobsDb.queuedRow, ArtifactJobRow.Shaped]

/-- A worker that got a job runs it, and nobody did before. -/
theorem takeJob_move (kind : ArtifactKind) (shaped : db.Shaped) :
    (db.takeJob key kind worker = (false, db)) ∨
      ((db.takeJob key kind worker).1 = true ∧
        JobsMove request db [.claimed key worker] (db.takeJob key kind worker).2 ∧
        (db.takeJob key kind worker).2.Shaped) := by
  unfold JobsDb.takeJob
  refine (db.updateJob_cases key _ _).imp_right ?_
  rintro ⟨row, found, met, changed⟩
  rw [changed]
  have free : row.status ≠ .running := by
    intro running
    simp [running] at met
  refine ⟨rfl, .take found rfl free rfl rfl, shaped.insert ?_⟩
  simp [ArtifactJobRow.Shaped]

/-! ### Functions of workers -/

theorem checkArtifactKind_keeps {kind : ArtifactKind} :
    Program.Keeps jobProtocol request (do
      match ← queryJobs (·.artifactJobRecord P key) with
      | none => throw ("artifact job " ++ key ++ " was not recorded")
      | some record =>
        if record.artifactKind ≠ kind then
          throw (JobsDb.kindMismatch key record.artifactKind kind) : Jobs Unit) := by
  refine queryJobs_keeps.bindExcept fun record => ?_
  cases record with
  | none => exact Program.keeps_throw _
  | some record =>
    dsimp only
    split_ifs
    · exact Program.keeps_throw _
    · exact Program.keeps_return _

theorem ensureArtifactJobForCacheState_keeps {kind : ArtifactKind} {cacheExists : Bool} :
    Program.Keeps jobProtocol request
      (ensureArtifactJobForCacheState P key kind cacheExists) := by
  unfold ensureArtifactJobForCacheState
  cases cacheExists with
  | true =>
    refine (execute_keeps fun db shaped => ⟨.insertJob _, shaped.insertJob ?_⟩).bindExcept
      fun _ => (executeUpdate_keeps fun db shaped => observeJob_move shaped).bindExcept
      fun _ => checkArtifactKind_keeps
    simp [JobsDb.observedRow, ArtifactJobRow.Shaped]
  | false =>
    refine (execute_keeps fun db shaped => ⟨.insertJob _, shaped.insertJob ?_⟩).bindExcept
      fun _ => checkArtifactKind_keeps
    simp [JobsDb.queuedRow, ArtifactJobRow.Shaped]

/-- A claim inserts the row if there is none, and then takes the job or leaves the rows
as they are. -/
theorem claimInTx_cases {kind : ArtifactKind} {claim : ArtifactJobClaim}
    (run : db.claimInTx P key kind worker = .ok (claim, db')) :
    db' = ((db.insertJob key (JobsDb.queuedRow kind)).takeJob key kind worker).2 ∧
      (claim = .claimed ↔
        ((db.insertJob key (JobsDb.queuedRow kind)).takeJob key kind worker).1 = true) := by
  unfold JobsDb.claimInTx at run
  dsimp only at run
  generalize ((db.insertJob key (JobsDb.queuedRow kind)).takeJob key kind worker) = taken at run ⊢
  obtain ⟨record, -, run⟩ := Except.bind_eq_ok.mp run
  cases record with
  | none => simp at run
  | some record =>
    dsimp only at run
    split_ifs at run with changed _ _
    all_goals
      obtain ⟨rfl, rfl⟩ := Prod.mk.inj (Except.ok.inj run)
      simp [changed]

theorem claimArtifactJob_keeps {kind : ArtifactKind} :
    Program.Keeps jobProtocol request (claimArtifactJob P key kind worker) := by
  refine Program.keeps_atomically fun db shaped _ => ?_
  have inserted : (db.insertJob key (JobsDb.queuedRow kind)).Shaped :=
    shaped.insertJob (by simp [JobsDb.queuedRow, ArtifactJobRow.Shaped])
  cases run : db.claimInTx P key kind worker with
  | error message => exact ⟨.of_same rfl, shaped⟩
  | ok outcome =>
    obtain ⟨claim, after⟩ := outcome
    obtain ⟨rfl, got⟩ := claimInTx_cases run
    have taken : _ ∨ (_ ∧ JobsMove request _ [.claimed key worker] _ ∧ _) :=
      takeJob_move kind inserted
    rcases taken with same | ⟨changed, move, kept⟩
    · have other : claim ≠ .claimed := by
        rw [Ne, got, same]
        simp
      have silent : finishJobTransaction db key worker (.ok (claim,
          ((db.insertJob key (JobsDb.queuedRow kind)).takeJob key kind worker).2)) =
          (.ok claim, [], db.insertJob key (JobsDb.queuedRow kind)) := by
        rw [same]
        cases claim <;> simp_all [finishJobTransaction]
      rw [silent]
      exact ⟨.insertJob _, inserted⟩
    · obtain rfl := got.mpr changed
      exact ⟨(JobsMove.insertJob _).after_silent move, kept⟩

/-- Ending a job is a move if the request is one to end it. -/
theorem endArtifactJob_keeps {status : JobStatus} {errorJson : Option String}
    (ends : request.Ends key worker)
    (shape : ∀ row : ArtifactJobRow, row.Shaped → row.status = .running → ∀ now,
      ArtifactJobRow.Shaped { row with
        status := status, finishedAt := some now, errorJson := errorJson }) :
    Program.Keeps jobProtocol request (endArtifactJob status errorJson key worker) := by
  refine Program.keeps_atomically fun db shaped _ => ?_
  unfold JobsDb.endJob
  rcases db.updateJob_cases key (fun row => row.status == .running && row.workerId == some worker)
    (fun row => { row with
      status := status, finishedAt := some db.currentTimestamp, errorJson := errorJson }) with
    same | ⟨row, found, met, changed⟩
  · rw [same]
    exact ⟨.of_same rfl, shaped⟩
  · rw [changed]
    simp only [Bool.and_eq_true, beq_iff_eq] at met
    exact ⟨.end found rfl met.2 ends,
      shaped.insert (shape row (shaped key row found) met.1 db.currentTimestamp)⟩

/-- The columns of a row once its worker has ended the job. -/
theorem shaped_ended {row : ArtifactJobRow} (shaped : row.Shaped) (running : row.status = .running)
    (now : String) {status : JobStatus} {errorJson : Option String}
    (ended : (status = .succeeded ∧ errorJson = none) ∨
      ((status = .failed ∨ status = .abandoned) ∧ errorJson.isSome)) :
    ArtifactJobRow.Shaped { row with
      status := status, finishedAt := some now, errorJson := errorJson } := by
  simp only [ArtifactJobRow.Shaped, running] at shaped
  obtain ⟨worker, started, -, -⟩ := shaped
  rcases ended with ⟨rfl, rfl⟩ | ⟨rfl | rfl, error⟩
  · exact ⟨worker, started, rfl, rfl⟩
  · exact ⟨worker, started, rfl, error⟩
  · exact ⟨worker, started, rfl, error⟩

theorem watchArtifactJob_keeps {record : ArtifactJobRecord} :
    Program.Keeps jobProtocol request (watchArtifactJob P key record) := by
  unfold watchArtifactJob
  cases record.status with
  | failed | abandoned => exact Program.keeps_throw _
  | queued | running => exact Program.keeps_return _
  | succeeded =>
    refine (executeUpdate_keeps fun db shaped => requeueJob_move shaped).bindExcept
      fun changed => ?_
    cases changed with
    | true => exact Program.keeps_throw _
    | false => exact Program.keeps_return _

theorem waitForArtifactCache_keeps {cacheKeyForInput : Except Error String} (polls : Nat) :
    Program.Keeps jobProtocol request (waitForArtifactCache P cacheKeyForInput key polls) := by
  induction polls with
  | zero =>
    refine queryJobs_keeps.bindExcept fun entry => ?_
    cases entry with
    | none => exact Program.keeps_throw _
    | some entry => exact Program.keeps_return _
  | succ polls ih =>
    refine queryJobs_keeps.bindExcept fun entry => ?_
    cases entry with
    | some entry => exact Program.keeps_return _
    | none =>
      refine queryJobs_keeps.bindExcept fun record => ?_
      cases record with
      | none => exact (Program.keeps_return ()).bindExcept fun _ => ih
      | some record => exact watchArtifactJob_keeps.bindExcept fun _ => ih

/-- Every action of every worker is a move that leaves the rows shaped. -/
theorem jobCode_keeps (P : Primitives) (request : JobRequest) :
    (jobCode P request).Keeps jobProtocol request := by
  cases request with
  | ensure key kind cacheExists => exact ensureArtifactJobForCacheState_keeps.mapExcept _
  | claim key kind worker => exact claimArtifactJob_keeps.mapExcept _
  | complete key worker =>
    exact (endArtifactJob_keeps (Or.inl rfl) fun row shaped running now =>
      shaped_ended shaped running now (Or.inl ⟨rfl, rfl⟩)).mapExcept _
  | fail key worker error =>
    exact (endArtifactJob_keeps (Or.inr (Or.inl ⟨error, rfl⟩)) fun row shaped running now =>
      shaped_ended shaped running now (Or.inr ⟨Or.inl rfl, rfl⟩)).mapExcept _
  | abandon key worker error =>
    exact (endArtifactJob_keeps (Or.inr (Or.inr ⟨error, rfl⟩)) fun row shaped running now =>
      shaped_ended shaped running now (Or.inr ⟨Or.inr rfl, rfl⟩)).mapExcept _
  | wait cacheKeyForInput key polls => exact (waitForArtifactCache_keeps polls).mapExcept _
  | changeCache change =>
    refine Program.Keeps.mapExcept (execute_keeps ?_) _
    exact fun db shaped => ⟨.of_same rfl, shaped⟩
  | passTime timestamp =>
    refine Program.Keeps.mapExcept (execute_keeps ?_) _
    exact fun db shaped => ⟨.of_same rfl, shaped⟩

/-! ### Claims -/

/-- A worker that got a job has given it up since, or still runs it; and whoever got a
job did so after the worker before had given it up. -/
structure Claims (events : List JobEvent) (db : JobsDb) : Prop where
  held : ∀ pre key worker post, events = pre ++ .claimed key worker :: post →
    .ended key worker ∈ post ∨ db.RunsJob key worker
  separated : ∀ pre key worker between worker' post,
    events = pre ++ .claimed key worker :: (between ++ .claimed key worker' :: post) →
    .ended key worker ∈ between

theorem Claims.nil : Claims [] db where
  held pre _ _ _ same := absurd same (by simp)
  separated pre _ _ _ _ _ same := absurd same (by simp)

/-- Who runs a job still does after a move, unless the move was to give it up. -/
theorem JobsMove.runsJob {events : List JobEvent} (move : JobsMove request db events db')
    (runs : db.RunsJob key worker) : db'.RunsJob key worker ∨ .ended key worker ∈ events := by
  obtain ⟨row, found, running, owner⟩ := runs
  rcases move.owned key row worker found running owner with kept | ⟨-, rfl⟩
  · exact Or.inl ⟨row, kept, running, owner⟩
  · exact Or.inr (by simp)

/-- A list that ends in one more element splits before it, or at it. -/
private theorem split_concat {α : Type*} {past pre post : List α} {a b : α}
    (same : past ++ [b] = pre ++ a :: post) :
    (post = [] ∧ past = pre ∧ b = a) ∨ ∃ post', post = post' ++ [b] ∧ past = pre ++ a :: post' := by
  rcases List.eq_nil_or_concat post with rfl | ⟨post', last, rfl⟩
  · obtain ⟨rfl, rfl⟩ := List.append_inj' same rfl |>.imp_right (fun h => (List.cons.inj h).1)
    exact Or.inl ⟨rfl, rfl, rfl⟩
  · rw [List.concat_eq_append, ← List.cons_append, ← List.append_assoc] at same
    obtain ⟨rfl, last⟩ := List.append_inj' same rfl
    obtain rfl := (List.cons.inj last).1
    exact Or.inr ⟨post', by simp, rfl⟩

/-- A move keeps what is known of claims. -/
theorem Claims.move {past events : List JobEvent} (claims : Claims past db)
    (move : JobsMove request db events db') : Claims (past ++ events) db' := by
  -- an event is the last one told, so a claim told before is one of the past
  have held : ∀ pre key worker post, past = pre ++ .claimed key worker :: post →
      .ended key worker ∈ post ++ events ∨ db'.RunsJob key worker := by
    intro pre key worker post same
    rcases claims.held pre key worker post same with given | runs
    · exact Or.inl (List.mem_append_left _ given)
    · exact (move.runsJob runs).symm.imp_left (List.mem_append_right _)
  rcases move.events with rfl | ⟨key', worker', rfl, runs, free⟩ | ⟨key', worker', rfl⟩
  · simp only [List.append_nil] at held ⊢
    exact ⟨held, claims.separated⟩
  · constructor
    · intro pre key worker post same
      rcases split_concat same with ⟨rfl, -, told⟩ | ⟨post', rfl, same'⟩
      · obtain ⟨rfl, rfl⟩ := JobEvent.claimed.inj told
        exact Or.inr runs
      · exact held pre key worker post' same'
    · intro pre key worker between worker₂ post same
      rw [← List.cons_append, ← List.append_assoc] at same
      rcases split_concat same with ⟨rfl, same', told⟩ | ⟨post', rfl, same'⟩
      · -- the second claim is the new one, so nobody ran the job before it
        obtain ⟨rfl, rfl⟩ := JobEvent.claimed.inj told
        exact (claims.held pre key' worker between same').resolve_right (free worker)
      · exact claims.separated pre key worker between worker₂ post' (by simpa using same')
  · constructor
    · intro pre key worker post same
      rcases split_concat same with ⟨-, -, told⟩ | ⟨post', rfl, same'⟩
      · exact absurd told (by simp)
      · exact held pre key worker post' same'
    · intro pre key worker between worker₂ post same
      rw [← List.cons_append, ← List.append_assoc] at same
      rcases split_concat same with ⟨-, -, told⟩ | ⟨post', rfl, same'⟩
      · exact absurd told (by simp)
      · exact claims.separated pre key worker between worker₂ post' (by simpa using same')

/-! ### Runs -/

/-- The check of what a row has accepts it exactly if it is shaped. -/
theorem verifyArtifactJob_eq_nil {row : ArtifactJobRow} :
    verifyArtifactJob key row = [] ↔ row.Shaped := by
  obtain ⟨kind, status, workerId, startedAt, finishedAt, errorJson⟩ := row
  cases status <;> cases workerId <;> cases startedAt <;> cases finishedAt <;> cases errorJson <;>
    simp [verifyArtifactJob, ArtifactJobRow.Shaped]

/-- Workers that have not begun, and a table of jobs with no rows. -/
def jobStart (ι : Type) (compileCache : CompileCache) (now : String) :
    Config ι JobRequest JobsDb JobEvent (Except Error JobReply) :=
  ⟨⟨∅, compileCache, now⟩, fun _ => none⟩

section Runs

variable {ι : Type} [DecidableEq ι] {compileCache : CompileCache} {now : String}
  {c c' : Config ι JobRequest JobsDb JobEvent (Except Error JobReply)}
  {trace trace' : Trace ι JobRequest JobsDb JobEvent (Except Error JobReply)}

omit [DecidableEq ι] in
theorem jobStart_safe : (jobStart ι compileCache now).Safe jobProtocol fun _ _ _ => True :=
  .idle (fun key row found => by simp [jobStart] at found) fun _ => rfl

/-- Workers may do anything at any time. -/
theorem jobs_admitted (serving : ι → Option JobRequest) : jobProtocol.Admits serving trace where
  careful step _ := by
    obtain ⟨s, label⟩ := step
    cases label <;> trivial
  apart := Trace.apart_of_forall fun _ _ => trivial

/-- Every configuration that workers reach is safe. -/
theorem jobs_safe (run : Run (jobCode P) (jobStart ι compileCache now) trace c) :
    c.Safe jobProtocol fun _ _ _ => True :=
  run.safe (fun request s inv => jobCode_keeps P request s inv) jobStart_safe (jobs_admitted _)

/-- Artifact jobs have one owner. In every run of any number of workers: between two
claims of a job the first claimant gave it up; the row of a job that runs changes only
by its worker giving the job up; a job stays, and keeps its kind; and a row has the worker, the
timestamps and the error that go with its status. -/
theorem artifactJobs_one_owner (run : Run (jobCode P) (jobStart ι compileCache now) trace c) :
    (∀ pre key worker between worker' post,
      trace.events = pre ++ .claimed key worker :: (between ++ .claimed key worker' :: post) →
      .ended key worker ∈ between) ∧
    (∀ label c', Step (jobCode P) c label c' → ∀ key row worker,
      c.shared.artifactJobs.lookup key = some row → row.status = .running →
      row.workerId = some worker → c'.shared.artifactJobs.lookup key = some row ∨
        ∃ client request events, label = .act client request events ∧ request.Ends key worker) ∧
    (∀ trace' c', Run (jobCode P) c trace' c' → ∀ key row,
      c.shared.artifactJobs.lookup key = some row →
      ∃ row', c'.shared.artifactJobs.lookup key = some row' ∧
        row'.artifactKind = row.artifactKind) ∧
    ∀ key row, c.shared.artifactJobs.lookup key = some row → verifyArtifactJob key row = [] := by
  have programs : ∀ request s, jobProtocol.inv s →
      (jobCode P request).Safe jobProtocol request (fun _ _ => True) s :=
    fun request s inv => jobCode_keeps P request s inv
  have safe := jobs_safe run
  refine ⟨?_, ?_, ?_, fun key row found => verifyArtifactJob_eq_nil.mpr (safe.inv key row found)⟩
  -- what the trace tells of claims is what the rows hold, step by step
  · have claims : Claims trace.events c.shared :=
      run.history programs jobStart_safe (jobs_admitted _) .nil
        fun _ _ _ _ _ _ _ move claims => claims.move move
    exact claims.separated
  · intro label c' step key row worker found running owner
    cases label with
    | act client request events =>
      rcases (step.effect safe trivial).owned key row worker found running owner with
        kept | ⟨ends, -⟩
      · exact Or.inl kept
      · exact Or.inr ⟨client, request, events, rfl, ends⟩
    | start | finish =>
      cases step
      exact Or.inl found
  -- every move keeps the row, whoever makes it
  · intro trace' c' later key row found
    refine later.preserves programs safe (jobs_admitted _)
      (p := fun db => ∃ row', db.artifactJobs.lookup key = some row' ∧
        row'.artifactKind = row.artifactKind) ?_ ⟨row, found, rfl⟩
    rintro request s events t move ⟨row', found', same⟩
    obtain ⟨row'', found'', same'⟩ := move.kind key row' found'
    exact ⟨row'', found'', same'.trans same⟩

end Runs

/-- After two workers claimed the same job, whatever happens next leaves it to the first,
unless the first ends it. -/
theorem artifactJobs_one_owner_two_claims :
    let jobs := (jobStart Bool ∅ "now").turns (jobCode ⟨id, fun _ => [], fun _ => .error ""⟩)
      [(true, .claim "key" .loweredIr "first"), (false, .claim "key" .loweredIr "second"),
        (true, .passTime "later"), (false, .passTime "later")]
    jobs.1.events = [.claimed "key" "first"] ∧
      ∀ label c', Step (jobCode ⟨id, fun _ => [], fun _ => .error ""⟩) jobs.2 label c' →
        c'.shared.RunsJob "key" "first" ∨ ∃ client request events,
          label = .act client request events ∧ request.Ends "key" "first" := by
  refine ⟨rfl, fun label c' step => ?_⟩
  have run := Config.turns_run (jobCode ⟨id, fun _ => [], fun _ => .error ""⟩)
    (jobStart Bool ∅ "now") [(true, .claim "key" .loweredIr "first"),
      (false, .claim "key" .loweredIr "second"), (true, .passTime "later"),
      (false, .passTime "later")]
  exact ((artifactJobs_one_owner run).2.1 label c' step "key" _ "first" rfl rfl rfl).imp_left
    fun found => ⟨_, found, rfl, rfl⟩

end CodeDb

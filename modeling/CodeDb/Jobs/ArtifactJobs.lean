import CodeDb.Lib.Interleaving
import CodeDb.Store.Objects

/-!
# Artifact jobs

Workers that build artifacts coordinate through a table of jobs, one row for each
cache key. A worker claims a job before it builds the artifact, and completes, fails
or abandons it afterwards; a worker that finds the job taken waits until the artifact
is in the cache.

Every statement on the table is atomic, and a claim is a transaction of its own, but
the functions that take several statements can be interrupted by other workers
between them. What the rest of the program does to the cache in the meantime is
arbitrary.

## Main definitions

* `JobsDb`, `ArtifactJobRow` — the table of jobs, and the cache beside it
* `ensureArtifactJobForCacheState`, `claimArtifactJob`, `completeArtifactJob`,
  `failArtifactJob`, `abandonArtifactJob`, `waitForArtifactCache`
* `JobRequest`, `jobCode` — what workers do
* `verifyArtifactJob` — the shape of a row for each status
-/

namespace CodeDb

open Interleaving

inductive ArtifactKind where
  | canonicalSource
  | cProjection
  | typedExpression
  | functionDependencySet
  | interfaceHash
  | implementationHash
  | typeLayout
  | loweredIr
  | objectFile
  | linkPlan
  | executable
  deriving DecidableEq

def ArtifactKind.asStr : ArtifactKind → String
  | .canonicalSource => "canonical_source"
  | .cProjection => "c_projection"
  | .typedExpression => "typed_expression"
  | .functionDependencySet => "function_dependency_set"
  | .interfaceHash => "interface_hash"
  | .implementationHash => "implementation_hash"
  | .typeLayout => "type_layout"
  | .loweredIr => "lowered_ir"
  | .objectFile => "object_file"
  | .linkPlan => "link_plan"
  | .executable => "executable"

/-- The status of a job. -/
inductive JobStatus where
  | queued
  | running
  | succeeded
  | failed
  | abandoned
  deriving DecidableEq

def JobStatus.asStr : JobStatus → String
  | .queued => "queued"
  | .running => "running"
  | .succeeded => "succeeded"
  | .failed => "failed"
  | .abandoned => "abandoned"

/-- A row of the table of jobs. The error is kept as canonical text. -/
structure ArtifactJobRow where
  artifactKind : ArtifactKind
  status : JobStatus
  workerId : Option String
  startedAt : Option String
  finishedAt : Option String
  errorJson : Option String
  deriving DecidableEq

/-- A row as it is read. -/
structure ArtifactJobRecord where
  artifactKind : ArtifactKind
  status : JobStatus
  workerId : Option String
  startedAt : Option String
  finishedAt : Option String
  errorJson : Option JsonValue

/-- A row of the cache. -/
structure CacheRow where
  cacheKeyJson : String
  artifactHash : Hash
  artifactJson : Option String
  artifactBytes : Option (List UInt8)
  deriving DecidableEq

/-- The cached artifacts, by cache key. -/
abbrev CompileCache := AList fun _ : String => CacheRow

/-- The tables that jobs read and write, and what the clock shows. -/
structure JobsDb where
  artifactJobs : AList fun _ : String => ArtifactJobRow
  compileCache : CompileCache
  currentTimestamp : String

/-- What can be told of an action: a worker got a job, or gave it up. -/
inductive JobEvent where
  | claimed (cacheKey workerId : String)
  | ended (cacheKey workerId : String)
  deriving DecidableEq

/-- A function of a worker: its statements one after the other, up to the first error. -/
abbrev Jobs (α : Type) := ExceptT Error (Program JobsDb JobEvent) α

/-- What a claim came to. -/
inductive ArtifactJobClaim where
  | claimed
  | succeeded
  | busy (status : JobStatus) (workerId : Option String)
  deriving DecidableEq

/-! ### Statements -/

namespace JobsDb

/-- Insert a row for a cache key that has none. -/
def insertJob (db : JobsDb) (cacheKey : String) (row : ArtifactJobRow) : JobsDb :=
  { db with artifactJobs := insertOrIgnore db.artifactJobs cacheKey row }

/-- Update the row of a cache key if it meets a condition, and tell whether it did. -/
def updateJob (db : JobsDb) (cacheKey : String) (condition : ArtifactJobRow → Bool)
    (set : ArtifactJobRow → ArtifactJobRow) : Bool × JobsDb :=
  match db.artifactJobs.lookup cacheKey with
  | some row =>
    if condition row then
      (true, { db with artifactJobs := db.artifactJobs.insert cacheKey (set row) })
    else (false, db)
  | none => (false, db)

/-- Read the row of a cache key. -/
def artifactJobRecord (P : Primitives) (db : JobsDb) (cacheKey : String) :
    Except Error (Option ArtifactJobRecord) :=
  match db.artifactJobs.lookup cacheKey with
  | none => .ok none
  | some row => do
    let errorJson ← row.errorJson.mapM P.parseJson
    return some ⟨row.artifactKind, row.status, row.workerId, row.startedAt, row.finishedAt,
      errorJson⟩

/-- The row of a job nobody has worked on. -/
def queuedRow (kind : ArtifactKind) : ArtifactJobRow := ⟨kind, .queued, none, none, none, none⟩

/-- The worker of jobs whose artifact was found in the cache. -/
def cacheObserved : String := "worker:cache-observed"

/-- The row of a job whose artifact was found in the cache. -/
def observedRow (db : JobsDb) (kind : ArtifactKind) : ArtifactJobRow :=
  ⟨kind, .succeeded, some cacheObserved, some db.currentTimestamp, some db.currentTimestamp, none⟩

/-- Note that the artifact of a job was found in the cache, unless the job has
succeeded or runs. -/
def observeJob (db : JobsDb) (cacheKey : String) (kind : ArtifactKind) : Bool × JobsDb :=
  db.updateJob cacheKey
    (fun row => row.artifactKind == kind && row.status != .succeeded && row.status != .running)
    fun row => { row with
      status := .succeeded
      workerId := row.workerId.or (some cacheObserved)
      startedAt := row.startedAt.or (some db.currentTimestamp)
      finishedAt := row.finishedAt.or (some db.currentTimestamp)
      errorJson := none }

/-- Take a job that waits for a worker: a new one, one that was given up, or one whose
artifact is no longer in the cache. -/
def takeJob (db : JobsDb) (cacheKey : String) (kind : ArtifactKind) (workerId : String) :
    Bool × JobsDb :=
  db.updateJob cacheKey
    (fun row => row.artifactKind == kind &&
      (row.status == .queued || row.status == .failed || row.status == .abandoned ||
        (row.status == .succeeded && !db.compileCache.keys.contains cacheKey)))
    fun row => { row with
      status := .running
      workerId := some workerId
      startedAt := some db.currentTimestamp
      finishedAt := none
      errorJson := none }

/-- End a job that a worker runs. -/
def endJob (db : JobsDb) (status : JobStatus) (errorJson : Option String)
    (cacheKey workerId : String) : Bool × JobsDb :=
  db.updateJob cacheKey (fun row => row.status == .running && row.workerId == some workerId)
    fun row => { row with
      status := status
      finishedAt := some db.currentTimestamp
      errorJson := errorJson }

/-- Queue a job again that succeeded but whose artifact is not in the cache. -/
def requeueJob (db : JobsDb) (cacheKey : String) : Bool × JobsDb :=
  db.updateJob cacheKey
    (fun row => row.status == .succeeded && !db.compileCache.keys.contains cacheKey)
    fun row => queuedRow row.artifactKind

/-- What is reported of a job that is registered as another kind. -/
def kindMismatch (cacheKey : String) (registered kind : ArtifactKind) : Error :=
  "artifact job " ++ cacheKey ++ " was registered as " ++ registered.asStr ++ ", not " ++ kind.asStr

/-- Claim a job, in one transaction. -/
def claimInTx (P : Primitives) (db : JobsDb) (cacheKey : String) (kind : ArtifactKind)
    (workerId : String) : Except Error (ArtifactJobClaim × JobsDb) := do
  let (changed, db) := (db.insertJob cacheKey (queuedRow kind)).takeJob cacheKey kind workerId
  match ← db.artifactJobRecord P cacheKey with
  | none => .error "artifact job disappeared after claim attempt"
  | some record =>
    if changed then .ok (.claimed, db)
    else if record.artifactKind ≠ kind then
      .error (kindMismatch cacheKey record.artifactKind kind)
    else if record.status = .succeeded then .ok (.succeeded, db)
    else .ok (.busy record.status record.workerId, db)

end JobsDb

/-! ### Functions of workers -/

/-- A statement that returns nothing. -/
def execute (change : JobsDb → JobsDb) : Jobs Unit :=
  ExceptT.lift (.atomically fun db => ((), [], change db))

/-- A statement that returns whether a row changed. -/
def executeUpdate (change : JobsDb → Bool × JobsDb) : Jobs Bool :=
  ExceptT.lift (.atomically fun db => ((change db).1, [], (change db).2))

/-- A statement that only reads. -/
def queryJobs {α : Type} (query : JobsDb → Except Error α) : Jobs α := Program.read query

def ensureArtifactJob (cacheKey : String) (kind : ArtifactKind) : Jobs Unit :=
  execute (·.insertJob cacheKey (JobsDb.queuedRow kind))

/-- Make sure that a job is there, and noted as done if the artifact was seen in the
cache before. -/
def ensureArtifactJobForCacheState (P : Primitives) (cacheKey : String) (kind : ArtifactKind)
    (cacheExists : Bool) : Jobs Unit := do
  if cacheExists then
    execute fun db => db.insertJob cacheKey (db.observedRow kind)
    let _ ← executeUpdate (·.observeJob cacheKey kind)
  else
    ensureArtifactJob cacheKey kind
  match ← queryJobs (·.artifactJobRecord P cacheKey) with
  | none => throw ("artifact job " ++ cacheKey ++ " was not recorded")
  | some record =>
    if record.artifactKind ≠ kind then
      throw (JobsDb.kindMismatch cacheKey record.artifactKind kind)

/-- The end of a claim: it is committed, or rolled back if it failed. -/
def finishJobTransaction (db : JobsDb) (cacheKey workerId : String) :
    Except Error (ArtifactJobClaim × JobsDb) →
      Except Error ArtifactJobClaim × List JobEvent × JobsDb
  | .ok (.claimed, after) => (.ok .claimed, [.claimed cacheKey workerId], after)
  | .ok (claim, after) => (.ok claim, [], after)
  | .error message => (.error message, [], db)

/-- Claim a job for a worker. -/
def claimArtifactJob (P : Primitives) (cacheKey : String) (kind : ArtifactKind)
    (workerId : String) : Jobs ArtifactJobClaim :=
  Program.atomically fun db =>
    finishJobTransaction db cacheKey workerId (db.claimInTx P cacheKey kind workerId)

/-- What is reported to a worker that does not own a job. -/
def notOwned (cacheKey workerId : String) : Error :=
  "artifact job " ++ cacheKey ++ " is not owned by worker " ++ workerId

/-- End a job a worker has claimed. -/
def endArtifactJob (status : JobStatus) (errorJson : Option String) (cacheKey workerId : String) :
    Jobs Unit :=
  Program.atomically fun db =>
    match db.endJob status errorJson cacheKey workerId with
    | (true, after) => (.ok (), [.ended cacheKey workerId], after)
    | (false, after) => (.error (notOwned cacheKey workerId), [], after)

def completeArtifactJob (cacheKey workerId : String) : Jobs Unit :=
  endArtifactJob .succeeded none cacheKey workerId

def failArtifactJob (P : Primitives) (cacheKey workerId : String) (error : JsonValue) : Jobs Unit :=
  endArtifactJob .failed (some (canonicalJson P.floatText error)) cacheKey workerId

def abandonArtifactJob (P : Primitives) (cacheKey workerId : String) (error : JsonValue) :
    Jobs Unit :=
  endArtifactJob .abandoned (some (canonicalJson P.floatText error)) cacheKey workerId

/-- What is found in the cache. -/
structure CacheEntry where
  cacheKey : String
  cacheKeyJson : String
  artifactHash : Hash
  artifactJson : Option JsonValue
  artifactBytes : Option (List UInt8)

/-- Look for an artifact under the cache key of an input, if the input has one. -/
def JobsDb.lookupCache (P : Primitives) (db : JobsDb) (cacheKeyForInput : Except Error String) :
    Except Error (Option CacheEntry) := do
  let cacheKey ← cacheKeyForInput
  match db.compileCache.lookup cacheKey with
  | none => return none
  | some row => do
    let artifactJson ← row.artifactJson.mapM P.parseJson
    return some ⟨cacheKey, row.cacheKeyJson, row.artifactHash, artifactJson, row.artifactBytes⟩

/-- What a waiting worker does about the job it found: give up where the job was given
up, and queue it again where the artifact is gone. -/
def watchArtifactJob (P : Primitives) (cacheKey : String) (record : ArtifactJobRecord) :
    Jobs Unit :=
  match record.status with
  | .failed | .abandoned =>
    throw ("artifact job " ++ cacheKey ++ " ended as " ++ record.status.asStr ++ ": " ++
      (record.errorJson.map (canonicalJson P.floatText)).getD "null")
  | .queued | .running => pure ()
  | .succeeded => do
    let changed ← executeUpdate (·.requeueJob cacheKey)
    if changed then
      throw ("artifact job " ++ cacheKey ++
        " succeeded but its disposable cache entry is missing; retry the build")

/-- Wait for an artifact, for as many polls as fit in before the deadline. -/
def waitForArtifactCache (P : Primitives) (cacheKeyForInput : Except Error String)
    (cacheKey : String) : Nat → Jobs CacheEntry
  | 0 => do
    match ← queryJobs (·.lookupCache P cacheKeyForInput) with
    | some entry => return entry
    | none => throw ("timed out waiting for artifact job " ++ cacheKey)
  | polls + 1 => do
    match ← queryJobs (·.lookupCache P cacheKeyForInput) with
    | some entry => return entry
    | none =>
      match ← queryJobs (·.artifactJobRecord P cacheKey) with
      | none => pure ()
      | some record => watchArtifactJob P cacheKey record
      waitForArtifactCache P cacheKeyForInput cacheKey polls

/-! ### Requests -/

/-- What workers do, and what happens around them. -/
inductive JobRequest where
  | ensure (cacheKey : String) (kind : ArtifactKind) (cacheExists : Bool)
  | claim (cacheKey : String) (kind : ArtifactKind) (workerId : String)
  | complete (cacheKey workerId : String)
  | fail (cacheKey workerId : String) (error : JsonValue)
  | abandon (cacheKey workerId : String) (error : JsonValue)
  | wait (cacheKeyForInput : Except Error String) (cacheKey : String) (polls : Nat)
  /-- Artifacts are stored or evicted. -/
  | changeCache (change : CompileCache → CompileCache)
  /-- Time passes. -/
  | passTime (timestamp : String)

/-- What a request is answered with. -/
inductive JobReply where
  | unit
  | claim (claim : ArtifactJobClaim)
  | entry (entry : CacheEntry)

/-- The program of a request. -/
def jobCode (P : Primitives) : JobRequest → Program JobsDb JobEvent (Except Error JobReply)
  | .ensure cacheKey kind cacheExists =>
    ((fun _ => .unit) <$> ensureArtifactJobForCacheState P cacheKey kind cacheExists :
      Jobs JobReply)
  | .claim cacheKey kind workerId =>
    (.claim <$> claimArtifactJob P cacheKey kind workerId : Jobs JobReply)
  | .complete cacheKey workerId =>
    ((fun _ => .unit) <$> completeArtifactJob cacheKey workerId : Jobs JobReply)
  | .fail cacheKey workerId error =>
    ((fun _ => .unit) <$> failArtifactJob P cacheKey workerId error : Jobs JobReply)
  | .abandon cacheKey workerId error =>
    ((fun _ => .unit) <$> abandonArtifactJob P cacheKey workerId error : Jobs JobReply)
  | .wait cacheKeyForInput cacheKey polls =>
    (.entry <$> waitForArtifactCache P cacheKeyForInput cacheKey polls : Jobs JobReply)
  | .changeCache change =>
    ((fun _ => .unit) <$>
      execute (fun db => { db with compileCache := change db.compileCache }) : Jobs JobReply)
  | .passTime timestamp =>
    ((fun _ => .unit) <$>
      execute (fun db => { db with currentTimestamp := timestamp }) : Jobs JobReply)

/-! ### The shape of a row -/

/-- What is wrong with the worker, the timestamps and the error of a row, given its
status, as far as they are there or not. What is written in an error, and the kind of a
cached artifact, are looked at elsewhere. -/
def verifyArtifactJob (cacheKey : String) (row : ArtifactJobRow) : List Error :=
  let bad := "bad_artifact_job: " ++ cacheKey
  match row.status with
  | .queued =>
    if row.workerId.isSome || row.startedAt.isSome || row.finishedAt.isSome ||
        row.errorJson.isSome then
      [bad ++ " queued job has worker/timestamp/error metadata"]
    else []
  | .running =>
    (if row.workerId.isNone || row.startedAt.isNone then
      [bad ++ " running job is missing worker or started_at"] else []) ++
    (if row.finishedAt.isSome || row.errorJson.isSome then
      [bad ++ " running job has finished/error metadata"] else [])
  | .succeeded =>
    (if row.workerId.isNone || row.startedAt.isNone || row.finishedAt.isNone then
      [bad ++ " succeeded job is missing worker or timestamps"] else []) ++
    (if row.errorJson.isSome then [bad ++ " succeeded job has error metadata"] else [])
  | .failed | .abandoned =>
    (if row.workerId.isNone || row.startedAt.isNone || row.finishedAt.isNone then
      [bad ++ " " ++ row.status.asStr ++ " job is missing worker or timestamps"] else []) ++
    (if row.errorJson.isNone then
      [bad ++ " failed/abandoned job is missing error_json"] else [])

end CodeDb

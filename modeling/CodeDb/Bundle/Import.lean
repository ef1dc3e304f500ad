import CodeDb.Bundle.Closure
import CodeDb.Verify.Histories

/-!
# Importing bundles

An imported bundle is not believed, it is replayed: its operations are applied one after the other,
from the empty root on, and each must have the conditions, the output and the hashes the bundle
says it has. Then the main branch is set to where the bundle ends.

So of a bundle that is imported, forged or not, the main branch has the history it told of, and what
was there is kept.

## Main definitions

* `importBundleDocument` — the import
* `ArtifactCache` — what it does to artifacts, which are kept apart
* `Db.Replays` — what replaying one migration does

## Main results

* `importMigrations_ledger` — replaying the migrations of a bundle
* `importBundleDocument_exact` — what an import leaves behind
-/

namespace CodeDb

open SortOn Linked

variable (P : Primitives) (E : Engine)

/-! ### Migrations of a bundle -/

section Rows

variable {P}

/-- A hash that may be missing, as errors show it. -/
def debugHash : Option Hash → String
  | some hash => "Some(" ++ hash.quote ++ ")"
  | none => "None"

/-- The row a migration of a bundle is kept as. -/
def BundleMigration.migrationRow (row : BundleMigration P) : MigrationRow where
  parentHistoryHash := row.parentHistoryHash
  inputRootHash := row.inputRootHash
  outputRootHash := row.outputRootHash
  operationKind := row.operationKind
  operationJson := canonicalJson P.floatText row.operation
  preconditionsJson := canonicalJson P.floatText row.preconditions
  postconditionsJson := canonicalJson P.floatText row.postconditions
  agentJson := canonicalJson P.floatText row.agent

/-- The history point a migration of a bundle leads to. -/
def BundleMigration.historyRow (row : BundleMigration P) : HistoryRow where
  parentHistoryHash := row.parentHistoryHash
  migrationHash := row.migrationHash
  outputRootHash := row.outputRootHash

/-- A row is added, or is there already and the same. -/
def insertSame {ν : Type} [DecidableEq ν] (table : AList fun _ : String => ν) (key : String)
    (row : ν) (message : Error) : Except Error (AList fun _ : String => ν) :=
  match table.lookup key with
  | some existing => if existing = row then .ok table else .error message
  | none => .ok (table.insert key row)

def insertMigrationRow (db : Db) (row : BundleMigration P) : Except Error Db := do
  let migrations ← insertSame db.migrations row.migrationHash row.migrationRow
    ("bad_bundle_conflict: existing migration " ++ row.migrationHash ++ " has different content")
  let histories ← insertSame db.histories row.historyHash row.historyRow
    ("bad_bundle_conflict: existing history " ++ row.historyHash ++ " has different content")
  return { db with migrations := migrations, histories := histories }

/-- Replay a migration of a bundle from where the replay is, and keep it. -/
def validateAndInsertBundleMigration (db : Db) (expectedSequence : ℕ) (row : BundleMigration P)
    (current : BranchState) : Except Error (BranchState × Db) := do
  bundleCheck (row.schema = bundleMigrationSchema)
    "bad_bundle_history: unsupported migration schema"
  bundleCheck (row.sequence = expectedSequence)
    ("bad_bundle_history: expected migration sequence " ++ toString expectedSequence ++ ", got " ++
      toString row.sequence)
  let recomputedAudit := bundleMigrationAuditHash row
  bundleCheck (recomputedAudit = row.auditHash)
    ("bad_bundle_history: migration " ++ row.migrationHash ++ " audit hash recomputes to " ++
      recomputedAudit)
  bundleCheck (row.parentHistoryHash = current.historyHash)
    ("bad_bundle_history: migration " ++ row.migrationHash ++ " parent " ++
      debugHash row.parentHistoryHash ++ " does not match current " ++
      debugHash current.historyHash)
  bundleCheck (row.inputRootHash = current.rootHash)
    ("bad_bundle_history: migration " ++ row.migrationHash ++ " expected input " ++
      row.inputRootHash ++ ", import has " ++ current.rootHash)
  let operation ← (E.operationFromValue row.operation).mapError fun err =>
    "bad_bundle_history: invalid operation " ++ toString row.sequence ++ ": " ++ err
  bundleCheck (E.kindName operation = row.operationKind)
    ("bad_bundle_history: operation kind mismatch for " ++ row.migrationHash ++ ": row has " ++
      row.operationKind ++ ", operation has " ++ E.kindName operation)
  let recomputedMigration := migrationHash P current.historyHash current.rootHash
    row.outputRootHash row.operation row.preconditions row.postconditions
  bundleCheck (recomputedMigration = row.migrationHash)
    ("bad_bundle_history: migration " ++ row.migrationHash ++ " recomputes to " ++
      recomputedMigration)
  let preconditions := db.preconditionsFor E current.rootHash operation
  bundleCheck (canonicalJson P.floatText (Db.preconditionsValue E preconditions) =
      canonicalJson P.floatText row.preconditions)
    ("bad_bundle_history: preconditions changed for " ++ row.migrationHash)
  let failedPreconditions ← db.failedPreconditions P E current.rootHash preconditions
  bundleCheck (failedPreconditions.isEmpty)
    ("bad_bundle_history: migration " ++ row.migrationHash ++ " failed preconditions")
  let (produced, objects) ←
    E.applyOperationToRoot db.objects current.rootHash current.historyHash operation
  bundleCheck (produced = row.outputRootHash)
    ("bad_bundle_history: migration " ++ row.migrationHash ++ " expected output " ++
      row.outputRootHash ++ ", produced " ++ produced)
  let postconditions := E.postconditionsFor objects produced operation
  bundleCheck (canonicalJson P.floatText (Db.postconditionsValue E postconditions) =
      canonicalJson P.floatText row.postconditions)
    ("bad_bundle_history: postconditions changed for " ++ row.migrationHash)
  let failedPostconditions ← Db.failedPostconditions P E objects produced postconditions
  bundleCheck (failedPostconditions.isEmpty)
    ("bad_bundle_history: migration " ++ row.migrationHash ++ " failed postconditions")
  let recomputedHistory := historyHash P current.historyHash row.migrationHash produced
  bundleCheck (recomputedHistory = row.historyHash)
    ("bad_bundle_history: history " ++ row.historyHash ++ " recomputes to " ++ recomputedHistory)
  let db ← insertMigrationRow { db with objects := objects } row
  return (⟨produced, some row.historyHash⟩, db)

/-- Replay the migrations of a bundle. -/
def importMigrations :
    Db → ℕ → BranchState → List (BundleMigration P) → Except Error (BranchState × Db)
  | db, _, current, [] => .ok (current, db)
  | db, sequence, current, row :: rest => do
    let (next, db) ← validateAndInsertBundleMigration E db sequence row current
    importMigrations db (sequence + 1) next rest

end Rows

/-! ### Bundles -/

/-- The row an object of a bundle is kept as. -/
def BundleObject.row (object : BundleObject) : StoredObject where
  kind := object.kind
  schemaVersion := object.schemaVersion
  payloadJson := canonicalJson P.floatText object.payload

/-- An object of a bundle is stored, or is there already and the same. -/
def insertBundleObject (objects : Objects) (object : BundleObject) : Except Error Objects :=
  insertSame objects object.hash (object.row P)
    ("bad_bundle_conflict: existing object " ++ object.hash ++ " has different content")

/-- The root of a bundle is indexed. -/
def indexBundleRoot (objects : Objects) (object : BundleObject) : Except Error Objects :=
  if object.kind = "ProgramRoot" then
    (E.indexRoot objects object.hash).mapError fun err =>
      "failed to index bundle root " ++ object.hash ++ ": " ++ err
  else .ok objects

/-- The cache of artifacts, which is a table apart: how an artifact is checked and written to it,
and what is wrong with the database and the cache together. -/
structure ArtifactCache where
  Cache : Type
  /-- The hash of the input that the key of an artifact names. -/
  readInputHash : JsonValue → Except Error Hash
  importBundleArtifact : Cache → BundleArtifact → Except Error Cache
  verify : Db → Cache → Except Error Unit

variable {P} (A : ArtifactCache)

/-- Import a bundle, with its artifacts or without. -/
def importBundleDocument (db : Db) (cache : A.Cache) (document : BundleDocument P)
    (importArtifacts : Bool) : Except Error (Db × A.Cache) := do
  validateBundleManifest document
  let objectsByHash ← validateBundleObjects document
  validateBundleObjectClosure A.readInputHash objectsByHash document
  let bundleObjects := (tableRows objectsByHash).map (·.2)
  let objects ← bundleObjects.foldlM (insertBundleObject P) db.objects
  let objects ← bundleObjects.foldlM (indexBundleRoot E) objects
  let (genesisRoot, objects) ← putProgramRoot P objects .empty
  let (replayed, db) ← importMigrations E { db with objects := objects } 0 ⟨genesisRoot, none⟩
    document.migrations
  bundleCheck (replayed.rootHash = document.manifest.rootHash)
    ("bad_bundle_history: final root mismatch, expected " ++ document.manifest.rootHash ++
      ", replayed " ++ replayed.rootHash)
  bundleCheck (replayed.historyHash = document.manifest.historyHash)
    ("bad_bundle_history: final history mismatch, expected " ++
      debugHash document.manifest.historyHash ++ ", replayed " ++ debugHash replayed.historyHash)
  let artifacts := if importArtifacts then document.artifactCache else []
  let cache ← artifacts.foldlM A.importBundleArtifact cache
  let moved : Except Error Db :=
    match document.manifest.historyHash with
    | some historyHash => db.setBranch mainBranch ⟨document.manifest.rootHash, some historyHash⟩
    | none =>
      if document.manifest.rootHash ≠ genesisRoot then
        .error "bad_bundle_history: non-genesis bundle root requires a migration slice"
      else .ok db
  let db ← moved
  let verified : Except Error Unit :=
    if artifacts = [] then .ok ()
    else
      (A.verify db cache).mapError fun err =>
        "bad_bundle_artifact: imported artifact cache failed verification: " ++ err
  verified
  return (db, cache)

/-- What the import of a bundle does to the database, which is initialized before. -/
def importBundle (db : Db) (cache : A.Cache) (document : BundleDocument P)
    (importArtifacts : Bool) : Db × A.Cache :=
  match db.ensureInitialized P E with
  | .error _ => (db, cache)
  | .ok (_, ready) =>
    match importBundleDocument E A ready cache document importArtifacts with
    | .error _ => (ready, cache)
    | .ok after => after

variable {E} {A} {db db' : Db}

/-! ### One migration -/

theorem insertSame_eq_ok {ν : Type} [DecidableEq ν] {table after : AList fun _ : String => ν}
    {key : String} {row : ν} {message : Error}
    (run : insertSame table key row message = .ok after) :
    after = insertOrIgnore table key row ∧ after.lookup key = some row := by
  unfold insertSame at run
  split at run
  · rename_i existing found
    split_ifs at run with same
    obtain rfl := Except.ok.inj run
    have mem : key ∈ table := AList.lookup_isSome.mp (by simp [found])
    exact ⟨by rw [insertOrIgnore, if_pos mem], same ▸ found⟩
  · rename_i absent
    obtain rfl := Except.ok.inj run
    have fresh : key ∉ table := AList.lookup_eq_none.mp absent
    exact ⟨by rw [insertOrIgnore, if_neg fresh], AList.lookup_insert _⟩

theorem KeptIn.insertSame {objects objects' : Objects} {key : String} {row : StoredObject}
    {message : Error} (run : CodeDb.insertSame objects key row message = .ok objects') :
    KeptIn objects objects' := by
  rw [(insertSame_eq_ok run).1]
  exact fun _ _ found => lookup_insertOrIgnore_of_some found

/-- What replaying a migration of a bundle does: it is kept, with the history point it leads to, and
the replay goes on from there. -/
structure Db.Replays (E : Engine) (db : Db) (row : BundleMigration P) (current next : BranchState)
    (db' : Db) : Prop where
  next : next = ⟨row.outputRootHash, some row.historyHash⟩
  parent : row.parentHistoryHash = current.historyHash
  input : row.inputRootHash = current.rootHash
  operation : ∃ op, E.operationFromValue row.operation = .ok op ∧ E.kindName op = row.operationKind
  migrationKey : row.migrationHash = CodeDb.migrationHash P row.parentHistoryHash row.inputRootHash
    row.outputRootHash row.operation row.preconditions row.postconditions
  historyKey : row.historyHash = CodeDb.historyHash P row.parentHistoryHash row.migrationHash
    row.outputRootHash
  tables : ∃ objects, (E.KeepsObjects → KeptIn db.objects objects) ∧
    row.outputRootHash ∈ objects ∧ db' = { db with objects := objects }.withPoint row.migrationHash
      row.historyHash row.migrationRow row.historyRow
  migration : db'.migrations.lookup row.migrationHash = some row.migrationRow
  history : db'.histories.lookup row.historyHash = some row.historyRow

/-- A root whose conditions were looked at is stored. -/
theorem stored_of_failedPostconditions {objects : Objects} {root : Hash}
    {post failed : List E.Postcondition}
    (run : Db.failedPostconditions P E objects root post = .ok failed) : root ∈ objects := by
  obtain ⟨payload, loaded, -⟩ := Except.bind_eq_ok.mp run
  obtain ⟨value, got, -⟩ := Except.bind_eq_ok.mp loaded
  cases found : objects.lookup root with
  | none => simp [getPayload, found] at got
  | some object => exact AList.lookup_isSome.mp (by simp [found])

theorem validateAndInsertBundleMigration_ok {sequence : ℕ} {row : BundleMigration P}
    {current next : BranchState}
    (run : validateAndInsertBundleMigration E db sequence row current =
      .ok (next, db')) : Db.Replays E db row current next db' := by
  unfold validateAndInsertBundleMigration at run
  -- the checks in the order of the source; what none of the fields says is not kept
  obtain ⟨_, -, run⟩ := Except.bind_eq_ok.mp run
  obtain ⟨_, -, run⟩ := Except.bind_eq_ok.mp run
  obtain ⟨_, -, run⟩ := Except.bind_eq_ok.mp run
  obtain ⟨_, parent, run⟩ := Except.bind_eq_ok.mp run
  obtain ⟨_, input, run⟩ := Except.bind_eq_ok.mp run
  obtain ⟨op, read, run⟩ := Except.bind_eq_ok.mp run
  obtain ⟨_, kind, run⟩ := Except.bind_eq_ok.mp run
  obtain ⟨_, migrationKey, run⟩ := Except.bind_eq_ok.mp run
  obtain ⟨_, -, run⟩ := Except.bind_eq_ok.mp run
  obtain ⟨_, -, run⟩ := Except.bind_eq_ok.mp run
  obtain ⟨_, -, run⟩ := Except.bind_eq_ok.mp run
  obtain ⟨⟨produced, objects⟩, applied, run⟩ := Except.bind_eq_ok.mp run
  obtain ⟨_, output, run⟩ := Except.bind_eq_ok.mp run
  obtain ⟨_, -, run⟩ := Except.bind_eq_ok.mp run
  obtain ⟨_, checked, run⟩ := Except.bind_eq_ok.mp run
  obtain ⟨_, -, run⟩ := Except.bind_eq_ok.mp run
  obtain ⟨_, historyKey, run⟩ := Except.bind_eq_ok.mp run
  obtain ⟨after, inserted, result⟩ := Except.bind_eq_ok.mp run
  obtain ⟨migrations, insertedMigration, inserted⟩ := Except.bind_eq_ok.mp inserted
  obtain ⟨histories, insertedHistory, inserted⟩ := Except.bind_eq_ok.mp inserted
  obtain ⟨goesOn, rfl⟩ := Prod.mk.inj (Except.pure_eq_ok.mp result)
  obtain rfl := Except.pure_eq_ok.mp inserted
  rw [bundleCheck_eq_ok] at parent input kind migrationKey output historyKey
  -- both rows are new, or are there already as the bundle has them
  subst output
  obtain ⟨sameMigrations, foundMigration⟩ := insertSame_eq_ok insertedMigration
  obtain ⟨sameHistories, foundHistory⟩ := insertSame_eq_ok insertedHistory
  refine ⟨goesOn.symm, parent, input, ⟨op, ?_, kind⟩, ?_, ?_, ⟨objects,
    fun keeps => keeps.apply applied, stored_of_failedPostconditions checked, ?_⟩,
    foundMigration, foundHistory⟩
  · cases value : E.operationFromValue row.operation with
    | error err => simp [value, Except.mapError] at read
    | ok op' => simpa [value, Except.mapError] using read
  · rw [parent, input]
    exact migrationKey.symm
  · rw [parent]
    exact historyKey.symm
  · rw [sameMigrations, sameHistories]
    rfl

/-- The item of the history a migration of a bundle becomes. -/
def BundleMigration.item (row : BundleMigration P) : Db.HistoryItem where
  historyHash := row.historyHash
  parentHistoryHash := row.parentHistoryHash
  migrationHash := row.migrationHash
  inputRoot := row.inputRootHash
  outputRoot := row.outputRootHash
  operationKind := row.operationKind
  operationJson := canonicalJson P.floatText row.operation

/-- Operations are read from their texts as they are from their values. -/
def Engine.ReadsTexts (E : Engine) (P : Primitives) : Prop :=
  ∀ value op, P.Reads value value → E.operationFromValue value = .ok op →
    E.readOperation (canonicalJson P.floatText value) = .ok op

namespace Db.Replays

variable {row : BundleMigration P} {current next : BranchState}

theorem keeps (replays : Db.Replays E db row current next db') :
    db.Keeps db' := by
  obtain ⟨objects, -, -, rfl⟩ := replays.tables
  exact ⟨fun _ _ found => lookup_insertOrIgnore_of_some found,
    fun _ _ found => lookup_insertOrIgnore_of_some found⟩

theorem branches (replays : Db.Replays E db row current next db') :
    db'.branches = db.branches := by
  obtain ⟨objects, -, -, rfl⟩ := replays.tables
  rfl

theorem objects (replays : Db.Replays E db row current next db')
    (keepsObjects : E.KeepsObjects) : KeptIn db.objects db'.objects := by
  obtain ⟨objects, kept, -, rfl⟩ := replays.tables
  exact kept keepsObjects

/-- Replaying a migration from a point in order keeps the ledger. -/
theorem ledger (reliable : P.Reliable)
    (replays : Db.Replays E db row current next db') (ledger : Ledger P db)
    (inOrder : db.StateInOrder current) : Ledger P db' ∧ db'.StateInOrder next := by
  -- the migration says that it starts from where the replay is
  have from_row : db.StateInOrder
      ⟨row.migrationRow.inputRootHash, row.migrationRow.parentHistoryHash⟩ := by
    simpa only [BundleMigration.migrationRow, replays.parent, replays.input] using inOrder
  obtain ⟨objects, -, -, rfl⟩ := replays.tables
  rw [replays.next]
  exact @Ledger.withPoint P { db with objects := objects } _ _ row.migrationRow _ reliable
    (ledger.objects objects) _ _ _ from_row replays.migrationKey replays.historyKey rfl

/-- Replaying a migration keeps the rows verified. -/
theorem recorded (keepsObjects : E.KeepsObjects)
    (reads : E.ReadsTexts P)
    (replays : Db.Replays E db row current next db')
    (recorded : Recorded P E db) (stored : current.rootHash ∈ db.objects) :
    Recorded P E db' ∧ next.rootHash ∈ db'.objects := by
  obtain ⟨objects, kept, output, rfl⟩ := replays.tables
  have kept := kept keepsObjects
  obtain ⟨op, read, kind⟩ := replays.operation
  refine ⟨(recorded.objects kept).withPoint ?_ output, by rw [replays.next]; exact output⟩
  refine ⟨⟨row.operation, op, row.preconditions, row.postconditions, row.readsOperation,
    reads _ _ row.readsOperation read, row.readsPreconditions, row.readsPostconditions, kind,
    replays.migrationKey.symm⟩, ?_, output⟩
  rw [← replays.input] at stored
  exact kept.mem stored

/-- The history of the point the replay goes on from has the migration on top. -/
theorem walk (replays : Db.Replays E db row current next db')
    {items : List Db.HistoryItem} (walk : db.Walk current.historyHash items) :
    db'.Walk next.historyHash (row.item :: items) := by
  rw [replays.next]
  refine .step (Db.historyItem?_eq_some.mpr ⟨row.historyRow, row.migrationRow, replays.history,
    replays.migration, rfl⟩) ?_
  have parent : row.item.parentHistoryHash = current.historyHash := replays.parent
  rw [parent]
  exact replays.keeps.walk walk

end Db.Replays

/-! ### All migrations -/

theorem importMigrations_cons {rows : List (BundleMigration P)} {row : BundleMigration P}
    {sequence : ℕ} {current final : BranchState}
    (run : importMigrations E db sequence current (row :: rows) =
      .ok (final, db')) :
    ∃ next mid, Db.Replays E db row current next mid ∧
      importMigrations E mid (sequence + 1) next rows = .ok (final, db') := by
  obtain ⟨⟨next, mid⟩, first, rest⟩ := Except.bind_eq_ok.mp run
  exact ⟨next, mid, validateAndInsertBundleMigration_ok first, rest⟩

/-- Replaying the migrations of a bundle keeps the ledger, and what it goes through is the history
of the point it comes to. -/
theorem importMigrations_ledger (reliable : P.Reliable) {rows : List (BundleMigration P)}
    {sequence : ℕ} {current final : BranchState} (ledger : Ledger P db)
    (inOrder : db.StateInOrder current) {items : List Db.HistoryItem}
    (walk : db.Walk current.historyHash items)
    (run : importMigrations E db sequence current rows = .ok (final, db')) :
    Ledger P db' ∧ db'.StateInOrder final ∧
      db'.Walk final.historyHash ((rows.map (·.item)).reverse ++ items) ∧
      db.Keeps db' ∧ db'.branches = db.branches := by
  -- on the migrations: the walk to where the replay is grows by one item a step
  induction rows generalizing db sequence current items with
  | nil =>
    obtain ⟨rfl, rfl⟩ := Prod.mk.inj (Except.ok.inj run)
    exact ⟨ledger, inOrder, walk, .refl db, rfl⟩
  | cons row rows ih =>
    obtain ⟨next, mid, replays, rest⟩ := importMigrations_cons run
    obtain ⟨ledger', inOrder'⟩ := replays.ledger reliable ledger inOrder
    obtain ⟨ledger'', inOrder'', walk', keeps, branches⟩ :=
      ih ledger' inOrder' (replays.walk walk) rest
    refine ⟨ledger'', inOrder'', ?_, replays.keeps.trans keeps, branches.trans replays.branches⟩
    simpa using walk'

/-- The operations of a bundle can be read from the texts they are recorded as. -/
theorem importMigrations_reads (reads : E.ReadsTexts P) {rows : List (BundleMigration P)}
    {sequence : ℕ} {current final : BranchState}
    (run : importMigrations E db sequence current rows = .ok (final, db')) :
    Db.ReadsItems E (rows.map (·.item)) := by
  induction rows generalizing db sequence current with
  | nil => simp [Db.ReadsItems]
  | cons row rows ih =>
    obtain ⟨next, mid, replays, rest⟩ := importMigrations_cons run
    obtain ⟨op, read, -⟩ := replays.operation
    exact List.forall_mem_cons.mpr ⟨⟨op, reads _ _ row.readsOperation read⟩, ih rest⟩

/-- Replaying the migrations of a bundle keeps the rows verified. -/
theorem importMigrations_recorded (keepsObjects : E.KeepsObjects)
    (reads : E.ReadsTexts P)
    {rows : List (BundleMigration P)} {sequence : ℕ} {current final : BranchState}
    (recorded : Recorded P E db) (stored : current.rootHash ∈ db.objects)
    (run : importMigrations E db sequence current rows = .ok (final, db')) :
    Recorded P E db' := by
  induction rows generalizing db sequence current with
  | nil =>
    obtain ⟨rfl, rfl⟩ := Prod.mk.inj (Except.ok.inj run)
    exact recorded
  | cons row rows ih =>
    obtain ⟨next, mid, replays, rest⟩ := importMigrations_cons run
    obtain ⟨recorded', stored'⟩ := replays.recorded keepsObjects reads recorded stored
    exact ih recorded' stored' rest

theorem importMigrations_objects (keepsObjects : E.KeepsObjects)
    {rows : List (BundleMigration P)} {sequence : ℕ} {current final : BranchState}
    (run : importMigrations E db sequence current rows = .ok (final, db')) :
    KeptIn db.objects db'.objects := by
  induction rows generalizing db sequence current with
  | nil =>
    obtain ⟨rfl, rfl⟩ := Prod.mk.inj (Except.ok.inj run)
    exact .refl _
  | cons row rows ih =>
    obtain ⟨next, mid, replays, rest⟩ := importMigrations_cons run
    exact (replays.objects keepsObjects).trans (ih rest)

/-! ### A whole bundle -/

/-- The objects of a bundle are stored as the bundle has them. -/
theorem insertBundleObjects_ok {list : List BundleObject} {objects objects' : Objects}
    (run : list.foldlM (insertBundleObject P) objects = .ok objects') :
    KeptIn objects objects' ∧ ∀ object ∈ list,
      objects'.lookup object.hash = some (object.row P) := by
  induction list generalizing objects with
  | nil =>
    obtain rfl := Except.pure_eq_ok.mp run
    exact ⟨.refl _, by simp⟩
  | cons object rest ih =>
    rw [List.foldlM_cons] at run
    obtain ⟨mid, first, run⟩ := Except.bind_eq_ok.mp run
    obtain ⟨kept, stored⟩ := ih run
    exact ⟨(KeptIn.insertSame first).trans kept,
      List.forall_mem_cons.mpr ⟨kept _ _ (insertSame_eq_ok first).2, stored⟩⟩

theorem indexBundleRoots_ok (keepsObjects : E.KeepsObjects) {list : List BundleObject}
    {objects objects' : Objects} (run : list.foldlM (indexBundleRoot E) objects = .ok objects') :
    KeptIn objects objects' := by
  refine Except.foldlM_inv (KeptIn objects) (fun before object after _ kept step => ?_)
    (.refl objects) run
  unfold indexBundleRoot at step
  split_ifs at step
  · cases indexed : E.indexRoot before object.hash with
    | error err => simp [indexed, Except.mapError] at step
    | ok result =>
      obtain rfl : result = after := by simpa [indexed, Except.mapError] using step
      exact kept.trans (keepsObjects.index indexed)
  · obtain rfl := Except.ok.inj step
    exact kept

/-- The stages of an import. -/
structure Imported (E : Engine) (db : Db) (document : BundleDocument P) (objects : Objects)
    (genesisRoot : Hash) (mid db' : Db) : Prop where
  manifest : validateBundleManifest document = .ok ()
  named : ∀ object ∈ document.objects, object.recomputedHash P = object.hash
  stored : E.KeepsObjects → KeptIn db.objects objects ∧ ∀ object ∈ document.objects,
    objects.lookup object.hash = some (object.row P)
  genesis : genesisRoot ∈ objects
  replay : importMigrations E { db with objects := objects } 0 ⟨genesisRoot, none⟩
    document.migrations = .ok (⟨document.manifest.rootHash, document.manifest.historyHash⟩, mid)
  unmoved : document.manifest.historyHash = none → db' = mid
  moved : ∀ historyHash, document.manifest.historyHash = some historyHash →
    mid.setBranch mainBranch ⟨document.manifest.rootHash, some historyHash⟩ = .ok db'

theorem importBundleDocument_ok {document : BundleDocument P} {importArtifacts : Bool}
    {cache cache' : A.Cache}
    (run : importBundleDocument E A db cache document importArtifacts = .ok (db', cache')) :
    ∃ objects genesisRoot mid,
      Imported E db document objects genesisRoot mid db' := by
  unfold importBundleDocument at run
  obtain ⟨_, manifest, run⟩ := Except.bind_eq_ok.mp run
  obtain ⟨objectsByHash, validated, run⟩ := Except.bind_eq_ok.mp run
  obtain ⟨_, -, run⟩ := Except.bind_eq_ok.mp run
  obtain ⟨inserted, insertions, run⟩ := Except.bind_eq_ok.mp run
  obtain ⟨indexed, indexing, run⟩ := Except.bind_eq_ok.mp run
  obtain ⟨⟨genesisRoot, objects⟩, genesis, run⟩ := Except.bind_eq_ok.mp run
  obtain ⟨⟨replayed, mid⟩, replay, run⟩ := Except.bind_eq_ok.mp run
  obtain ⟨_, root, run⟩ := Except.bind_eq_ok.mp run
  obtain ⟨_, history, run⟩ := Except.bind_eq_ok.mp run
  obtain ⟨written, -, run⟩ := Except.bind_eq_ok.mp run
  obtain ⟨after, moved, verified⟩ := Except.bind_eq_ok.mp run
  -- artifacts leave the database as it is, which is only verified then
  obtain rfl : after = db' := by
    obtain ⟨_, -, result⟩ := Except.bind_eq_ok.mp verified
    exact (Prod.mk.inj (Except.pure_eq_ok.mp result)).1
  rw [bundleCheck_eq_ok] at root history
  obtain ⟨keptInserted, stored⟩ := insertBundleObjects_ok insertions
  -- objects are inserted by their hashes, each once, and none is left out
  have listed : ∀ object ∈ document.objects,
      object ∈ (tableRows objectsByHash).map (·.2) := fun object mem =>
    List.mem_map.mpr ⟨(object.hash, object), mem_tableRows.mpr
      ((lookup_validateBundleObjects validated).mpr ⟨mem, rfl⟩), rfl⟩
  refine ⟨objects, genesisRoot, mid, manifest, objectHash_of_validateObjectsFrom validated,
    fun keepsObjects => ?_, ?_, ?_, fun none => ?_, fun historyHash some => ?_⟩
  · have kept := (indexBundleRoots_ok keepsObjects indexing).trans (putProgramRoot_keeps genesis)
    exact ⟨keptInserted.trans kept, fun object mem =>
      kept _ _ (stored object (listed object mem))⟩
  · obtain ⟨_, -, result⟩ := Except.bind_eq_ok.mp genesis
    obtain ⟨rfl, rfl⟩ := Prod.mk.inj (Except.pure_eq_ok.mp result)
    exact AList.lookup_isSome.mp (by rw [lookup_insertOrIgnore_self]; rfl)
  · rw [← root, ← history]
    exact replay
  · simp only [none] at moved
    split_ifs at moved
    exact (Except.ok.inj moved).symm
  · simpa only [some] using moved

namespace Imported

variable {document : BundleDocument P} {objects : Objects} {genesisRoot : Hash} {mid : Db}

/-- The replay of a bundle keeps the ledger, and its migrations are the history of where it ends. -/
theorem replayed (reliable : P.Reliable) (ledger : Ledger P db)
    (imported : Imported E db document objects genesisRoot mid db') :
    Ledger P mid ∧
      mid.StateInOrder ⟨document.manifest.rootHash, document.manifest.historyHash⟩ ∧
      mid.Walk document.manifest.historyHash (document.migrations.map (·.item)).reverse ∧
      db.Keeps mid ∧ mid.branches = db.branches := by
  -- the replay starts from the empty root, before any history
  have begun : { db with objects := objects }.StateInOrder ⟨genesisRoot, none⟩ := fun h mem => by
    simp at mem
  have start : { db with objects := objects }.Walk none [] := .done
  obtain ⟨ledger', inOrder, walk, keeps, branches⟩ := importMigrations_ledger reliable
    (ledger.objects objects) begun start imported.replay
  rw [List.append_nil] at walk
  exact ⟨ledger', inOrder, walk, ⟨keeps.migrations, keeps.histories⟩, branches⟩

theorem branches (reliable : P.Reliable) (ledger : Ledger P db)
    (imported : Imported E db document objects genesisRoot mid db')
    {name : String} (other : name ≠ mainBranch) :
    db'.branches.lookup name = db.branches.lookup name := by
  obtain ⟨-, -, -, -, branches⟩ := imported.replayed reliable ledger
  cases history : document.manifest.historyHash with
  | none => rw [imported.unmoved history, branches]
  | some historyHash =>
    rw [Db.setBranch_ok (imported.moved historyHash history), ← branches]
    exact AList.lookup_insert_ne other

/-- Where the import leaves the main branch. -/
theorem sound (reliable : P.Reliable) (keepsObjects : E.KeepsObjects)
    (reads : E.ReadsTexts P)
    (imported : Imported E db document objects genesisRoot mid db')
    (sound : Db.Sound P E db) (main : mainBranch ∈ db.branches) :
    Db.Sound P E db' := by
  obtain ⟨ledger, inOrder, -, -, branches⟩ := imported.replayed reliable sound.ledger
  have recorded : Recorded P E mid := importMigrations_recorded keepsObjects reads
    (sound.recorded.objects (imported.stored keepsObjects).1) imported.genesis imported.replay
  cases history : document.manifest.historyHash with
  | none =>
    obtain rfl := imported.unmoved history
    exact ⟨ledger, recorded, Or.inr (branches ▸ main)⟩
  | some historyHash =>
    -- the main branch is moved to where the replay ended, which is in order
    have moved := imported.moved historyHash history
    refine ⟨ledger.setBranch (history ▸ inOrder) moved, recorded.setBranch moved, Or.inr ?_⟩
    rw [Db.setBranch_ok moved]
    exact (AList.mem_insert _).mpr (Or.inl rfl)

end Imported

/-- A manifest that counts what the bundle has, where its root is among the objects and its
history ends with the last migration. -/
theorem validateBundleManifest_accepts {document : BundleDocument P} {row : BundleMigration P}
    (root : ∃ object ∈ document.objects, object.hash = document.manifest.rootHash)
    (schema : document.schema = bundleSchema)
    (manifestSchema : document.manifest.schema = bundleManifestSchema)
    (api : document.manifest.apiHash = bundleApiHash P)
    (package : document.manifest.packageHash = packageHash P document.manifest.rootHash
      document.manifest.historyHash document.manifest.apiHash)
    (objects : document.manifest.objectCount = document.objects.length)
    (migrations : document.manifest.migrationCount = document.migrations.length)
    (artifacts : document.manifest.artifactCount = document.artifactCache.length)
    (empty : document.artifactCache = [])
    (required : document.manifest.requiresProjectionSources = false)
    (last : document.migrations.getLast? = some row)
    (history : document.manifest.historyHash = some row.historyHash) :
    validateBundleManifest document = .ok () := by
  have listed : (document.objects.any fun object =>
      object.hash = document.manifest.rootHash) = true := by simpa using root
  unfold validateBundleManifest
  refine Except.bind_eq_ok.mpr ⟨(), bundleCheck_eq_ok.mpr schema, ?_⟩
  refine Except.bind_eq_ok.mpr ⟨(), bundleCheck_eq_ok.mpr manifestSchema, ?_⟩
  refine Except.bind_eq_ok.mpr ⟨(), bundleCheck_eq_ok.mpr api, ?_⟩
  refine Except.bind_eq_ok.mpr ⟨(), bundleCheck_eq_ok.mpr package, ?_⟩
  refine Except.bind_eq_ok.mpr ⟨(), bundleCheck_eq_ok.mpr objects, ?_⟩
  refine Except.bind_eq_ok.mpr ⟨(), bundleCheck_eq_ok.mpr migrations, ?_⟩
  refine Except.bind_eq_ok.mpr ⟨(), bundleCheck_eq_ok.mpr artifacts, ?_⟩
  refine Except.bind_eq_ok.mpr ⟨(), bundleCheck_eq_ok.mpr (Or.inr (by simp [empty])), ?_⟩
  refine Except.bind_eq_ok.mpr ⟨(), bundleCheck_eq_ok.mpr (by simp [required]), ?_⟩
  refine Except.bind_eq_ok.mpr ⟨(), bundleCheck_eq_ok.mpr listed, ?_⟩
  rw [history, last]
  exact bundleCheck_eq_ok.mpr (decide_eq_true rfl)

/-! ### A bundle with one migration -/

/-- A migration that says what the replay works out is accepted. -/
theorem validateAndInsertBundleMigration_accepts {sequence : ℕ} {row : BundleMigration P}
    {current : BranchState} {op : E.Operation} {objects : Objects} {after : Db}
    (schema : row.schema = bundleMigrationSchema) (counted : row.sequence = sequence)
    (audit : bundleMigrationAuditHash row = row.auditHash)
    (parent : row.parentHistoryHash = current.historyHash)
    (input : row.inputRootHash = current.rootHash)
    (read : E.operationFromValue row.operation = .ok op) (kind : E.kindName op = row.operationKind)
    (migrationKey : migrationHash P current.historyHash current.rootHash row.outputRootHash
      row.operation row.preconditions row.postconditions = row.migrationHash)
    (preconditions : Db.preconditionsValue E (db.preconditionsFor E current.rootHash op) =
      row.preconditions)
    (met : db.failedPreconditions P E current.rootHash
      (db.preconditionsFor E current.rootHash op) = .ok [])
    (applied : E.applyOperationToRoot db.objects current.rootHash current.historyHash op =
      .ok (row.outputRootHash, objects))
    (postconditions : Db.postconditionsValue E (E.postconditionsFor objects row.outputRootHash op) =
      row.postconditions)
    (held : Db.failedPostconditions P E objects row.outputRootHash
      (E.postconditionsFor objects row.outputRootHash op) = .ok [])
    (historyKey : historyHash P current.historyHash row.migrationHash row.outputRootHash =
      row.historyHash)
    (inserted : insertMigrationRow { db with objects := objects } row = .ok after) :
    validateAndInsertBundleMigration E db sequence row current =
      .ok (⟨row.outputRootHash, some row.historyHash⟩, after) := by
  unfold validateAndInsertBundleMigration
  -- the checks in the order of the source, the replay between them
  refine Except.bind_eq_ok.mpr ⟨(), bundleCheck_eq_ok.mpr schema, ?_⟩
  refine Except.bind_eq_ok.mpr ⟨(), bundleCheck_eq_ok.mpr counted, ?_⟩
  refine Except.bind_eq_ok.mpr ⟨(), bundleCheck_eq_ok.mpr audit, ?_⟩
  refine Except.bind_eq_ok.mpr ⟨(), bundleCheck_eq_ok.mpr parent, ?_⟩
  refine Except.bind_eq_ok.mpr ⟨(), bundleCheck_eq_ok.mpr input, ?_⟩
  refine Except.bind_eq_ok.mpr ⟨op, by rw [read]; rfl, ?_⟩
  refine Except.bind_eq_ok.mpr ⟨(), bundleCheck_eq_ok.mpr kind, ?_⟩
  refine Except.bind_eq_ok.mpr ⟨(), bundleCheck_eq_ok.mpr migrationKey, ?_⟩
  refine Except.bind_eq_ok.mpr ⟨(), bundleCheck_eq_ok.mpr (by rw [preconditions]), ?_⟩
  refine Except.bind_eq_ok.mpr ⟨[], met, ?_⟩
  refine Except.bind_eq_ok.mpr ⟨(), bundleCheck_eq_ok.mpr rfl, ?_⟩
  refine Except.bind_eq_ok.mpr ⟨_, applied, ?_⟩
  refine Except.bind_eq_ok.mpr ⟨(), bundleCheck_eq_ok.mpr rfl, ?_⟩
  refine Except.bind_eq_ok.mpr ⟨(), bundleCheck_eq_ok.mpr (by rw [postconditions]), ?_⟩
  refine Except.bind_eq_ok.mpr ⟨[], held, ?_⟩
  refine Except.bind_eq_ok.mpr ⟨(), bundleCheck_eq_ok.mpr rfl, ?_⟩
  refine Except.bind_eq_ok.mpr ⟨(), bundleCheck_eq_ok.mpr historyKey, ?_⟩
  exact Except.bind_eq_ok.mpr ⟨after, inserted, rfl⟩

/-! ### A bundle with one migration -/

/-- The migration that creates the named type, as a bundle has it. -/
def creationMigration (name : String) : BundleMigration plain :=
  let op : TypeNaming := .createType name
  let preconditions := Db.preconditionsValue typeNaming [.rootIsCurrent (hashNamed none)]
  let postconditions := Db.postconditionsValue typeNaming []
  let migration := migrationHash plain none (hashNamed none) (hashNamed (some name)) op.toValue
    preconditions postconditions
  let row : BundleMigration plain :=
    { schema := bundleMigrationSchema
      sequence := 0
      migrationHash := migration
      historyHash := historyHash plain none migration (hashNamed (some name))
      parentHistoryHash := none
      inputRootHash := hashNamed none
      outputRootHash := hashNamed (some name)
      operationKind := op.kindName
      operation := op.toValue
      preconditions := preconditions
      postconditions := postconditions
      agent := .object []
      auditHash := ""
      readsOperation := (readsBack_typeNaming op).operationValue
      readsPreconditions := (readsBack_typeNaming op).preconditions .empty (hashNamed none)
      readsPostconditions := (readsBack_typeNaming op).postconditions ∅ (hashNamed none) }
  { row with auditHash := bundleMigrationAuditHash row }

/-- A root with at most one type name, as a bundle has it. -/
def rootObject (name : Option String) : BundleObject :=
  ⟨bundleObjectSchema, hashNamed name, "ProgramRoot", schemaVersion, rootToValue (rootNamed name)⟩

/-- The type that is named, as a bundle has it. -/
def birthObject : BundleObject :=
  ⟨bundleObjectSchema, objectHash plain "SymbolBirth" namedTypeBirth, "SymbolBirth", schemaVersion,
    namedTypeBirth⟩

/-- The bundle of a root that names the type. -/
def creationBundle (name : String) : BundleDocument plain where
  schema := bundleSchema
  manifest :=
    { schema := bundleManifestSchema
      rootHash := hashNamed (some name)
      historyHash := some (creationMigration name).historyHash
      apiHash := bundleApiHash plain
      packageHash := packageHash plain (hashNamed (some name))
        (some (creationMigration name).historyHash) (bundleApiHash plain)
      objectCount := 3
      migrationCount := 1
      artifactCount := 0
      artifactCacheIncluded := false
      requiresProjectionSources := false }
  objects := [rootObject none, birthObject, rootObject (some name)]
  migrations := [creationMigration name]
  artifactCache := []

section CreationBundle

variable {name : String}

theorem validateBundleManifest_creationBundle :
    validateBundleManifest (creationBundle name) = .ok () :=
  validateBundleManifest_accepts (by simp [creationBundle, rootObject]) rfl rfl rfl rfl rfl rfl rfl
    rfl rfl rfl rfl

/-- Its objects have hashes of their own. -/
theorem nodup_creationBundle : ((creationBundle name).objects.map (·.hash)).Nodup := by
  have kinds : ∀ other, hashNamed other ≠ birthObject.hash := fun other same =>
    absurd (objectHash_inj plain_reliable same).1 (by decide)
  have names : hashNamed none ≠ hashNamed (some name) := fun same => nomatch hashNamed_inj same
  simp [creationBundle, rootObject, names, kinds none, (kinds (some name)).symm]

/-- Objects that are formed as they should, each once, are admitted. -/
theorem validateObjectsFrom_accepts {list : List BundleObject} {objects : BundleObjects}
    (formed : ∀ object ∈ list, object.schema = bundleObjectSchema ∧
      object.recomputedHash P = object.hash) (distinct : (list.map (·.hash)).Nodup)
    (fresh : ∀ object ∈ list, object.hash ∉ objects) :
    ∃ after, validateObjectsFrom P objects list = .ok after := by
  induction list generalizing objects with
  | nil => exact ⟨objects, rfl⟩
  | cons object rest ih =>
    rw [List.map_cons, List.nodup_cons] at distinct
    obtain ⟨⟨schema, named⟩, formed⟩ := List.forall_mem_cons.mp formed
    obtain ⟨new, fresh⟩ := List.forall_mem_cons.mp fresh
    obtain ⟨after, run⟩ := @ih (objects.insert object.hash object) formed distinct.2
      fun later listed mem => by
        rcases AList.mem_insert _ |>.mp mem with same | old
        · exact distinct.1 (List.mem_map.mpr ⟨later, listed, same⟩)
        · exact fresh later listed old
    exact ⟨after, Except.bind_eq_ok.mpr ⟨(), bundleCheck_eq_ok.mpr schema, Except.bind_eq_ok.mpr
      ⟨(), bundleCheck_eq_ok.mpr named, Except.bind_eq_ok.mpr
        ⟨(), bundleCheck_eq_ok.mpr new, run⟩⟩⟩⟩

theorem formed_creationBundle : ∀ object ∈ (creationBundle name).objects,
    object.schema = bundleObjectSchema ∧ object.recomputedHash plain = object.hash ∧
      object.schemaVersion = schemaVersion := by
  simp only [creationBundle, List.forall_mem_cons, List.not_mem_nil, false_imp_iff, implies_true,
    and_true]
  exact ⟨⟨rfl, rfl, rfl⟩, ⟨rfl, rfl, rfl⟩, ⟨rfl, rfl, rfl⟩⟩

theorem refs_rootObject (other : Option String) :
    collectBundleObjectRefs (rootObject other).kind (rootObject other).payload =
      other.toList.map fun _ => birthObject.hash := by
  change collectBundleObjectRefs "ProgramRoot" (rootToValue (rootNamed other)) = _
  have names : ∀ b : TypeNameBinding, b.toValue.get? "type_symbol" = some (.string b.typeSymbol) :=
    fun _ => rfl
  cases other with
  | none => rfl
  | some name =>
    have listed : arrayItems ((rootToValue (rootNamed (some name))).get? "type_names") =
        [TypeNameBinding.toValue ⟨"main", name, birthObject.hash, true⟩] := rfl
    have others : ∀ key ∈ ["symbols", "names", "types", "param_names", "exports", "tests",
        "recursion_groups", "type_recursion_groups"],
        arrayItems ((rootToValue (rootNamed (some name))).get? key) = [] := by
      simp only [List.forall_mem_cons, List.not_mem_nil, false_imp_iff, implies_true, and_true]
      exact ⟨rfl, rfl, rfl, rfl, rfl, rfl, rfl, rfl⟩
    simp [collectBundleObjectRefs, itemRefs, pushHashArrayRefs, others, listed, fieldRefs, names,
      pushHashRef]

theorem refs_birthObject : collectBundleObjectRefs birthObject.kind birthObject.payload = [] := by
  change collectBundleObjectRefs "SymbolBirth" namedTypeBirth = []
  simp [collectBundleObjectRefs]

/-- Its objects are those its roots are made of. -/
theorem closed_creationBundle {objects : BundleObjects}
    {readInputHash : JsonValue → Except Error Hash}
    (run : validateBundleObjects (creationBundle name) = .ok objects) :
    validateBundleObjectClosure readInputHash objects (creationBundle name) = .ok () := by
  have found : ∀ object ∈ (creationBundle name).objects,
      objects.lookup object.hash = some object := fun object mem =>
    (lookup_validateBundleObjects run).mpr ⟨mem, rfl⟩
  have listed : ∀ h, h ∈ objects ↔
      h = hashNamed none ∨ h = birthObject.hash ∨ h = hashNamed (some name) := by
    intro h
    rw [← AList.lookup_isSome, Option.isSome_iff_exists]
    simp only [lookup_validateBundleObjects run]
    simp [creationBundle, rootObject, eq_comm]
  have roots : ∀ h, h ∈ bundleRoots (creationBundle name) ↔
      h = hashNamed none ∨ h = hashNamed (some name) := by
    intro h
    simp [bundleRoots, creationBundle, creationMigration, or_comm]
  -- the root refers to the type, and nothing else refers to anything
  have refers : ∀ a b, a ∈ objects → BundleRefs objects a b → b = birthObject.hash := by
    rintro a b there ⟨object, lookup, mem⟩
    obtain ⟨mem', rfl⟩ := (lookup_validateBundleObjects run).mp lookup
    simp only [creationBundle, List.mem_cons, List.not_mem_nil, or_false] at mem'
    rcases mem' with rfl | rfl | rfl
    · simp [refs_rootObject] at mem
    · simp [refs_birthObject] at mem
    · simpa [refs_rootObject] using mem
  have begin : ∀ h, h = hashNamed none ∨ h = hashNamed (some name) → Worklist.Reached
      (BundleRefs objects) {h | h ∈ bundleRoots (creationBundle name)} h := fun h which =>
    have root : h ∈ bundleRoots (creationBundle name) := (roots h).mpr which
    .of_mem root
  have reached : ∀ h ∈ objects, Worklist.Reached (BundleRefs objects)
      {h | h ∈ bundleRoots (creationBundle name)} h := by
    intro h mem
    rcases (listed h).mp mem with rfl | rfl | rfl
    · exact begin _ (Or.inl rfl)
    · have named : objects.lookup (hashNamed (some name)) = some (rootObject (some name)) :=
        found (rootObject (some name)) (by simp [creationBundle])
      exact (begin _ (Or.inr rfl)).step ⟨_, named, by simp [refs_rootObject]⟩
    · exact begin _ (Or.inr rfl)
  have inputs : ∀ h, ¬ (creationBundle name).IsInput readInputHash h := by
    rintro h ⟨included, -⟩
    cases included
  refine BundleClosed.validate ⟨fun _ _ mem => absurd mem List.not_mem_nil, fun h => ⟨fun mem => ?_,
    fun path => ?_⟩, fun h mem => Or.inl (reached h mem)⟩
  · exact (reached h mem).trans fun s start => .of_mem (Or.inl start)
  · refine path.induction (fun s start => ?_) fun a b there refer => ?_
    · rcases start with start | input
      · exact (listed s).mpr (((roots s).mp start).imp_right Or.inr)
      · exact absurd input (inputs s)
    · exact (listed b).mpr (Or.inr (Or.inl (refers a b there refer)))

/-- Objects that are named by their hashes are inserted into a store where all objects are. -/
theorem insertBundleObjects_accepts (reliable : P.Reliable) {list : List BundleObject}
    {objects : Objects} (addressed : Addressed P objects)
    (formed : ∀ object ∈ list, object.recomputedHash P = object.hash ∧
      object.schemaVersion = schemaVersion) :
    ∃ after, list.foldlM (insertBundleObject P) objects = .ok after ∧ Grows P objects after := by
  induction list generalizing objects with
  | nil => exact ⟨objects, rfl, .refl _⟩
  | cons object rest ih =>
    obtain ⟨⟨named, version⟩, formed⟩ := List.forall_mem_cons.mp formed
    have hash : objectHash P object.kind object.payload = object.hash := by
      rw [← named, BundleObject.recomputedHash, version]
      rfl
    have first : insertBundleObject P objects object =
        .ok (putObject P objects object.kind object.payload).2 := by
      have row : object.row P = ⟨object.kind, schemaVersion,
          canonicalJson P.floatText object.payload⟩ := by
        rw [BundleObject.row, version]
      rw [insertBundleObject, insertSame, putObject, hash, row, insertOrIgnore]
      cases there : objects.lookup object.hash with
      | none => exact congrArg Except.ok (if_neg (AList.lookup_eq_none.mp there)).symm
      | some existing =>
        -- what is there under the hash is that object
        obtain ⟨payload, same, key⟩ := addressed _ _ there
        obtain ⟨kind, text⟩ := objectHash_inj reliable (hash.trans key)
        rw [same, ← kind, ← text]
        have taken : object.hash ∈ objects := AList.lookup_isSome.mp (by simp [there])
        simp only [if_pos taken, if_true]
    have grows := grows_putObject (P := P) objects object.kind object.payload
    obtain ⟨after, run, grown⟩ := ih (grows.addressed addressed) formed
    rw [List.foldlM_cons]
    exact ⟨after, Except.bind_eq_ok.mpr ⟨_, first, run⟩, grows.trans grown⟩

/-- The type is created where nothing is recorded under the hashes of the bundle. -/
theorem replay_creationMigration {objects : Objects} (addressed : Addressed plain objects)
    (stored : Stored plain objects "ProgramRoot" (rootToValue (rootNamed none)))
    (fresh : (creationMigration name).migrationHash ∉ db.migrations ∧
      (creationMigration name).historyHash ∉ db.histories) :
    ∃ after, importMigrations typeNaming { db with objects := objects } 0 ⟨hashNamed none, none⟩
        [creationMigration name] =
        .ok (⟨hashNamed (some name), some (creationMigration name).historyHash⟩, after) ∧
      hashNamed (some name) ∈ after.objects := by
  have named : Stored plain _ "ProgramRoot" (rootToValue (rootNamed (some name))) :=
    Stored.put plain_reliable addressed
  have met : { db with objects := objects }.failedPreconditions plain typeNaming (hashNamed none)
      ({ db with objects := objects }.preconditionsFor typeNaming (hashNamed none)
        (TypeNaming.createType name)) = .ok [] := by
    refine Except.bind_eq_ok.mpr ⟨_, loadRoot_rootNamed stored, ?_⟩
    simp [Db.preconditionsFor, Db.failing, Db.preconditionHolds, typeNaming, bind, Except.bind,
      pure, Except.pure]
  have applied : typeNaming.applyOperationToRoot objects (hashNamed none) none
      (TypeNaming.createType name) =
      .ok (putObject plain objects "ProgramRoot" (rootToValue (rootNamed (some name)))) := by
    have created := TypeNaming.apply_rootNamed (.createType name)
    simp only [TypeNaming.before, TypeNaming.after] at created
    simp only [typeNaming, loadRoot_rootNamed stored, bind, Except.bind, created,
      putProgramRoot_rootNamed]
  obtain ⟨after, inserted, objects'⟩ : ∃ after, insertMigrationRow { db with
      objects := (putObject plain objects "ProgramRoot" (rootToValue (rootNamed (some name)))).2 }
      (creationMigration name) = .ok after ∧ after.objects =
        (putObject plain objects "ProgramRoot" (rootToValue (rootNamed (some name)))).2 := by
    simp only [insertMigrationRow, insertSame, AList.lookup_eq_none.mpr fresh.1,
      AList.lookup_eq_none.mpr fresh.2, bind, Except.bind]
    exact ⟨_, rfl, rfl⟩
  have key : migrationHash plain none (hashNamed none) (creationMigration name).outputRootHash
      (creationMigration name).operation (creationMigration name).preconditions
      (creationMigration name).postconditions = (creationMigration name).migrationHash := by
    simp only [creationMigration]
  have pointKey : historyHash plain none (creationMigration name).migrationHash
      (creationMigration name).outputRootHash = (creationMigration name).historyHash := by
    simp only [creationMigration]
  have read : typeNaming.operationFromValue (creationMigration name).operation =
      .ok (TypeNaming.createType name) := TypeNaming.fromValue_toValue (.createType name)
  have run : validateAndInsertBundleMigration typeNaming { db with objects := objects } 0
      (creationMigration name) ⟨hashNamed none, none⟩ =
        .ok (⟨hashNamed (some name), some (creationMigration name).historyHash⟩, after) :=
    validateAndInsertBundleMigration_accepts rfl rfl rfl rfl rfl read rfl key rfl met applied
      rfl (Except.bind_eq_ok.mpr ⟨_, loadRoot_rootNamed named, rfl⟩) pointKey inserted
  exact ⟨after, Except.bind_eq_ok.mpr ⟨_, run, rfl⟩, by rw [objects']; exact named.mem⟩

/-- The bundle is imported where nothing is recorded under its hashes. -/
theorem import_creationBundle (addressed : Addressed plain db.objects) (cache : A.Cache)
    (importArtifacts : Bool) (fresh : (creationMigration name).migrationHash ∉ db.migrations ∧
      (creationMigration name).historyHash ∉ db.histories) :
    ∃ after, importBundleDocument typeNaming A db cache (creationBundle name) importArtifacts =
      .ok (after, cache) := by
  obtain ⟨byHash, validated⟩ : ∃ byHash, validateBundleObjects (creationBundle name) = .ok byHash :=
    @validateObjectsFrom_accepts plain (creationBundle name).objects ∅
    (fun object mem => ⟨(formed_creationBundle object mem).1,
      (formed_creationBundle object mem).2.1⟩)
    nodup_creationBundle fun _ _ => AList.notMem_empty _
  have listed : ∀ object ∈ (tableRows byHash).map (·.2),
      object ∈ (creationBundle name).objects := by
    intro object mem
    obtain ⟨⟨hash, object⟩, row, rfl⟩ := List.mem_map.mp mem
    exact ((lookup_validateBundleObjects validated).mp (mem_tableRows.mp row)).1
  obtain ⟨inserted, insertion, grows⟩ := insertBundleObjects_accepts plain_reliable addressed
    fun object mem => (formed_creationBundle object (listed object mem)).2
  have indexed : ∀ list : List BundleObject,
      list.foldlM (indexBundleRoot typeNaming) inserted = .ok inserted := by
    intro list
    induction list with
    | nil => rfl
    | cons object rest ih =>
      have same : indexBundleRoot typeNaming inserted object = .ok inserted := by
        unfold indexBundleRoot
        split_ifs <;> rfl
      rw [List.foldlM_cons]
      exact Except.bind_eq_ok.mpr ⟨_, same, ih⟩
  have stored : Stored plain _ "ProgramRoot" (rootToValue (rootNamed none)) :=
    Stored.put plain_reliable (grows.addressed addressed)
  obtain ⟨mid, replay, there⟩ := replay_creationMigration
    ((grows_putObject _ _ _).addressed (grows.addressed addressed)) stored fresh
  obtain ⟨after, moved⟩ : ∃ after, mid.setBranch mainBranch
      ⟨hashNamed (some name), some (creationMigration name).historyHash⟩ = .ok after :=
    ⟨_, if_pos there⟩
  -- it has no artifacts, so there is nothing to verify
  have none : (if importArtifacts then (creationBundle name).artifactCache else []) = [] := by
    split_ifs <;> rfl
  refine ⟨after, ?_⟩
  unfold importBundleDocument
  refine Except.bind_eq_ok.mpr ⟨(), validateBundleManifest_creationBundle, ?_⟩
  refine Except.bind_eq_ok.mpr ⟨byHash, validated, ?_⟩
  refine Except.bind_eq_ok.mpr ⟨(), closed_creationBundle validated, ?_⟩
  refine Except.bind_eq_ok.mpr ⟨inserted, insertion, ?_⟩
  refine Except.bind_eq_ok.mpr ⟨inserted, indexed _, ?_⟩
  refine Except.bind_eq_ok.mpr ⟨_, putProgramRoot_empty _, ?_⟩
  refine Except.bind_eq_ok.mpr ⟨_, replay, ?_⟩
  refine Except.bind_eq_ok.mpr ⟨(), bundleCheck_eq_ok.mpr rfl, ?_⟩
  refine Except.bind_eq_ok.mpr ⟨(), bundleCheck_eq_ok.mpr rfl, ?_⟩
  rw [none]
  refine Except.bind_eq_ok.mpr ⟨cache, rfl, ?_⟩
  refine Except.bind_eq_ok.mpr ⟨after, moved, ?_⟩
  exact Except.bind_eq_ok.mpr ⟨(), if_pos rfl, rfl⟩

end CreationBundle

/-! ### What an import leaves behind -/

/-- A bundle that is imported leaves no trace but what it brings: nothing that was recorded is lost
or replaced, and no branch but the main one is touched. Its objects are the ones their hashes name,
and are stored as they are. If it has a history, the main branch is at its root then, and has gone
through the migrations of the bundle, one after the other; otherwise it has no migrations. -/
theorem importBundleDocument_exact (reliable : P.Reliable) (keepsObjects : E.KeepsObjects)
    (reads : E.ReadsTexts P) (ledger : Ledger P db) {document : BundleDocument P}
    {importArtifacts : Bool} {cache cache' : A.Cache}
    (run : importBundleDocument E A db cache document importArtifacts = .ok (db', cache')) :
    db.Keeps db' ∧ KeptIn db.objects db'.objects ∧
    (∀ name, name ≠ mainBranch → db'.branches.lookup name = db.branches.lookup name) ∧
    (∀ object ∈ document.objects, object.recomputedHash P = object.hash ∧
      db'.objects.lookup object.hash = some (object.row P)) ∧
    match document.manifest.historyHash with
    | some historyHash =>
      db'.branches.lookup mainBranch = some ⟨document.manifest.rootHash, some historyHash⟩ ∧
        db'.historyChain E.readOperation db'.walkBound mainBranch =
          .ok (document.migrations.map (·.item))
    | none =>
      db'.branches.lookup mainBranch = db.branches.lookup mainBranch ∧
        document.migrations = [] := by
  obtain ⟨objects, genesisRoot, mid, imported⟩ := importBundleDocument_ok run
  obtain ⟨-, -, walk, keeps, branches⟩ := imported.replayed reliable ledger
  obtain ⟨kept, stored⟩ := imported.stored keepsObjects
  have replayed : KeptIn objects mid.objects :=
    importMigrations_objects keepsObjects imported.replay
  -- moving the main branch leaves the tables as the replay left them
  have tables : db'.migrations = mid.migrations ∧ db'.histories = mid.histories ∧
      db'.objects = mid.objects := by
    cases history : document.manifest.historyHash with
    | none => rw [imported.unmoved history]; exact ⟨rfl, rfl, rfl⟩
    | some historyHash =>
      rw [Db.setBranch_ok (imported.moved historyHash history)]
      exact ⟨rfl, rfl, rfl⟩
  obtain ⟨migrations, histories, sameObjects⟩ := tables
  refine ⟨⟨migrations ▸ keeps.migrations, histories ▸ keeps.histories⟩,
    sameObjects ▸ kept.trans replayed, fun name => imported.branches reliable ledger,
    fun object mem => ⟨imported.named object mem, ?_⟩, ?_⟩
  · rw [sameObjects]
    exact replayed _ _ (stored object mem)
  · cases history : document.manifest.historyHash with
    | none =>
      rw [history] at walk
      refine ⟨by rw [imported.unmoved history, branches], ?_⟩
      -- a walk from no hash has no items, so there were no migrations
      generalize items : (document.migrations.map (·.item)).reverse = rows at walk
      cases walk
      simpa using items
    | some historyHash =>
      rw [history] at walk
      have moved := Db.setBranch_ok (imported.moved historyHash history)
      have found : db'.branches.lookup mainBranch =
          some ⟨document.manifest.rootHash, some historyHash⟩ := by
        rw [moved]
        exact AList.lookup_insert _
      have same : mid.Keeps db' :=
        ⟨fun _ _ found => migrations ▸ found, fun _ _ found => histories ▸ found⟩
      exact ⟨found, (Db.historyChain_walkBound found (same.walk walk)).mpr
        (importMigrations_reads reads imported.replay)⟩

theorem readsTexts_typeNaming : typeNaming.ReadsTexts plain := by
  intro value op reads read
  exact Except.bind_eq_ok.mpr ⟨value, reads, read⟩

/-- Where no migration leads to a root that names the type so, its creation is not recorded. -/
theorem fresh_creationMigration {name : String} (ledger : Ledger plain db)
    (none : ∀ h row, db.migrations.lookup h = some row →
      row.outputRootHash ≠ hashNamed (some name)) :
    (creationMigration name).migrationHash ∉ db.migrations ∧
      (creationMigration name).historyHash ∉ db.histories := by
  constructor
  · intro mem
    obtain ⟨row, found⟩ := Option.isSome_iff_exists.mp (AList.lookup_isSome.mpr mem)
    obtain ⟨op, pre, post, key⟩ := ledger.migrationKey _ row found
    exact none _ row found (migrationHash_inj plain_reliable key).2.2.symm
  · intro mem
    obtain ⟨point, found⟩ := Option.isSome_iff_exists.mp (AList.lookup_isSome.mpr mem)
    -- the migration of the point would lead to the root as well
    obtain ⟨row, foundRow, -, output, linked⟩ := ledger.inOrder _ point found
    have parents : ∀ h ∈ point.parentHistoryHash, IsHash h := fun h hh => by
      obtain ⟨parent, foundParent, -⟩ := linked h hh
      exact ledger.isHash_history foundParent
    have same := historyHash_inj plain_reliable (fun _ hh => by cases hh) parents
      (isHash_hashBytes ..) (ledger.isHash_migration foundRow) (ledger.historyKey _ point found)
    exact none _ row foundRow (output.trans same.2.2.symm)

theorem fresh_featureDb : (creationMigration "Pair").migrationHash ∉ featureDb.migrations ∧
    (creationMigration "Pair").historyHash ∉ featureDb.histories := by
  have fresh : startedDb.migrations = ∅ := by
    rw [tables_startedDb.2.1, initializedDb_eq]
    rfl
  exact fresh_creationMigration (reachable_featureDb.ledger plain_reliable) fun h row found same =>
    absurd (hashNamed_inj ((namedOn_featureDb.outputs fresh found).symm.trans same)) (by decide)

/-- A cache of the keys of artifacts. -/
def keyCache : ArtifactCache where
  Cache := List String
  readInputHash _ := .error "no input"
  importBundleArtifact keys artifact := .ok (artifact.cacheKey :: keys)
  verify _ _ := .ok ()

/-- A bundle is imported into a database with a history of its own: that is kept on its branch, and
the main branch has the history of the bundle. -/
theorem importBundleDocument_exact_featureDb : ∃ (after : Db) (history : Hash),
    importBundleDocument typeNaming keyCache featureDb [] (creationBundle "Pair") true =
      .ok (after, []) ∧
    featureDb.Keeps after ∧
    featureDb.branches.lookup "feature" = some ⟨hashNamed (some "Point"), some history⟩ ∧
    after.branches.lookup "feature" = some ⟨hashNamed (some "Point"), some history⟩ ∧
    after.branches.lookup mainBranch =
      some ⟨hashNamed (some "Pair"), some (creationMigration "Pair").historyHash⟩ ∧
    after.historyChain typeNaming.readOperation after.walkBound mainBranch =
      .ok [(creationMigration "Pair").item] := by
  obtain ⟨history, found⟩ := namedOn_featureDb.state
  obtain ⟨after, run⟩ : ∃ after, importBundleDocument typeNaming keyCache featureDb []
      (creationBundle "Pair") true = .ok (after, []) :=
    import_creationBundle (A := keyCache) namedOn_featureDb.addressed ([] : List String) true
      fresh_featureDb
  obtain ⟨keeps, -, others, -, main, chain⟩ := importBundleDocument_exact plain_reliable
    keepsObjects_typeNaming readsTexts_typeNaming (reachable_featureDb.ledger plain_reliable) run
  have feature := (others "feature" (by decide)).trans found
  refine ⟨after, history, run, keeps, found, feature, ?_, ?_⟩
  · exact main
  · exact chain

end CodeDb

import CodeDb.History.Requests
import CodeDb.Store.RoundTrip

/-!
# Operations that name a type

The least there is to record: operations that give a type of the main module a name, and then
another one, and have no conditions. Roots with one type name are told apart by their hashes, so a
batch that renames a type and renames it back is recorded and leaves the branch where it was.

## Main definitions

* `TypeNaming`, `typeNaming` — the operations and the engine
* `AtNamed` — a branch is at a root with at most one type name

## Main results

* `AtNamed.applyAndRecordOnBranch` — an operation is recorded, and the branch moves on
* `AtNamed.applyOperations` — there and back
-/

namespace CodeDb

/-- The type that is named. -/
def namedTypeBirth : JsonValue := .object [("nonce", .string "type")]

/-- The operations on the name of a type of the main module. -/
inductive TypeNaming where
  | createType (name : String)
  | renameType (name newName : String)
  deriving DecidableEq

namespace TypeNaming

/-- The name the type has before, if it is there. -/
def before : TypeNaming → Option String
  | createType _ => none
  | renameType name _ => some name

/-- The name the type has afterwards. -/
def after : TypeNaming → String
  | createType name => name
  | renameType _ newName => newName

def kindName : TypeNaming → String
  | createType _ => "create_type"
  | renameType .. => "rename_type"

def toValue : TypeNaming → JsonValue
  | createType name => .object [("kind", .string "create_type"), ("name", .string name)]
  | renameType name newName =>
    .object [("kind", .string "rename_type"), ("name", .string name), ("new_name", .string newName)]

def fromValue (value : JsonValue) : Except Error TypeNaming := do
  let entries ← value.asEntries
  let kind ← JsonValue.field JsonValue.asString "kind" entries
  let name ← JsonValue.field JsonValue.asString "name" entries
  if kind = "create_type" then return .createType name
  else return .renameType name (← JsonValue.field JsonValue.asString "new_name" entries)

/-- Name the type in a root. -/
def apply (root : ProgramRootPayload) : TypeNaming → ProgramRootPayload
  | createType name =>
    { root with
      typeNames := root.typeNames ++
        [⟨"main", name, objectHash plain "SymbolBirth" namedTypeBirth, true⟩] }
  | renameType name newName =>
    { root with
      typeNames := root.typeNames.map fun b =>
        if b.displayName == name then { b with displayName := newName } else b }

end TypeNaming

/-- The operations that name a type of the main module, without conditions. -/
def typeNaming : Engine where
  Operation := TypeNaming
  ApiOperation := TypeNaming
  Condition := Empty
  Postcondition := Empty
  Summary := Unit
  kindName := TypeNaming.kindName
  operationValue := TypeNaming.toValue
  readOperation text := do
    let value ← plain.parseJson text
    TypeNaming.fromValue value
  operationFromValue := TypeNaming.fromValue
  expectRootHash _ := none
  operationFromApi _ _ op := .ok op
  conditionsFor _ _ _ := []
  conditionValue := nofun
  conditionHolds _ _ _ := .ok true
  postconditionsFor _ _ _ := []
  postconditionValue := nofun
  postconditionName := nofun
  postconditionHolds _ _ _ := .ok true
  applyOperationToRoot objects root _ op := do
    let payload ← loadRoot plain objects root
    putProgramRoot plain objects (op.apply payload)
  migrationSummary _ := ()
  migrationSummaryForRoots _ _ _ _ := .ok ()
  mergeBranch _ := .renameType "" ""
  insertBuiltinTypes objects := objects
  indexRoot objects _ := .ok objects
  typeCheckRoot _ _ := .ok ()
  diffRoots _ _ _ := .ok .null

theorem TypeNaming.fromValue_toValue (op : TypeNaming) : fromValue op.toValue = .ok op := by
  cases op <;> rfl

theorem TypeNaming.fixed_toValue (op : TypeNaming) : Fixed plain.floatText op.toValue := by
  cases op <;> exact Fixed.object (by simp only [List.map]; decide) (by simp [Fixed.string])

/-! ### Roots with a type name -/

/-- A root that names the type, or the empty root. -/
def rootNamed (name : Option String) : ProgramRootPayload :=
  { ProgramRootPayload.empty with
    typeNames := name.toList.map fun name =>
      ⟨"main", name, objectHash plain "SymbolBirth" namedTypeBirth, true⟩ }

/-- The hash of a root that names the type. -/
def hashNamed (name : Option String) : Hash :=
  objectHash plain "ProgramRoot" (rootToValue (rootNamed name))

theorem normalizeRoot_rootNamed (name : Option String) :
    normalizeRoot (rootNamed name) = rootNamed name := by
  cases name <;> simp [normalizeRoot, rootNamed, ProgramRootPayload.empty, SortOn.sortOn]

/-- An operation leads from the root with the one name to that with the other. -/
theorem TypeNaming.apply_rootNamed (op : TypeNaming) :
    op.apply (rootNamed op.before) = rootNamed (some op.after) := by
  cases op <;> simp [TypeNaming.apply, rootNamed, before, after, ProgramRootPayload.empty]

theorem hashNamed_inj {name other : Option String} (same : hashNamed name = hashNamed other) :
    name = other := by
  have texts := (objectHash_inj plain_reliable same).2
  have fixed : ∀ n, Fixed plain.floatText (rootToValue (rootNamed n)) := fun n =>
    fixed_rootToValue nofun
  have values : rootToValue (rootNamed name) = rootToValue (rootNamed other) := by
    have parsed := plain_reads.mpr (fixed name).symm
    rw [Primitives.Reads, texts] at parsed
    exact (plain_reads.mp parsed).trans (fixed other)
  have roots := congrArg rootFromValue values
  rw [rootFromValue_rootToValue, rootFromValue_rootToValue] at roots
  have listed := congrArg ProgramRootPayload.typeNames (Except.ok.inj roots)
  cases name <;> cases other <;> simp_all [rootNamed]

/-- A branch is at a root that names the type, or at the empty root, which is stored. -/
structure AtNamed (db : Db) (branchName : String) (name : Option String) : Prop where
  addressed : Addressed plain db.objects
  stored : Stored plain db.objects "ProgramRoot" (rootToValue (rootNamed name))
  branch : ∃ history, db.branches.lookup branchName = some ⟨hashNamed name, history⟩

variable {db : Db} {branchName : String} {name : Option String}

theorem Db.branch_lookup {state : BranchState} (found : db.branch branchName = .ok state) :
    db.branches.lookup branchName = some state := by
  unfold Db.branch at found
  cases lookup : db.branches.lookup branchName <;> simp_all

theorem AtNamed.state (here : AtNamed db branchName name) :
    ∃ history, db.branch branchName = .ok ⟨hashNamed name, history⟩ := by
  obtain ⟨history, found⟩ := here.branch
  exact ⟨history, by simp [Db.branch, found]⟩

theorem loadRoot_rootNamed {objects : Objects}
    (stored : Stored plain objects "ProgramRoot" (rootToValue (rootNamed name))) :
    loadRoot plain objects (hashNamed name) = .ok (rootNamed name) := by
  have loaded : CodeDb.loadRoot plain objects (hashNamed name) =
      .ok (normalizeRoot (rootNamed name)) := stored.loadRoot nofun
  rwa [normalizeRoot_rootNamed] at loaded

/-- A root that names the type is put into the store. -/
theorem putProgramRoot_rootNamed (objects : Objects) (name : Option String) :
    putProgramRoot plain objects (rootNamed name) =
      .ok (putObject plain objects "ProgramRoot" (rootToValue (rootNamed name))) := by
  unfold putProgramRoot
  rw [normalizeRoot_rootNamed]
  rfl

/-- A root that is stored and new to the branch is recorded. -/
theorem recordChange_applied (db : Db) (op : TypeNaming) (branchName : String)
    (branch : BranchState) {newRoot : Hash} {root : ProgramRootPayload}
    (loaded : CodeDb.loadRoot plain db.objects newRoot = .ok root)
    (there : newRoot ∈ db.objects) (changed : newRoot ≠ branch.rootHash)
    (preconditions : List (Precondition typeNaming)) (agent : Option JsonValue) :
    ∃ report after migration history, db.recordChange plain typeNaming branchName branch newRoot op
        preconditions agent = .ok (.applied report, true, after) ∧
      after = { db.withPoint migration history
          (Db.migrationRow plain typeNaming branch newRoot op preconditions [] agent)
          ⟨branch.historyHash, migration, newRoot⟩ with
        branches := db.branches.insert branchName ⟨newRoot, some history⟩ } := by
  have checked : Db.failedPostconditions plain typeNaming db.objects newRoot
      (typeNaming.postconditionsFor db.objects newRoot op) = .ok [] :=
    Except.bind_eq_ok.mpr ⟨root, loaded, rfl⟩
  have set : ∀ migration history row point, (db.withPoint migration history row point).setBranch
      branchName ⟨newRoot, some history⟩ = .ok { db.withPoint migration history row point with
        branches := db.branches.insert branchName ⟨newRoot, some history⟩ } := by
    intro migration history row point
    exact if_pos there
  unfold Db.recordChange
  simp only [checked, bind, Except.bind, if_neg changed, Db.record, set]
  exact ⟨_, _, _, _, rfl, rfl⟩

/-- A migration that an operation is recorded as. -/
structure RecordsNaming (op : TypeNaming) (row : MigrationRow) : Prop where
  input : row.inputRootHash = hashNamed op.before
  output : row.outputRootHash = hashNamed (some op.after)
  kind : row.operationKind = op.kindName
  text : row.operationJson = Db.operationText plain typeNaming op

/-- An operation was recorded on a branch: it is at the other root and has a history, and nothing
else changed but that the root and the migration are stored. -/
structure NamedOn (db : Db) (branchName : String) (op : TypeNaming) (after : Db) : Prop where
  addressed : Addressed plain after.objects
  stored : Stored plain after.objects "ProgramRoot" (rootToValue (rootNamed (some op.after)))
  grows : Grows plain db.objects after.objects
  tables : ∃ parent migration history row, RecordsNaming op row ∧
    db.branches.lookup branchName = some ⟨hashNamed op.before, parent⟩ ∧
    after = { db.withPoint migration history row
        ⟨parent, migration, hashNamed (some op.after)⟩ with
      objects := after.objects
      branches := db.branches.insert branchName ⟨hashNamed (some op.after), some history⟩ }

/-- Every operation of a database can be read from the text it is recorded as. -/
def Db.ReadsOperations (E : Engine) (db : Db) : Prop :=
  ∀ migration row, db.migrations.lookup migration = some row →
    ∃ op, E.readOperation row.operationJson = .ok op

theorem TypeNaming.readOperation (op : TypeNaming) :
    typeNaming.readOperation (Db.operationText plain typeNaming op) = .ok op :=
  Except.bind_eq_ok.mpr ⟨_, plain_reads.mpr op.fixed_toValue.symm, op.fromValue_toValue⟩

namespace NamedOn

variable {op : TypeNaming} {after : Db} (named : NamedOn db branchName op after)
include named

theorem atNamed : AtNamed after branchName (some op.after) := by
  obtain ⟨_, _, history, _, -, -, same⟩ := named.tables
  exact ⟨named.addressed, named.stored, some history, by rw [same]; exact AList.lookup_insert _⟩

/-- A branch stays where it is while another moves. -/
theorem other {otherBranch : String} (differs : otherBranch ≠ branchName) :
    after.branches.lookup otherBranch = db.branches.lookup otherBranch := by
  obtain ⟨_, _, history, _, -, -, same⟩ := named.tables
  rw [same]
  exact AList.lookup_insert_ne differs

theorem reads (reads : db.ReadsOperations typeNaming) : after.ReadsOperations typeNaming := by
  obtain ⟨_, migration, _, row, records, -, same⟩ := named.tables
  intro key found lookup
  have lookup : (insertOrIgnore db.migrations migration row).lookup key = some found := by
    rw [same] at lookup
    exact lookup
  by_cases same : key = migration
  · subst same
    rw [lookup_insertOrIgnore_self] at lookup
    cases old : db.migrations.lookup key with
    | none =>
      obtain rfl : row = found := by simpa [old] using lookup
      exact ⟨op, records.text ▸ op.readOperation⟩
    | some existing =>
      obtain rfl : existing = found := by simpa [old] using lookup
      exact reads key existing old
  · rw [lookup_insertOrIgnore_of_ne _ _ same] at lookup
    exact reads key found lookup

/-- The branch is at the other root then, and has a history. -/
theorem state : ∃ history, after.branches.lookup branchName =
    some ⟨hashNamed (some op.after), some history⟩ := by
  obtain ⟨_, _, history, _, -, -, same⟩ := named.tables
  rw [same]
  exact ⟨history, AList.lookup_insert _⟩

/-- Where nothing was recorded before, all that is recorded led to the other root. -/
theorem outputs (fresh : db.migrations = ∅) {hash : Hash} {found : MigrationRow}
    (lookup : after.migrations.lookup hash = some found) :
    found.outputRootHash = hashNamed (some op.after) := by
  obtain ⟨_, migration, _, row, records, -, same⟩ := named.tables
  have lookup : (insertOrIgnore db.migrations migration row).lookup hash = some found := by
    rw [same] at lookup
    exact lookup
  by_cases here : hash = migration
  · subst here
    obtain rfl : row = found := by
      simpa [lookup_insertOrIgnore_self, fresh] using lookup
    exact records.output
  · rw [lookup_insertOrIgnore_of_ne _ _ here, fresh] at lookup
    simp at lookup

/-- Where nothing was recorded before, the operation is found to be recorded. -/
theorem recorded (fresh : db.migrations = ∅) :
    after.recordedOperationOutputMatches plain typeNaming (hashNamed op.before)
      (hashNamed (some op.after)) op = true := by
  obtain ⟨_, migration, _, row, records, -, same⟩ := named.tables
  have migrations : after.migrations = (∅ : AList fun _ : Hash => MigrationRow).insert migration
      row := by
    rw [same]
    simp only [Db.withPoint, fresh, insertOrIgnore, if_neg (AList.notMem_empty _)]
  simp [Db.recordedOperationOutputMatches, migrations, AList.insert, records.input, records.output,
    records.kind, records.text, typeNaming]

end NamedOn

/-- Naming the type records a migration, and leaves the branch at the other root. -/
theorem AtNamed.applyAndRecordOnBranch (op : TypeNaming) (here : AtNamed db branchName op.before)
    (changes : op.before ≠ some op.after) (agent : Option JsonValue) :
    ∃ report after, db.applyAndRecordOnBranch plain typeNaming branchName (hashNamed op.before) op
      agent = .ok (.applied report, true, after) ∧ NamedOn db branchName op after := by
  obtain ⟨history, found⟩ := here.state
  have met : db.failedPreconditions plain typeNaming (hashNamed op.before)
      (db.preconditionsFor typeNaming (hashNamed op.before) op) = .ok [] := by
    refine Except.bind_eq_ok.mpr ⟨_, loadRoot_rootNamed here.stored, ?_⟩
    simp [Db.preconditionsFor, Db.failing, Db.preconditionHolds, typeNaming, bind, Except.bind,
      pure, Except.pure]
  have applied : typeNaming.applyOperationToRoot db.objects (hashNamed op.before) history op =
      .ok (putObject plain db.objects "ProgramRoot" (rootToValue (rootNamed (some op.after)))) := by
    simp only [typeNaming, loadRoot_rootNamed here.stored, bind, Except.bind,
      TypeNaming.apply_rootNamed, putProgramRoot_rootNamed]
  have stored : Stored plain _ "ProgramRoot" (rootToValue (rootNamed (some op.after))) :=
    Stored.put plain_reliable here.addressed
  have grows := grows_putObject (P := plain) db.objects "ProgramRoot"
    (rootToValue (rootNamed (some op.after)))
  obtain ⟨report, after, migration, history', run, same⟩ :=
    recordChange_applied { db with objects := (putObject plain db.objects "ProgramRoot"
      (rootToValue (rootNamed (some op.after)))).2 } op branchName ⟨hashNamed op.before, history⟩
      (loadRoot_rootNamed stored) stored.mem (fun same => changes (hashNamed_inj same).symm)
      (db.preconditionsFor typeNaming (hashNamed op.before) op) agent
  have objects : after.objects = (putObject plain db.objects "ProgramRoot"
      (rootToValue (rootNamed (some op.after)))).2 := by rw [same]; rfl
  refine ⟨report, after, ?_, ?_, ?_, ?_, history, migration, history', Db.migrationRow plain
    typeNaming ⟨hashNamed op.before, history⟩ (hashNamed (some op.after)) op
    (db.preconditionsFor typeNaming (hashNamed op.before) op) [] agent, ⟨rfl, rfl, rfl, rfl⟩,
    Db.branch_lookup found, ?_⟩
  · unfold Db.applyAndRecordOnBranch
    simp only [found, met, bind, Except.bind, applied]
    exact run
  · rw [objects]
    exact grows.addressed here.addressed
  · rw [objects]
    exact stored
  · rw [objects]
    exact grows
  · rw [objects, same]
    rfl

/-- A request for an operation is served. -/
theorem AtNamed.perform_apply (op : TypeNaming) (here : AtNamed db branchName op.before)
    (changes : op.before ≠ some op.after) (agent : Option JsonValue) :
    NamedOn db branchName op
      (perform plain db (.apply branchName (hashNamed op.before) op agent :
        Request typeNaming)) := by
  obtain ⟨report, after, run, named⟩ := here.applyAndRecordOnBranch op changes agent
  rw [perform_of_recorded run]
  exact named

/-- An operation that is recorded to have led to where the branch is is found to be applied. -/
theorem AtNamed.alreadyApplied (op : TypeNaming) (here : AtNamed db branchName (some op.after))
    (changes : op.before ≠ some op.after) (agent : Option JsonValue)
    (recorded : db.recordedOperationOutputMatches plain typeNaming (hashNamed op.before)
      (hashNamed (some op.after)) op = true) :
    ∃ report, db.applyAndRecordOnBranch plain typeNaming branchName (hashNamed op.before) op agent =
      .ok (.alreadyApplied report, false, db) := by
  obtain ⟨history, found⟩ := here.state
  have loaded := loadRoot_rootNamed here.stored
  have other : hashNamed op.before ≠ hashNamed (some op.after) := fun same =>
    changes (hashNamed_inj same)
  have stale : db.failedPreconditions plain typeNaming (hashNamed (some op.after))
      (db.preconditionsFor typeNaming (hashNamed op.before) op) =
        .ok [.rootIsCurrent (hashNamed op.before)] := by
    refine Except.bind_eq_ok.mpr ⟨_, loaded, ?_⟩
    simp [Db.preconditionsFor, Db.failing, Db.preconditionHolds, typeNaming, bind, Except.bind,
      pure, Except.pure, other]
  have established : Db.failedPostconditions plain typeNaming db.objects (hashNamed (some op.after))
      (typeNaming.postconditionsFor db.objects (hashNamed (some op.after)) op) = .ok [] :=
    Except.bind_eq_ok.mpr ⟨_, loaded, rfl⟩
  unfold Db.applyAndRecordOnBranch
  simp only [found, stale, bind, Except.bind, Db.refuse, established, recorded]
  exact ⟨_, rfl⟩

/-! ### Batches -/

/-- An operation of a batch that is applied is reported, and the batch goes on. -/
theorem applyOperations_applied {P : Primitives} {E : Engine} {branchName : String}
    {branch : BranchState} {agent : Option JsonValue} {expectation : Option Hash}
    {apiOperation : E.ApiOperation} {rest : List E.ApiOperation}
    {results : List (MigrationOutcome E)}
    {anyApplied commit : Bool} {root : Hash} {op : E.Operation} {report : MigrationReport E}
    {after : Db} (found : db.branch branchName = .ok branch)
    (expects : E.expectRootHash apiOperation = none)
    (expected : expectation.getD branch.rootHash = root)
    (read : E.operationFromApi db.objects root apiOperation = .ok op)
    (run : db.applyAndRecordOnBranch P E branchName root op agent =
      .ok (.applied report, commit, after)) :
    db.applyOperations P E branchName agent expectation (apiOperation :: rest) results anyApplied =
      after.applyOperations P E branchName agent none rest (results ++ [.applied report]) true := by
  subst expected
  simp only [Db.applyOperations, found, bind, Except.bind, expects, Option.none_or, read, run]

/-- An operation of a batch that has been applied already is reported, and the batch goes on. -/
theorem applyOperations_alreadyApplied {P : Primitives} {E : Engine} {branchName : String}
    {branch : BranchState} {agent : Option JsonValue} {expectation : Option Hash}
    {apiOperation : E.ApiOperation} {rest : List E.ApiOperation}
    {results : List (MigrationOutcome E)}
    {anyApplied commit : Bool} {root : Hash} {op : E.Operation} {report : MigrationReport E}
    {after : Db} (found : db.branch branchName = .ok branch)
    (expects : E.expectRootHash apiOperation = none)
    (expected : expectation.getD branch.rootHash = root)
    (read : E.operationFromApi db.objects root apiOperation = .ok op)
    (run : db.applyAndRecordOnBranch P E branchName root op agent =
      .ok (.alreadyApplied report, commit, after)) :
    db.applyOperations P E branchName agent expectation (apiOperation :: rest) results anyApplied =
      db.applyOperations P E branchName agent none rest (results ++ [.alreadyApplied report])
        anyApplied := by
  subst expected
  simp only [Db.applyOperations, found, bind, Except.bind, expects, Option.none_or, read, run]

/-- A batch that gives a type another name, and then its own again. -/
theorem AtNamed.applyOperations {name other : String} (here : AtNamed db branchName (some name))
    (differs : name ≠ other) (agent : Option JsonValue) :
    ∃ report report' after, db.applyOperations plain typeNaming branchName agent
        (some (hashNamed (some name))) [.renameType name other, .renameType other name] [] false =
        .ok (.finished [.applied report, .applied report'], true, after) ∧
      AtNamed after branchName (some name) := by
  obtain ⟨report, mid, first, there⟩ := here.applyAndRecordOnBranch (.renameType name other)
    (fun same => differs (Option.some.inj same)) agent
  obtain ⟨report', after, second, back⟩ := there.atNamed.applyAndRecordOnBranch
    (.renameType other name) (fun same => differs (Option.some.inj same).symm) agent
  obtain ⟨history, found⟩ := here.state
  obtain ⟨history', found'⟩ := there.atNamed.state
  refine ⟨report, report', after, ?_, back.atNamed⟩
  have expects : ∀ op, typeNaming.expectRootHash op = none := fun _ => rfl
  have reads : ∀ objects root, ∀ op : TypeNaming,
      typeNaming.operationFromApi objects root op = .ok op := fun _ _ _ => rfl
  exact (applyOperations_applied found (expects _) (Option.getD_some ..) (reads _ _ _) first).trans
    (applyOperations_applied found' (expects _) (Option.getD_none ..) (reads _ _ _) second)

/-! ### A database to begin with -/

/-- A database whose first request made sure the main branch is there. -/
def initializedDb : Db := perform plain .empty (.ensureInitialized : Request typeNaming)

theorem reachable_initializedDb : Reachable plain typeNaming initializedDb :=
  .perform .empty _

/-- It has the empty root, and the main branch is there. -/
theorem initializedDb_eq : initializedDb = { Db.empty with
    objects := (putObject plain ∅ "ProgramRoot" (rootToValue .empty)).2
    branches := (∅ : AList fun _ : String => BranchState).insert mainBranch
      ⟨hashNamed none, none⟩ } := by
  have stored : Stored plain (putObject plain ∅ "ProgramRoot" (rootToValue .empty)).2 "ProgramRoot"
      (rootToValue .empty) := Stored.put plain_reliable fun _ _ found => by simp at found
  let after : Db := { Db.empty with
    objects := (putObject plain ∅ "ProgramRoot" (rootToValue .empty)).2
    branches := (∅ : AList fun _ : String => BranchState).insert mainBranch ⟨hashNamed none, none⟩ }
  have run : Db.empty.ensureInitialized plain typeNaming = .ok (hashNamed none, after) := by
    refine Except.bind_eq_ok.mpr ⟨_, putProgramRoot_empty ∅, Except.bind_eq_ok.mpr ⟨_, rfl, ?_⟩⟩
    rw [if_neg (by simp [Db.empty])]
    exact Except.bind_eq_ok.mpr ⟨after, if_pos stored.mem, rfl⟩
  rw [initializedDb, perform, run]
  rfl

/-- The main branch begins at the empty root, without a history. -/
theorem lookup_initializedDb :
    initializedDb.branches.lookup mainBranch = some ⟨hashNamed none, none⟩ := by
  rw [initializedDb_eq]
  exact AList.lookup_insert _

theorem reads_initializedDb : initializedDb.ReadsOperations typeNaming := by
  intro migration row found
  rw [initializedDb_eq] at found
  simp [Db.empty] at found

theorem atNamed_initializedDb : AtNamed initializedDb mainBranch none := by
  have empty : Addressed plain (∅ : Objects) := fun _ _ found => by simp at found
  refine ⟨?_, ?_, none, lookup_initializedDb⟩
  · rw [initializedDb_eq]
    exact (grows_putObject _ _ _).addressed empty
  · rw [initializedDb_eq]
    exact Stored.put plain_reliable empty

/-! ### Another branch -/

/-- Another branch is started where main is. -/
def startedDb : Db :=
  perform plain initializedDb
    (.createBranch "feature" ⟨hashNamed none, none⟩ : Request typeNaming)

theorem reachable_startedDb : Reachable plain typeNaming startedDb :=
  reachable_initializedDb.perform _

theorem startedDb_eq : startedDb = { initializedDb with
    branches := initializedDb.branches.insert "feature" ⟨hashNamed none, none⟩ } := by
  have there := atNamed_initializedDb
  have absent : initializedDb.branches.lookup "feature" = none := by
    rw [initializedDb_eq]
    exact AList.lookup_insert_ne (by decide)
  have set : initializedDb.setBranch "feature" ⟨hashNamed none, none⟩ = .ok { initializedDb with
      branches := initializedDb.branches.insert "feature" ⟨hashNamed none, none⟩ } :=
    if_pos there.stored.mem
  have run : initializedDb.createBranchPointer plain "feature" ⟨hashNamed none, none⟩ =
      .ok (⟨hashNamed none, none⟩, { initializedDb with
        branches := initializedDb.branches.insert "feature" ⟨hashNamed none, none⟩ }) := by
    have valid : Db.validateBranchName "feature" = .ok () := by decide
    have matches' : initializedDb.ensureStateMatches ⟨hashNamed none, none⟩ = .ok () := rfl
    simp only [Db.createBranchPointer, valid, absent, loadRoot_rootNamed there.stored, matches',
      set, bind, Except.bind]
    rfl
  simp only [startedDb, perform, run, finishImmediate]

/-- A type is created on the other branch. -/
def featureDb : Db :=
  perform plain startedDb
    (.apply "feature" (hashNamed none) (TypeNaming.createType "Point") none : Request typeNaming)

theorem reachable_featureDb : Reachable plain typeNaming featureDb :=
  reachable_startedDb.perform _

theorem lookup_startedDb : startedDb.branches.lookup "feature" = some ⟨hashNamed none, none⟩ := by
  rw [startedDb_eq]
  exact AList.lookup_insert _

/-- Starting a branch leaves the other tables as they were. -/
theorem tables_startedDb : startedDb.objects = initializedDb.objects ∧
    startedDb.migrations = initializedDb.migrations ∧
    startedDb.histories = initializedDb.histories := by
  simp only [startedDb_eq, and_self]

theorem reads_startedDb : startedDb.ReadsOperations typeNaming := by
  intro migration row found
  rw [tables_startedDb.2.1] at found
  exact reads_initializedDb migration row found

theorem namedOn_featureDb : NamedOn startedDb "feature" (.createType "Point") featureDb := by
  have here : AtNamed startedDb "feature" none := by
    refine ⟨?_, ?_, none, lookup_startedDb⟩
    · rw [tables_startedDb.1]
      exact atNamed_initializedDb.addressed
    · rw [tables_startedDb.1]
      exact atNamed_initializedDb.stored
  exact AtNamed.perform_apply (.createType "Point") here nofun none

theorem lookup_featureDb_main :
    featureDb.branches.lookup mainBranch = some ⟨hashNamed none, none⟩ := by
  rw [namedOn_featureDb.other (by decide), startedDb_eq]
  exact (AList.lookup_insert_ne (by decide)).trans lookup_initializedDb

end CodeDb

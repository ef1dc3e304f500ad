import CodeDb.History.Growth

/-!
# Verifying branches and histories

Verifying a database reads all of its rows again: branches must point to stored roots and to
history points that end there, and migrations and history points must be kept under the hashes
that are worked out from what they say.

Requests keep what verification looks for. In the other direction a verified history is what its
last hash says it is: two databases that are verified, however they came about, have the same
history behind the same hash.

## Main definitions

* `verifyBranches`, `verifyMigrationsAndHistories` — what is wrong with the rows
* `Engine.ReadsBack` — what is recorded of operations is read back
* `Recorded`, `Db.Sound` — what requests keep
* `Db.HistoryItem.Same` — items that say the same

## Main results

* `Db.Sound.perform` — what requests keep
* `Db.Sound.verified_branches`, `Recorded.verified` — what is kept is verified
* `verified_histories_agree` — what a verified history hash stands for
-/

namespace CodeDb

open SortOn Linked

variable (P : Primitives) (E : Engine)

/-- The rows of a table, by key. -/
def tableRows {ν : Type} (table : AList fun _ : String => ν) : List (String × ν) :=
  sortOn (·.1) (table.entries.map fun e => (e.1, e.2))

/-! ### What is wrong -/

/-- What is wrong with the branches. -/
def verifyBranches (db : Db) : List Error :=
  let programRootCount := (db.objects.entries.filter fun e => e.2.kind = "ProgramRoot").length
  let states := db.branches.entries.map (·.2)
  let missingRoots := (states.filter fun state => state.rootHash ∉ db.objects).length
  let missingHistories := (states.filter fun state =>
    state.historyHash.any fun h => h ∉ db.histories).length
  let mismatchedHistories := (states.filter fun state =>
    state.historyHash.any fun h =>
      (db.histories.lookup h).any fun row => row.outputRootHash ≠ state.rootHash).length
  (if 0 < programRootCount ∧ mainBranch ∉ db.branches then
      ["bad_index: main branch is missing"]
    else []) ++
  (if 0 < missingRoots then ["missing_object: branch roots missing " ++ toString missingRoots]
    else []) ++
  (if 0 < missingHistories then
      ["bad_history_link: branch histories missing " ++ toString missingHistories]
    else []) ++
  (if 0 < mismatchedHistories then
      ["bad_history_link: branch histories output wrong root " ++ toString mismatchedHistories]
    else [])

/-- What is wrong with a migration. -/
def migrationErrors (objects : Objects) (hash : Hash) (row : MigrationRow) : List Error :=
  (match P.parseJson row.operationJson, E.readOperation row.operationJson,
      P.parseJson row.preconditionsJson, P.parseJson row.postconditionsJson with
    | .ok operationValue, .ok operation, .ok preconditions, .ok postconditions =>
      let recomputed := migrationHash P row.parentHistoryHash row.inputRootHash row.outputRootHash
        operationValue preconditions postconditions
      (if E.kindName operation ≠ row.operationKind then
          ["bad_history_link: migration " ++ hash ++ " operation kind " ++ row.operationKind ++
            " does not match operation " ++ E.kindName operation]
        else []) ++
      (if recomputed ≠ hash then
          ["bad_hash: migration " ++ hash ++ " recomputes to " ++ recomputed]
        else [])
    | _, _, _, _ => ["corrupt_object: migration json invalid " ++ hash]) ++
  ([row.inputRootHash, row.outputRootHash].filter (· ∉ objects)).map fun root =>
    "missing_object: migration " ++ hash ++ " references missing root " ++ root

/-- What is wrong with a history point. -/
def historyErrors (db : Db) (history : Hash) (row : HistoryRow) : List Error :=
  let recomputed := historyHash P row.parentHistoryHash row.migrationHash row.outputRootHash
  (if recomputed ≠ history then
      ["bad_history_link: " ++ history ++ " recomputes to " ++ recomputed]
    else []) ++
  (match db.migrations.lookup row.migrationHash with
    | some migration =>
      (if migration.parentHistoryHash ≠ row.parentHistoryHash then
          ["bad_history_link: history " ++ history ++ " parent does not match migration " ++
            row.migrationHash ++ " parent"]
        else []) ++
      (if migration.outputRootHash ≠ row.outputRootHash then
          ["bad_history_link: history " ++ history ++ " output root " ++ row.outputRootHash ++
            " does not match migration " ++ row.migrationHash ++ " output root " ++
            migration.outputRootHash]
        else [])
    | none =>
      ["bad_history_link: history " ++ history ++ " references missing migration " ++
        row.migrationHash]) ++
  (if row.outputRootHash ∉ db.objects then
      ["missing_object: history " ++ history ++ " references missing root " ++ row.outputRootHash]
    else [])

/-- What is wrong with the migrations and the history points. -/
def verifyMigrationsAndHistories (db : Db) : List Error :=
  ((tableRows db.migrations).flatMap fun e => migrationErrors P E db.objects e.1 e.2) ++
    (tableRows db.histories).flatMap fun e => historyErrors P db e.1 e.2

variable {P E} {db db' : Db}

/-! ### When nothing is wrong -/

theorem mem_tableRows {ν : Type} {table : AList fun _ : String => ν} {key : String} {row : ν} :
    (key, row) ∈ tableRows table ↔ table.lookup key = some row := by
  rw [tableRows, mem_sortOn, List.mem_map]
  constructor
  · rintro ⟨⟨key, row⟩, mem, same⟩
    obtain ⟨rfl, rfl⟩ := Prod.mk.inj same
    exact AList.mem_lookup_iff.mpr mem
  · exact fun found => ⟨⟨key, row⟩, AList.mem_lookup_iff.mp found, rfl⟩

/-- A migration with nothing wrong. -/
structure VerifiedMigration (P : Primitives) (E : Engine) (objects : Objects) (hash : Hash)
    (row : MigrationRow) : Prop where
  texts : ∃ operationValue operation preconditions postconditions,
    P.parseJson row.operationJson = .ok operationValue ∧
    E.readOperation row.operationJson = .ok operation ∧
    P.parseJson row.preconditionsJson = .ok preconditions ∧
    P.parseJson row.postconditionsJson = .ok postconditions ∧
    E.kindName operation = row.operationKind ∧
    migrationHash P row.parentHistoryHash row.inputRootHash row.outputRootHash operationValue
      preconditions postconditions = hash
  inputRoot : row.inputRootHash ∈ objects
  outputRoot : row.outputRootHash ∈ objects

/-- A history point with nothing wrong. -/
structure VerifiedHistory (P : Primitives) (db : Db) (history : Hash) (row : HistoryRow) :
    Prop where
  key : historyHash P row.parentHistoryHash row.migrationHash row.outputRootHash = history
  migration : ∃ migration, db.migrations.lookup row.migrationHash = some migration ∧
    migration.parentHistoryHash = row.parentHistoryHash ∧
    migration.outputRootHash = row.outputRootHash
  outputRoot : row.outputRootHash ∈ db.objects

/-- An error that is reported under a condition. -/
theorem ite_singleton_eq_nil {α : Type} {p : Prop} [Decidable p] {a : α} :
    (if p then [a] else []) = [] ↔ ¬ p := by
  split_ifs <;> simp_all

theorem migrationErrors_eq_nil_iff {objects : Objects} {hash : Hash} {row : MigrationRow} :
    migrationErrors P E objects hash row = [] ↔ VerifiedMigration P E objects hash row := by
  have roots : (([row.inputRootHash, row.outputRootHash].filter (· ∉ objects)).map fun root =>
      "missing_object: migration " ++ hash ++ " references missing root " ++ root) = [] ↔
      row.inputRootHash ∈ objects ∧ row.outputRootHash ∈ objects := by
    rw [List.map_eq_nil_iff, List.filter_eq_nil_iff]
    simp
  rw [migrationErrors, List.append_eq_nil_iff, roots]
  constructor
  · rintro ⟨texts, input, output⟩
    -- a row whose texts cannot all be read is an error of its own
    split at texts
    · rename_i operationValue operation preconditions postconditions value read pre post
      rw [List.append_eq_nil_iff, ite_singleton_eq_nil, ite_singleton_eq_nil] at texts
      exact ⟨⟨_, _, _, _, value, read, pre, post, not_not.mp texts.1, not_not.mp texts.2⟩,
        input, output⟩
    · simp at texts
  · rintro ⟨⟨_, _, _, _, value, read, pre, post, kind, key⟩, input, output⟩
    refine ⟨?_, input, output⟩
    simp [value, read, pre, post, kind, key]

theorem historyErrors_eq_nil_iff {history : Hash} {row : HistoryRow} :
    historyErrors P db history row = [] ↔ VerifiedHistory P db history row := by
  simp only [historyErrors, List.append_eq_nil_iff, ite_singleton_eq_nil, not_not]
  constructor
  · rintro ⟨⟨key, migration⟩, output⟩
    refine ⟨key, ?_, output⟩
    split at migration
    · rename_i found
      rw [List.append_eq_nil_iff, ite_singleton_eq_nil, ite_singleton_eq_nil] at migration
      exact ⟨_, found, not_not.mp migration.1, not_not.mp migration.2⟩
    · simp at migration
  · rintro ⟨key, ⟨_, found, parent, output⟩, stored⟩
    refine ⟨⟨key, ?_⟩, stored⟩
    simp [found, parent, output]

theorem verifyMigrationsAndHistories_eq_nil_iff :
    verifyMigrationsAndHistories P E db = [] ↔
      (∀ hash row, db.migrations.lookup hash = some row →
        VerifiedMigration P E db.objects hash row) ∧
      ∀ history row, db.histories.lookup history = some row → VerifiedHistory P db history row := by
  rw [verifyMigrationsAndHistories, List.append_eq_nil_iff, List.flatMap_eq_nil_iff,
    List.flatMap_eq_nil_iff]
  simp only [Prod.forall, mem_tableRows, migrationErrors_eq_nil_iff, historyErrors_eq_nil_iff]

/-- None of a list is counted. -/
theorem not_pos_length_filter {α : Type} {p : α → Bool} {l : List α} :
    ¬ 0 < (l.filter p).length ↔ ∀ a ∈ l, p a = false := by
  simp [List.length_pos_iff]

theorem verifyBranches_eq_nil_iff :
    verifyBranches db = [] ↔
      ((∃ e ∈ db.objects.entries, e.2.kind = "ProgramRoot") → mainBranch ∈ db.branches) ∧
      ∀ name state, db.branches.lookup name = some state →
        state.rootHash ∈ db.objects ∧ db.StateInOrder state := by
  have states : ∀ {p : BranchState → Prop}, (∀ state ∈ db.branches.entries.map (·.2), p state) ↔
      ∀ name state, db.branches.lookup name = some state → p state := by
    intro p
    rw [List.forall_mem_map]
    exact ⟨fun all name state found => all ⟨name, state⟩ (AList.mem_lookup_iff.mp found),
      fun all e mem => all e.1 e.2 (AList.mem_lookup_iff.mpr mem)⟩
  have main : ¬ (0 < (db.objects.entries.filter fun e => e.2.kind = "ProgramRoot").length ∧
      mainBranch ∉ db.branches) ↔
      ((∃ e ∈ db.objects.entries, e.2.kind = "ProgramRoot") → mainBranch ∈ db.branches) := by
    rw [not_and, not_not, List.length_pos_iff_exists_mem]
    simp [List.mem_filter]
  -- a history point is there and ends at the root: it is not missing, and not mismatched
  have inOrder : ∀ state : BranchState, db.StateInOrder state ↔
      (state.historyHash.any fun h => h ∉ db.histories) = false ∧
      (state.historyHash.any fun h =>
        (db.histories.lookup h).any fun row => row.outputRootHash ≠ state.rootHash) = false := by
    rintro ⟨root, _ | h⟩
    · simp [Db.StateInOrder]
    · cases found : db.histories.lookup h with
      | none => simp [Db.StateInOrder, found, ← AList.lookup_eq_none]
      | some row =>
        have mem : h ∈ db.histories := AList.lookup_isSome.mp (by simp [found])
        simp [Db.StateInOrder, found, mem]
  simp only [verifyBranches, List.append_eq_nil_iff, ite_singleton_eq_nil, not_pos_length_filter,
    main, states, inOrder, and_assoc]
  refine and_congr Iff.rfl ?_
  constructor
  · rintro ⟨roots, histories, matched⟩ name state found
    exact ⟨by simpa using roots name state found, histories name state found,
      matched name state found⟩
  · intro all
    exact ⟨fun name state found => by simpa using (all name state found).1,
      fun name state found => (all name state found).2.1,
      fun name state found => (all name state found).2.2⟩

/-! ### What requests keep -/

/-- What is recorded of an operation is read back. -/
structure Engine.ReadsBack (E : Engine) (P : Primitives) (op : E.Operation) : Prop where
  operation : E.readOperation (Db.operationText P E op) = .ok op
  operationValue : P.Reads (E.operationValue op) (E.operationValue op)
  preconditions : ∀ (db : Db) (root : Hash),
    P.Reads (Db.preconditionsValue E (db.preconditionsFor E root op))
      (Db.preconditionsValue E (db.preconditionsFor E root op))
  postconditions : ∀ objects root,
    P.Reads (Db.postconditionsValue E (E.postconditionsFor objects root op))
      (Db.postconditionsValue E (E.postconditionsFor objects root op))

/-- The rows are verified, and branches are at stored roots. -/
structure Recorded (P : Primitives) (E : Engine) (db : Db) : Prop where
  migrations : ∀ hash row, db.migrations.lookup hash = some row →
    VerifiedMigration P E db.objects hash row
  histories : ∀ history row, db.histories.lookup history = some row →
    row.outputRootHash ∈ db.objects
  branches : ∀ name state, db.branches.lookup name = some state → state.rootHash ∈ db.objects

theorem recorded_empty : Recorded P E .empty := by
  constructor <;> intro h row found <;> simp [Db.empty] at found

theorem VerifiedMigration.grow {objects objects' : Objects} {hash : Hash} {row : MigrationRow}
    (verified : VerifiedMigration P E objects hash row)
    (kept : KeptIn objects objects') : VerifiedMigration P E objects' hash row :=
  ⟨verified.texts, kept.mem verified.inputRoot, kept.mem verified.outputRoot⟩

/-- Storing objects leaves the rows verified. -/
theorem Recorded.objects (recorded : Recorded P E db) {objects : Objects}
    (kept : KeptIn db.objects objects) :
    Recorded P E { db with objects := objects } where
  migrations hash row found := (recorded.migrations hash row found).grow kept
  histories h row found := kept.mem (recorded.histories h row found)
  branches name state found := kept.mem (recorded.branches name state found)

/-- A branch that is set is at a stored root. -/
theorem Db.setBranch_stored {name : String} {state : BranchState}
    (run : db.setBranch name state = .ok db') : state.rootHash ∈ db.objects := by
  unfold Db.setBranch at run
  split_ifs at run with stored
  exact stored

variable {moved deleted : Option String} {records : E.Operation → Prop}

/-- Setting a branch leaves the rows as they are. -/
theorem Recorded.setBranch (recorded : Recorded P E db) {name : String}
    {state : BranchState} (run : db.setBranch name state = .ok db') :
    Recorded P E db' := by
  have stored := Db.setBranch_stored run
  rw [Db.setBranch_ok run]
  refine ⟨recorded.migrations, recorded.histories, fun other otherState found => ?_⟩
  by_cases same : other = name
  · subst same
    obtain rfl : state = otherState := by simpa using found
    exact stored
  · exact recorded.branches other otherState (by simpa [AList.lookup_insert_ne same] using found)

/-- A row that is found after another was inserted is that one or an old one. -/
theorem eq_or_lookup_of_insertOrIgnore {ν : Type} {table : AList fun _ : String => ν}
    {key other : String} {row found : ν}
    (lookup : (insertOrIgnore table key row).lookup other = some found) :
    (other = key ∧ found = row) ∨ table.lookup other = some found := by
  by_cases same : other = key
  · subst same
    rw [lookup_insertOrIgnore_self] at lookup
    cases old : table.lookup other with
    | none => exact Or.inl ⟨rfl, by simpa [old] using lookup.symm⟩
    | some r => exact Or.inr (by simpa [old] using lookup)
  · exact Or.inr ((lookup_insertOrIgnore_of_ne table row same).symm.trans lookup)

/-- A verified migration is added with its history point. -/
theorem Recorded.withPoint (recorded : Recorded P E db) {migration history : Hash}
    {row : MigrationRow} {point : HistoryRow}
    (verified : VerifiedMigration P E db.objects migration row)
    (stored : point.outputRootHash ∈ db.objects) :
    Recorded P E (db.withPoint migration history row point) := by
  refine ⟨fun hash found lookup => ?_, fun h found lookup => ?_, recorded.branches⟩
  · rcases eq_or_lookup_of_insertOrIgnore lookup with ⟨rfl, rfl⟩ | old
    · exact verified
    · exact recorded.migrations hash found old
  · rcases eq_or_lookup_of_insertOrIgnore lookup with ⟨-, rfl⟩ | old
    · exact stored
    · exact recorded.histories h found old

/-- An operation is recorded as it is verified. -/
theorem Recorded.record (recorded : Recorded P E db) {name : String} {branch : BranchState}
    {newRoot : Hash} {op : E.Operation} {pre : List (Precondition E)}
    {post : List E.Postcondition} {agent : Option JsonValue} {migration history : Hash}
    (readsBack : E.ReadsBack P op) (conditions : E.ConditionsOf op pre post)
    (found : db.branches.lookup name = some branch)
    (run : db.record P E name branch newRoot op pre post agent = .ok (migration, history, db')) :
    Recorded P E db' := by
  unfold Db.record at run
  obtain ⟨after, moved, result⟩ := Except.bind_eq_ok.mp run
  obtain rfl : after = db' := (Prod.mk.inj (Prod.mk.inj (Except.pure_eq_ok.mp result)).2).2
  -- the pointer is set last, and only to a root that is stored
  have output : newRoot ∈ db.objects := Db.setBranch_stored moved
  refine Recorded.setBranch (recorded.withPoint ?_ output) moved
  obtain ⟨earlier, root, rfl⟩ := conditions.preconditions
  obtain ⟨objects, root', rfl⟩ := conditions.postconditions
  exact ⟨⟨_, op, _, _, readsBack.operationValue, readsBack.operation,
    readsBack.preconditions earlier root, readsBack.postconditions objects root', rfl, rfl⟩,
    recorded.branches name branch found, output⟩

theorem Recorded.move (keeps : E.KeepsObjects) (readsBack : ∀ op, records op → E.ReadsBack P op)
    (recorded : Recorded P E db) (move : Db.Move P E moved deleted records db db') :
    Recorded P E db' := by
  cases move with
  | store _ objects kept => exact recorded.objects (kept keeps)
  | record onto which conditions found run =>
    exact recorded.record (readsBack _ which) conditions found run
  | start absent inOrder run => exact recorded.setBranch run
  | forward onto found inOrder descends run => exact recorded.setBranch run
  | @delete name =>
    refine ⟨recorded.migrations, recorded.histories, fun other state found => ?_⟩
    by_cases same : other = name
    · subst same
      simp at found
    · exact recorded.branches other state (by simpa [AList.lookup_erase_ne same] using found)

theorem Recorded.moves (keeps : E.KeepsObjects) (readsBack : ∀ op, records op → E.ReadsBack P op)
    (recorded : Recorded P E db) (moves : Db.Moves P E moved deleted records db db') :
    Recorded P E db' := by
  induction moves with
  | refl => exact recorded
  | tail _ move ih => exact ih.move keeps readsBack move

/-! ### The main branch -/

/-- There are no branches, and no objects either. -/
def Db.Untouched (db : Db) : Prop := db.objects = ∅ ∧ db.branches = ∅

theorem Db.Untouched.branch (untouched : db.Untouched) {name : String} {state : BranchState} :
    db.branch name ≠ .ok state := by
  rw [Ne, Db.branch_ok, untouched.2]
  simp

/-- Making sure the main branch is there makes sure it is. -/
theorem Db.main_of_ensureInitialized {rootHash : Hash}
    (run : db.ensureInitialized P E = .ok (rootHash, db')) : mainBranch ∈ db'.branches := by
  unfold Db.ensureInitialized at run
  obtain ⟨put, -, run⟩ := Except.bind_eq_ok.mp run
  obtain ⟨objects, -, run⟩ := Except.bind_eq_ok.mp run
  dsimp only at run
  split_ifs at run with there
  · exact AList.lookup_isSome.mp ((Prod.mk.inj (Except.pure_eq_ok.mp run)).2 ▸ there)
  · obtain ⟨moved, set, run⟩ := Except.bind_eq_ok.mp run
    rw [← (Prod.mk.inj (Except.pure_eq_ok.mp run)).2, Db.setBranch_ok set]
    exact AList.mem_insert _ |>.mpr (Or.inl rfl)

/-- Whatever is requested first, nothing happens until there is a main branch. -/
theorem Db.Untouched.perform (untouched : db.Untouched) (request : Request E) :
    perform P db request = db ∨ mainBranch ∈ (perform P db request).branches := by
  -- every request but the first looks for a branch or a root, and finds none
  cases request with
  | ensureInitialized =>
    cases run : db.ensureInitialized P E with
    | error error => exact Or.inl (by simp [CodeDb.perform, run, finishImmediate])
    | ok result =>
      refine Or.inr ?_
      simp only [CodeDb.perform, run, finishImmediate]
      exact Db.main_of_ensureInitialized run
  | apply name expectedRoot op agent =>
    left
    cases run : db.applyAndRecordOnBranch P E name expectedRoot op agent with
    | error error => simp [CodeDb.perform, run, finishFlagged]
    | ok result =>
      obtain ⟨branch, found, -⟩ := Db.applyAndRecordOnBranch_cases run
      exact absurd found untouched.branch
  | applyBatch name expectRoot operations agent =>
    left
    cases operations with
    | nil => rfl
    | cons operation operations =>
      cases run : db.applyOperations P E name agent expectRoot (operation :: operations) []
          false with
      | error error => simp [CodeDb.perform, run, finishFlagged]
      | ok result =>
        rw [Db.applyOperations] at run
        obtain ⟨branch, found, -⟩ := Except.bind_eq_ok.mp run
        exact absurd found untouched.branch
  | mergeApply target source expectedRoot =>
    left
    cases run : mergeApplyBranchesInTx P E db target source expectedRoot with
    | error error => simp [CodeDb.perform, run, finishFlagged]
    | ok result =>
      obtain ⟨branch, found, -⟩ := Except.bind_eq_ok.mp run
      exact absurd found untouched.branch
  | createBranch name source =>
    left
    cases run : db.createBranchPointer P name source with
    | error error => simp [CodeDb.perform, run, finishImmediate]
    | ok result =>
      unfold Db.createBranchPointer at run
      obtain ⟨_, -, run⟩ := Except.bind_eq_ok.mp run
      split_ifs at run
      obtain ⟨root, loaded, -⟩ := Except.bind_eq_ok.mp run
      obtain ⟨payload, got, -⟩ := Except.bind_eq_ok.mp loaded
      rw [getPayload, untouched.1] at got
      simp at got
  | fastForward target expectedRoot source =>
    left
    cases run : db.fastForwardBranchPointer P target expectedRoot source with
    | error error => simp [CodeDb.perform, run, finishImmediate]
    | ok result =>
      unfold Db.fastForwardBranchPointer at run
      obtain ⟨_, -, run⟩ := Except.bind_eq_ok.mp run
      obtain ⟨branch, found, -⟩ := Except.bind_eq_ok.mp run
      exact absurd found untouched.branch
  | deleteBranch name expectedRoot =>
    left
    cases run : db.deleteBranch name expectedRoot with
    | error error => simp [CodeDb.perform, run, finishImmediate]
    | ok result =>
      unfold Db.deleteBranch at run
      split_ifs at run
      obtain ⟨_, -, run⟩ := Except.bind_eq_ok.mp run
      obtain ⟨branch, found, -⟩ := Except.bind_eq_ok.mp run
      exact absurd found untouched.branch

/-- No request takes the main branch away. -/
theorem Ledger.main_perform (reliable : P.Reliable) (ledger : Ledger P db)
    (main : mainBranch ∈ db.branches) (request : Request E) :
    mainBranch ∈ (CodeDb.perform P db request).branches := by
  by_cases deletes : request.deleted = some mainBranch
  · -- deleting the main branch is refused
    cases request with
    | deleteBranch name expectedRoot =>
      obtain rfl : name = mainBranch := Option.some.inj deletes
      exact main
    | _ => simp [Request.deleted] at deletes
  · obtain ⟨state, found⟩ := Option.isSome_iff_exists.mp (AList.lookup_isSome.mpr main)
    obtain ⟨items, walk⟩ := ledger.walk_of_state (ledger.branches _ _ found)
    obtain ⟨-, -, state', items', grown⟩ := ledger.grown_moves reliable
      (perform_moves db request) found deletes walk
    exact AList.lookup_isSome.mp (by rw [grown.after]; rfl)

/-! ### Whatever is requested -/

/-- With the ledger the rows are verified altogether. -/
theorem Recorded.verified (ledger : Ledger P db) (recorded : Recorded P E db) :
    verifyMigrationsAndHistories P E db = [] := by
  refine verifyMigrationsAndHistories_eq_nil_iff.mpr ⟨recorded.migrations, fun h row found => ?_⟩
  -- the keys and links of the rows are what the ledger says
  obtain ⟨migration, foundMigration, parent, output, -⟩ := ledger.inOrder h row found
  exact ⟨(ledger.historyKey h row found).symm, ⟨migration, foundMigration, parent, output⟩,
    recorded.histories h row found⟩

/-- What is kept of a database: the ledger, its rows, and the main branch unless nothing happened
yet. -/
structure Db.Sound (P : Primitives) (E : Engine) (db : Db) : Prop where
  ledger : Ledger P db
  recorded : Recorded P E db
  main : db.Untouched ∨ mainBranch ∈ db.branches

namespace Db.Sound

theorem empty : Db.Sound P E .empty :=
  ⟨ledger_empty P, recorded_empty, Or.inl ⟨rfl, rfl⟩⟩

theorem perform (reliable : P.Reliable) (keeps : E.KeepsObjects) (sound : Db.Sound P E db)
    (request : Request E) (readsBack : ∀ op, request.Records P db op → E.ReadsBack P op) :
    Db.Sound P E (CodeDb.perform P db request) := by
  have moves := perform_moves (P := P) db request
  refine ⟨sound.ledger.perform reliable request, sound.recorded.moves keeps readsBack moves, ?_⟩
  -- a database is untouched until the request that makes the main branch
  rcases sound.main with untouched | main
  · rcases untouched.perform request with same | main
    · exact Or.inl (by rwa [same])
    · exact Or.inr main
  · exact Or.inr (sound.ledger.main_perform reliable main request)

theorem verified_branches (sound : Db.Sound P E db) : verifyBranches db = [] := by
  refine verifyBranches_eq_nil_iff.mpr ⟨fun stored => ?_, fun name state found =>
    ⟨sound.recorded.branches name state found, sound.ledger.branches name state found⟩⟩
  refine sound.main.resolve_left fun untouched => ?_
  obtain ⟨e, mem, -⟩ := stored
  rw [untouched.1] at mem
  exact List.not_mem_nil mem

end Db.Sound

theorem TypeNaming.fixed_preconditions (pre : Precondition typeNaming) :
    Fixed plain.floatText pre.value := by
  rcases pre with root | condition
  · exact Fixed.object (by simp only [List.map]; decide) (by simp [Fixed.string])
  · exact condition.elim

theorem readsBack_typeNaming (op : TypeNaming) : typeNaming.ReadsBack plain op where
  operation := op.readOperation
  operationValue := plain_reads.mpr op.fixed_toValue.symm
  preconditions _ _ :=
    plain_reads.mpr (Fixed.array TypeNaming.fixed_preconditions _).symm
  postconditions _ _ := plain_reads.mpr (Fixed.array (fun p => p.elim) _).symm

theorem keepsObjects_typeNaming : typeNaming.KeepsObjects where
  apply run := by
    obtain ⟨payload, -, stored⟩ := Except.bind_eq_ok.mp run
    exact putProgramRoot_keeps stored
  builtinTypes := .refl
  index run := by
    obtain rfl := Except.ok.inj run
    exact .refl _

theorem sound_initializedDb : Db.Sound plain typeNaming initializedDb :=
  Db.Sound.empty.perform plain_reliable keepsObjects_typeNaming .ensureInitialized nofun

/-! ### What a hash stands for -/

/-- Items that say the same: their hashes and roots are the same, and so is the operation they
record, up to how its text is laid out. -/
structure Db.HistoryItem.Same (P : Primitives) (item item' : Db.HistoryItem) : Prop where
  historyHash : item.historyHash = item'.historyHash
  parentHistoryHash : item.parentHistoryHash = item'.parentHistoryHash
  migrationHash : item.migrationHash = item'.migrationHash
  inputRoot : item.inputRoot = item'.inputRoot
  outputRoot : item.outputRoot = item'.outputRoot
  operation : ∃ value value', P.parseJson item.operationJson = .ok value ∧
    P.parseJson item'.operationJson = .ok value' ∧
    canonicalJson P.floatText value = canonicalJson P.floatText value'

/-- Where a walk goes on to is a hash. -/
theorem isHash_of_walk (verified : ∀ history row, db.histories.lookup history = some row →
    VerifiedHistory P db history row) {cursor : Option Hash} {items : List Db.HistoryItem}
    (walk : db.Walk cursor items) : ∀ h ∈ cursor, IsHash h := by
  intro h mem
  cases walk with
  | done => simp at mem
  | step found _ =>
    obtain rfl := Option.some.inj mem
    obtain ⟨row, -, foundRow, -⟩ := Db.historyItem?_eq_some.mp found
    rw [← (verified _ row foundRow).key]
    exact isHash_hashBytes ..

/-- Two verified walks from one hash meet the same items. -/
theorem same_of_walks (reliable : P.Reliable)
    (verified : verifyMigrationsAndHistories P E db = [])
    (verified' : verifyMigrationsAndHistories P E db' = [])
    {cursor : Option Hash} {items items' : List Db.HistoryItem}
    (walk : db.Walk cursor items) (walk' : db'.Walk cursor items') :
    List.Forall₂ (Db.HistoryItem.Same P) items items' := by
  obtain ⟨migrations, histories⟩ := verifyMigrationsAndHistories_eq_nil_iff.mp verified
  obtain ⟨migrations', histories'⟩ := verifyMigrationsAndHistories_eq_nil_iff.mp verified'
  -- on the first walk: where it ends there is no hash, so the other ends as well
  induction walk generalizing items' with
  | done =>
    cases walk'
    exact .nil
  | @step h item rows found next ih =>
    cases walk' with
    | @step _ item' rows' found' next' =>
      obtain ⟨row, migration, foundRow, foundMigration, rfl⟩ := Db.historyItem?_eq_some.mp found
      obtain ⟨row', migration', foundRow', foundMigration', rfl⟩ :=
        Db.historyItem?_eq_some.mp found'
      obtain ⟨value, -, pre, post, text, -, -, -, -, key⟩ := (migrations _ _ foundMigration).texts
      obtain ⟨value', -, pre', post', text', -, -, -, -, key'⟩ :=
        (migrations' _ _ foundMigration').texts
      -- the hash of the point determines what it says, and then so does that of the migration
      have isHash : IsHash row.migrationHash := key ▸ isHash_hashBytes ..
      have isHash' : IsHash row'.migrationHash := key' ▸ isHash_hashBytes ..
      have points := (histories h row foundRow).key.trans (histories' h row' foundRow').key.symm
      obtain ⟨parents, hashes, outputs⟩ := historyHash_inj reliable
        (isHash_of_walk histories next) (isHash_of_walk histories' next') isHash isHash' points
      obtain ⟨-, inputs, -, texts⟩ :=
        migrationHash_texts reliable (key.trans (hashes.trans key'.symm))
      refine .cons ⟨rfl, parents, hashes, inputs, outputs, value, value', text, text', texts⟩ ?_
      refine ih ?_
      have parents : row.parentHistoryHash = row'.parentHistoryHash := parents
      rw [parents]
      exact next'

/-- A history that is read to its end is a walk. -/
theorem Db.walk_of_historyItems {fuel : ℕ} {cursor : Option Hash} {items : List Db.HistoryItem}
    (run : db.historyItems E.readOperation fuel cursor = .ok items) : db.Walk cursor items := by
  induction fuel generalizing cursor items with
  | zero =>
    cases cursor with
    | none =>
      obtain rfl : [] = items := Except.ok.inj run
      exact .done
    | some h => simp [Db.historyItems] at run
  | succ fuel ih =>
    cases cursor with
    | none =>
      obtain rfl : [] = items := Except.ok.inj run
      exact .done
    | some h =>
      rw [Db.historyItems] at run
      split at run
      · simp at run
      · split at run
        · simp at run
        · rename_i foundRow _ _ foundMigration
          obtain ⟨_, -, run⟩ := Except.bind_eq_ok.mp run
          obtain ⟨rest, next, result⟩ := Except.bind_eq_ok.mp run
          obtain rfl := Except.pure_eq_ok.mp result
          exact .step (Db.historyItem?_eq_some.mpr ⟨_, _, foundRow, foundMigration, rfl⟩) (ih next)

theorem Db.walk_of_historyChain {name : String} {state : BranchState} {fuel : ℕ}
    {items : List Db.HistoryItem} (found : db.branches.lookup name = some state)
    (run : db.historyChain E.readOperation fuel name = .ok items) :
    db.Walk state.historyHash items.reverse := by
  obtain ⟨here, branch, run⟩ := Except.bind_eq_ok.mp run
  obtain ⟨rows, read, result⟩ := Except.bind_eq_ok.mp run
  obtain rfl : here = state := Option.some.inj ((Db.branch_ok.mp branch).symm.trans found)
  obtain rfl : rows.reverse = items := Except.pure_eq_ok.mp result
  rw [List.reverse_reverse]
  exact Db.walk_of_historyItems read

/-- In two databases whose migrations and histories are verified, however they came about, branches
with the same history hash have the same history, where it can be read in both: the same points,
between the same roots, that record the same operations. -/
theorem verified_histories_agree (reliable : P.Reliable)
    (verified : verifyMigrationsAndHistories P E db = [])
    (verified' : verifyMigrationsAndHistories P E db' = []) {name name' : String}
    {state state' : BranchState} (found : db.branches.lookup name = some state)
    (found' : db'.branches.lookup name' = some state')
    (same : state.historyHash = state'.historyHash) {fuel fuel' : ℕ}
    {items items' : List Db.HistoryItem}
    (run : db.historyChain E.readOperation fuel name = .ok items)
    (run' : db'.historyChain E.readOperation fuel' name' = .ok items') :
    List.Forall₂ (Db.HistoryItem.Same P) items items' := by
  have walk : db.Walk state.historyHash items.reverse := Db.walk_of_historyChain found run
  have walk' : db'.Walk state'.historyHash items'.reverse := Db.walk_of_historyChain found' run'
  rw [← List.forall₂_reverse_iff]
  exact same_of_walks reliable verified verified' walk (same ▸ walk')

/-- Who applies an operation is recorded with it, but the history does not tell. -/
theorem Db.applyAndRecordOnBranch_agent {name : String} {expectedRoot : Hash} {op : E.Operation}
    {agent agent' : Option JsonValue} {outcome outcome' : MigrationOutcome E} {after after' : Db}
    (run : db.applyAndRecordOnBranch P E name expectedRoot op agent = .ok (outcome, true, after))
    (run' : db.applyAndRecordOnBranch P E name expectedRoot op agent' =
      .ok (outcome', true, after')) :
    after.branches.lookup name = after'.branches.lookup name := by
  obtain ⟨branch, found, ⟨no, -⟩ | ⟨-, newRoot, objects, applied, ⟨no, -⟩ | ⟨-, -, migration,
    history, recorded⟩⟩⟩ := Db.applyAndRecordOnBranch_cases run
  · cases no
  · cases no
  obtain ⟨branch', found', ⟨no, -⟩ | ⟨-, newRoot', objects', applied', ⟨no, -⟩ | ⟨-, -, migration',
    history', recorded'⟩⟩⟩ := Db.applyAndRecordOnBranch_cases run'
  · cases no
  · cases no
  -- both start from the branch, and the operation leads to the same root
  obtain rfl : branch = branch' := Except.ok.inj (found.symm.trans found')
  obtain ⟨rfl, rfl⟩ := Prod.mk.inj (Except.ok.inj (applied.symm.trans applied'))
  obtain ⟨rfl, rfl⟩ := Db.record_keys recorded
  obtain ⟨rfl, rfl⟩ := Db.record_keys recorded'
  rw [Db.record_ok recorded, Db.record_ok recorded', AList.lookup_insert]

/-- Two clients create the type on the main branch of a new database each. -/
theorem verified_histories_agree_agents :
    ∃ (db db' : Db) (state : BranchState) (items items' : List Db.HistoryItem), items ≠ [] ∧
      db.branches.lookup mainBranch = some state ∧ db'.branches.lookup mainBranch = some state ∧
      db.historyChain typeNaming.readOperation db.walkBound mainBranch = .ok items ∧
      db'.historyChain typeNaming.readOperation db'.walkBound mainBranch = .ok items' ∧
      List.Forall₂ (Db.HistoryItem.Same plain) items items' := by
  have fresh : initializedDb.migrations = ∅ ∧ initializedDb.histories = ∅ := by
    rw [initializedDb_eq]
    exact ⟨rfl, rfl⟩
  have client : ∀ agent, ∃ report after state items,
      initializedDb.applyAndRecordOnBranch plain typeNaming mainBranch (hashNamed none)
        (TypeNaming.createType "Point") agent = .ok (.applied report, true, after) ∧
      verifyMigrationsAndHistories plain typeNaming after = [] ∧ items ≠ [] ∧
      after.branches.lookup mainBranch = some state ∧
      after.historyChain typeNaming.readOperation after.walkBound mainBranch = .ok items := by
    intro agent
    obtain ⟨report, after, run, named⟩ :
        ∃ report after, initializedDb.applyAndRecordOnBranch plain typeNaming mainBranch
          (hashNamed none) (TypeNaming.createType "Point") agent =
          .ok (.applied report, true, after) ∧
        NamedOn initializedDb mainBranch (.createType "Point") after :=
      atNamed_initializedDb.applyAndRecordOnBranch (.createType "Point") nofun agent
    have kept := sound_initializedDb.perform plain_reliable keepsObjects_typeNaming
      (.apply mainBranch (hashNamed none) (TypeNaming.createType "Point") agent)
      fun op _ => readsBack_typeNaming op
    have verified := kept.recorded.verified kept.ledger
    obtain ⟨history, item, found, walk, -⟩ := named.exists_walk fresh lookup_initializedDb
    have walk : after.Walk (some history) [item].reverse := walk
    refine ⟨report, after, _, [item], run, ?_, by simp, found,
      (Db.historyChain_walkBound found walk).mpr ((named.reads reads_initializedDb).items walk)⟩
    rw [perform_of_recorded run] at verified
    exact verified
  obtain ⟨report, db, state, items, run, verified, some, found, chain⟩ := client none
  obtain ⟨report', db', state', items', run', verified', -, found', chain'⟩ :=
    client (Option.some (.string "agent"))
  have same := Db.applyAndRecordOnBranch_agent run run'
  rw [found, found'] at same
  obtain rfl := Option.some.inj same
  exact ⟨db, db', state, items, items', some, found, found', chain, chain',
    verified_histories_agree plain_reliable verified verified' found found' rfl chain chain'⟩

end CodeDb

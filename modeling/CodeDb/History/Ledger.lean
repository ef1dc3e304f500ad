import CodeDb.History.Requests
import CodeDb.Lib.Except
import CodeDb.Lib.Linked

/-!
# The ledger behind the branches

Migrations and history points are named by hashes of what they record, are never
replaced, and are shared by all branches. Together they form a ledger: every
point has its migration, starts from the root its parent ends at, and is reached
from the beginning in finitely many steps. Branches point into it.

The ledger is an invariant of every request. Only recording an operation adds to
it; the other requests move branch pointers to points it has.

## Main definitions

* `Db.historyItem?` — a history point joined with its migration
* `Ledger` — the invariant

## Main results

* `Ledger.record` — recording an operation preserves the ledger
* `Reachable.ledger` — it holds in every reachable database
-/

namespace CodeDb

open Linked

variable {P : Primitives} {E : Engine} {db db' : Db}

/-! ### The invariant -/

/-- A history point joined with the migration that led to it. -/
def Db.historyItem? (db : Db) (historyHash : Hash) : Option Db.HistoryItem :=
  (db.histories.lookup historyHash).bind fun row =>
    (db.migrations.lookup row.migrationHash).map fun migration =>
      { historyHash := historyHash
        parentHistoryHash := row.parentHistoryHash
        migrationHash := row.migrationHash
        inputRoot := migration.inputRootHash
        outputRoot := row.outputRootHash
        operationKind := migration.operationKind
        operationJson := migration.operationJson }

/-- The walk along the parents of a history point. -/
abbrev Db.Walk (db : Db) : Option Hash → List Db.HistoryItem → Prop :=
  Linked.Walk db.historyItem? Db.HistoryItem.parentHistoryHash

/-- A history point is in order: its migration is recorded with the same parent and
the same output, and starts from the root the parent ends at. -/
def Db.InOrder (db : Db) (row : HistoryRow) : Prop :=
  ∃ migration, db.migrations.lookup row.migrationHash = some migration ∧
    migration.parentHistoryHash = row.parentHistoryHash ∧
    migration.outputRootHash = row.outputRootHash ∧
    ∀ p ∈ row.parentHistoryHash, ∃ parent, db.histories.lookup p = some parent ∧
      parent.outputRootHash = migration.inputRootHash

/-- A branch with a history point is at the root the point ends at. -/
def Db.StateInOrder (db : Db) (state : BranchState) : Prop :=
  ∀ h ∈ state.historyHash, ∃ row, db.histories.lookup h = some row ∧
    row.outputRootHash = state.rootHash

/-- Migrations and history points form a ledger that branches point into. -/
structure Ledger (P : Primitives) (db : Db) : Prop where
  migrationKey : ∀ h row, db.migrations.lookup h = some row → ∃ op pre post,
    h = migrationHash P row.parentHistoryHash row.inputRootHash row.outputRootHash op pre post
  historyKey : ∀ h row, db.histories.lookup h = some row →
    h = historyHash P row.parentHistoryHash row.migrationHash row.outputRootHash
  inOrder : ∀ h row, db.histories.lookup h = some row → db.InOrder row
  walks : ∀ h row, db.histories.lookup h = some row → ∃ items, db.Walk (some h) items
  branches : ∀ name state, db.branches.lookup name = some state → db.StateInOrder state

theorem ledger_empty (P : Primitives) : Ledger P .empty := by
  constructor <;> intro h row found <;> simp [Db.empty] at found

/-- The ledger is about migrations, histories and branches only. -/
theorem Ledger.congr (ledger : Ledger P db) (migrations : db'.migrations = db.migrations)
    (histories : db'.histories = db.histories)
    (branches : ∀ name state, db'.branches.lookup name = some state → db.StateInOrder state) :
    Ledger P db' := by
  obtain ⟨_, _, _, _⟩ := db
  obtain ⟨_, _, _, _⟩ := db'
  simp only at migrations histories
  subst migrations histories
  exact ⟨ledger.migrationKey, ledger.historyKey, ledger.inOrder, ledger.walks, branches⟩

/-- What is stored in the object table does not matter. -/
theorem Ledger.objects (ledger : Ledger P db) (objects : Objects) :
    Ledger P { db with objects := objects } :=
  ledger.congr rfl rfl ledger.branches

/-! ### Moving a branch -/

theorem Db.setBranch_ok {name : String} {state : BranchState}
    (run : db.setBranch name state = .ok db') :
    db' = { db with branches := db.branches.insert name state } := by
  unfold Db.setBranch at run
  split_ifs at run
  exact (Except.ok.inj run).symm

theorem Ledger.setBranch (ledger : Ledger P db) {name : String} {state : BranchState}
    (inOrder : db.StateInOrder state) (run : db.setBranch name state = .ok db') :
    Ledger P db' := by
  rw [Db.setBranch_ok run]
  refine ledger.congr rfl rfl ?_
  intro other otherState found
  by_cases same : other = name
  · subst same
    obtain rfl : state = otherState := by simpa using found
    exact inOrder
  · exact ledger.branches other otherState (by simpa [AList.lookup_insert_ne same] using found)

/-- The check that a state matches its history point establishes that it is in order. -/
theorem Db.stateInOrder_of_ensureStateMatches {state : BranchState}
    (run : db.ensureStateMatches state = .ok ()) : db.StateInOrder state := by
  intro h hh
  unfold Db.ensureStateMatches at run
  rw [Option.mem_def.mp hh] at run
  simp only [Db.ensureHistoryMatchesRoot] at run
  cases found : db.histories.lookup h with
  | none => simp [found] at run
  | some row =>
    rw [found] at run
    simp only at run
    split_ifs at run with differs
    exact ⟨row, rfl, not_not.mp differs⟩

/-! ### Recording -/

theorem Ledger.isHash_history (ledger : Ledger P db) {h : Hash} {row : HistoryRow}
    (found : db.histories.lookup h = some row) : IsHash h := by
  rw [ledger.historyKey h row found]
  exact isHash_hashBytes ..

theorem Ledger.isHash_migration (ledger : Ledger P db) {h : Hash} {row : MigrationRow}
    (found : db.migrations.lookup h = some row) : IsHash h := by
  obtain ⟨op, pre, post, rfl⟩ := ledger.migrationKey h row found
  exact isHash_hashBytes ..

/-- The points a state in order names are hashes. -/
theorem Ledger.isHash_state (ledger : Ledger P db) {state : BranchState}
    (inOrder : db.StateInOrder state) : ∀ h ∈ state.historyHash, IsHash h := by
  intro h hh
  obtain ⟨row, found, -⟩ := inOrder h hh
  exact ledger.isHash_history found

/-- From a state in order the walk along its history ends. -/
theorem Ledger.walk_of_state (ledger : Ledger P db) {state : BranchState}
    (inOrder : db.StateInOrder state) : ∃ items, db.Walk state.historyHash items := by
  cases history : state.historyHash with
  | none => exact ⟨[], .done⟩
  | some h =>
    obtain ⟨row, found, -⟩ := inOrder h history
    exact ledger.walks h row found

section WithPoint

variable {migration history : Hash} {row : MigrationRow} {point : HistoryRow}

theorem Db.InOrder.withPoint {r : HistoryRow} (inOrder : db.InOrder r) :
    (db.withPoint migration history row point).InOrder r := by
  obtain ⟨m, found, parent, output, linked⟩ := inOrder
  refine ⟨m, lookup_insertOrIgnore_of_some found, parent, output, fun p hp => ?_⟩
  obtain ⟨pr, foundParent, same⟩ := linked p hp
  exact ⟨pr, lookup_insertOrIgnore_of_some foundParent, same⟩

theorem Db.StateInOrder.withPoint {state : BranchState} (inOrder : db.StateInOrder state) :
    (db.withPoint migration history row point).StateInOrder state := by
  intro h hh
  obtain ⟨r, found, same⟩ := inOrder h hh
  exact ⟨r, lookup_insertOrIgnore_of_some found, same⟩

theorem Db.historyItem?_withPoint {h : Hash} {item : Db.HistoryItem}
    (found : db.historyItem? h = some item) :
    (db.withPoint migration history row point).historyItem? h = some item := by
  simp only [Db.historyItem?, Option.bind_eq_some_iff, Option.map_eq_some_iff] at found
  obtain ⟨r, foundRow, m, foundMigration, rfl⟩ := found
  have row' : (insertOrIgnore db.histories history point).lookup h = some r :=
    lookup_insertOrIgnore_of_some foundRow
  have migration' : (insertOrIgnore db.migrations migration row).lookup r.migrationHash = some m :=
    lookup_insertOrIgnore_of_some foundMigration
  simp [Db.historyItem?, Db.withPoint, row', migration']

/-- A recorded point is found again as it was recorded, also where its key was
taken: the row there says the same. -/
theorem Ledger.lookup_history_withPoint (reliable : P.Reliable) (ledger : Ledger P db)
    (parentHash : ∀ h ∈ point.parentHistoryHash, IsHash h) (migrationIsHash : IsHash migration)
    (names : point.migrationHash = migration)
    (key : history = historyHash P point.parentHistoryHash migration point.outputRootHash) :
    (db.withPoint migration history row point).histories.lookup history = some point := by
  rw [Db.withPoint, lookup_insertOrIgnore_self]
  cases found : db.histories.lookup history with
  | none => rfl
  | some old =>
    have same := (ledger.historyKey history old found).symm.trans key
    obtain ⟨m, foundMigration, -, -, linked⟩ := ledger.inOrder history old found
    have oldParent : ∀ h ∈ old.parentHistoryHash, IsHash h := by
      intro h hh
      obtain ⟨pr, foundParent, -⟩ := linked h hh
      exact ledger.isHash_history foundParent
    obtain ⟨parents, migrations, outputs⟩ := historyHash_inj reliable oldParent parentHash
      (ledger.isHash_migration foundMigration) migrationIsHash same
    obtain ⟨_, _, _⟩ := old
    obtain ⟨_, _, _⟩ := point
    simp_all

/-- A recorded migration is found again with its parent and its roots. -/
theorem Ledger.lookup_migration_withPoint (reliable : P.Reliable) (ledger : Ledger P db)
    {op pre post : JsonValue}
    (key : migration = migrationHash P row.parentHistoryHash row.inputRootHash row.outputRootHash
      op pre post) :
    ∃ found, (db.withPoint migration history row point).migrations.lookup migration = some found ∧
      found.parentHistoryHash = row.parentHistoryHash ∧
      found.inputRootHash = row.inputRootHash ∧ found.outputRootHash = row.outputRootHash := by
  rw [Db.withPoint, lookup_insertOrIgnore_self]
  refine ⟨_, rfl, ?_⟩
  cases taken : db.migrations.lookup migration with
  | none => exact ⟨rfl, rfl, rfl⟩
  | some old =>
    obtain ⟨op', pre', post', oldKey⟩ := ledger.migrationKey migration old taken
    exact migrationHash_inj reliable (oldKey.symm.trans key)

/-- Recording a migration from a state in order, with its history point, preserves
the ledger, and the new point is in order. -/
theorem Ledger.withPoint (reliable : P.Reliable) (ledger : Ledger P db)
    {op pre post : JsonValue}
    (inOrder : db.StateInOrder ⟨row.inputRootHash, row.parentHistoryHash⟩)
    (migrationKey : migration = migrationHash P row.parentHistoryHash row.inputRootHash
      row.outputRootHash op pre post)
    (historyKey : history = historyHash P row.parentHistoryHash migration row.outputRootHash)
    (pointIs : point = ⟨row.parentHistoryHash, migration, row.outputRootHash⟩) :
    Ledger P (db.withPoint migration history row point) ∧
      (db.withPoint migration history row point).StateInOrder
        ⟨row.outputRootHash, some history⟩ := by
  subst pointIs
  have migrationIsHash : IsHash migration := migrationKey ▸ isHash_hashBytes ..
  have foundPoint : (db.withPoint migration history row
      ⟨row.parentHistoryHash, migration, row.outputRootHash⟩).histories.lookup history =
        some ⟨row.parentHistoryHash, migration, row.outputRootHash⟩ :=
    ledger.lookup_history_withPoint reliable (ledger.isHash_state inOrder) migrationIsHash rfl
      historyKey
  obtain ⟨m, foundMigration, parents, inputs, outputs⟩ :
      ∃ found, (db.withPoint migration history row
        ⟨row.parentHistoryHash, migration, row.outputRootHash⟩).migrations.lookup migration =
          some found ∧ found.parentHistoryHash = row.parentHistoryHash ∧
        found.inputRootHash = row.inputRootHash ∧ found.outputRootHash = row.outputRootHash :=
    ledger.lookup_migration_withPoint reliable migrationKey
  -- the new point starts where its parent ended
  have newInOrder : (db.withPoint migration history row
      ⟨row.parentHistoryHash, migration, row.outputRootHash⟩).InOrder
      ⟨row.parentHistoryHash, migration, row.outputRootHash⟩ := by
    refine ⟨m, foundMigration, parents, outputs, fun p hp => ?_⟩
    obtain ⟨pr, foundParent, same⟩ := inOrder.withPoint p hp
    exact ⟨pr, foundParent, same.trans inputs.symm⟩
  -- what is found afterwards is the new point or was found before
  have point_or_old : ∀ {h r}, (db.withPoint migration history row
      ⟨row.parentHistoryHash, migration, row.outputRootHash⟩).histories.lookup h = some r →
      h = history ∧ r = ⟨row.parentHistoryHash, migration, row.outputRootHash⟩ ∨
        db.histories.lookup h = some r := by
    intro h r found
    by_cases same : h = history
    · rw [same] at found
      exact Or.inl ⟨same, Option.some.inj (found.symm.trans foundPoint)⟩
    · exact Or.inr (by rwa [Db.withPoint, lookup_insertOrIgnore_of_ne _ _ same] at found)
  -- every part of the ledger, for the new point and for the old ones
  refine ⟨{ migrationKey := ?_, historyKey := ?_, inOrder := ?_, walks := ?_, branches := ?_ }, ?_⟩
  · intro h r found
    by_cases same : h = migration
    · subst same
      obtain rfl := Option.some.inj (found.symm.trans foundMigration)
      exact ⟨op, pre, post, by rw [parents, inputs, outputs]; exact migrationKey⟩
    · exact ledger.migrationKey h r (by
        rwa [Db.withPoint, lookup_insertOrIgnore_of_ne _ _ same] at found)
  · intro h r found
    rcases point_or_old found with ⟨rfl, rfl⟩ | old
    · exact historyKey
    · exact ledger.historyKey h r old
  · intro h r found
    rcases point_or_old found with ⟨rfl, rfl⟩ | old
    · exact newInOrder
    · exact (ledger.inOrder h r old).withPoint
  · intro h r found
    rcases point_or_old found with ⟨same, -⟩ | old
    · rw [same]
      obtain ⟨items, walk⟩ := ledger.walk_of_state inOrder
      have item : (db.withPoint migration history row
          ⟨row.parentHistoryHash, migration, row.outputRootHash⟩).historyItem? history = some
          { historyHash := history
            parentHistoryHash := row.parentHistoryHash
            migrationHash := migration
            inputRoot := m.inputRootHash
            outputRoot := row.outputRootHash
            operationKind := m.operationKind
            operationJson := m.operationJson } := by
        simp only [Db.historyItem?, foundPoint, foundMigration, Option.bind_some, Option.map_some]
      exact ⟨_, .step item (walk.mono fun _ _ => Db.historyItem?_withPoint)⟩
    · obtain ⟨items, walk⟩ := ledger.walks h r old
      exact ⟨items, walk.mono fun _ _ => Db.historyItem?_withPoint⟩
  · intro name state found
    exact (ledger.branches name state found).withPoint
  · intro h hh
    obtain rfl : history = h := by simpa using hh
    exact ⟨_, foundPoint, rfl⟩

end WithPoint

/-! ### Requests -/

/-- Recording an operation from a branch's state preserves the ledger. -/
theorem Ledger.record (reliable : P.Reliable) (ledger : Ledger P db) {branchName : String}
    {branch : BranchState} {newRoot : Hash} {op : E.Operation} {pre : List (Precondition E)}
    {post : List E.Postcondition} {agent : Option JsonValue} {migration history : Hash}
    (inOrder : db.StateInOrder branch)
    (run : db.record P E branchName branch newRoot op pre post agent =
      .ok (migration, history, db')) : Ledger P db' := by
  unfold Db.record at run
  obtain ⟨after, moved, result⟩ := Except.bind_eq_ok.mp run
  obtain ⟨ledger', inOrder'⟩ := ledger.withPoint reliable
    (show db.StateInOrder ⟨(Db.migrationRow P E branch newRoot op pre post agent).inputRootHash,
      (Db.migrationRow P E branch newRoot op pre post agent).parentHistoryHash⟩ from inOrder)
    rfl rfl rfl
  have same : after = db' := (Prod.mk.inj (Prod.mk.inj (Except.pure_eq_ok.mp result)).2).2
  exact same ▸ ledger'.setBranch inOrder' moved

theorem Db.branch_ok {name : String} {state : BranchState} :
    db.branch name = .ok state ↔ db.branches.lookup name = some state := by
  unfold Db.branch
  cases db.branches.lookup name <;> simp

theorem Ledger.stateInOrder (ledger : Ledger P db) {name : String} {state : BranchState}
    (found : db.branch name = .ok state) : db.StateInOrder state :=
  ledger.branches name state (Db.branch_ok.mp found)

/-- Where no condition of a list fails, the first holds. -/
theorem Db.holds_of_failing_nil {α : Type} {holds : α → Except Error Bool} {a : α} {l : List α}
    (run : Db.failing holds (a :: l) = .ok []) : holds a = .ok true := by
  obtain ⟨h, held, rest⟩ := Except.bind_eq_ok.mp run
  obtain ⟨failed, -, result⟩ := Except.bind_eq_ok.mp rest
  cases h with
  | true => exact held
  | false => simp [pure, Except.pure] at result

/-- A changed root is recorded, an unchanged one is not. -/
theorem Db.recordChange_cases {name : String} {branch : BranchState} {newRoot : Hash}
    {op : E.Operation} {pre : List (Precondition E)} {agent : Option JsonValue}
    {outcome : MigrationOutcome E} {commit : Bool}
    (run : db.recordChange P E name branch newRoot op pre agent = .ok (outcome, commit, db')) :
    (commit = false ∧ db' = db) ∨
      commit = true ∧ newRoot ≠ branch.rootHash ∧ ∃ migration history,
        db.record P E name branch newRoot op pre (E.postconditionsFor db.objects newRoot op) agent =
          .ok (migration, history, db') := by
  unfold Db.recordChange at run
  obtain ⟨failedPost, -, run⟩ := Except.bind_eq_ok.mp run
  split_ifs at run with failed same
  · obtain ⟨summary, -, result⟩ := Except.bind_eq_ok.mp run
    have rest := (Prod.mk.inj (Except.pure_eq_ok.mp result)).2
    exact Or.inl ⟨(Prod.mk.inj rest).1.symm, (Prod.mk.inj rest).2.symm⟩
  · obtain ⟨summary, -, run⟩ := Except.bind_eq_ok.mp run
    obtain ⟨⟨migration, history, after⟩, recorded, result⟩ := Except.bind_eq_ok.mp run
    have rest := (Prod.mk.inj (Except.pure_eq_ok.mp result)).2
    obtain ⟨flag, rfl⟩ := Prod.mk.inj rest
    exact Or.inr ⟨flag.symm, same, migration, history, recorded⟩

/-- What applying an operation can do: refuse it and touch nothing, find that it
does not change the root, or record it from the branch's state, which then is at
the expected root. -/
theorem Db.applyAndRecordOnBranch_cases {name : String} {expectedRoot : Hash} {op : E.Operation}
    {agent : Option JsonValue} {outcome : MigrationOutcome E} {commit : Bool}
    (run : db.applyAndRecordOnBranch P E name expectedRoot op agent = .ok (outcome, commit, db')) :
    ∃ branch, db.branch name = .ok branch ∧
      ((commit = false ∧ db' = db) ∨
        branch.rootHash = expectedRoot ∧ ∃ newRoot objects,
          E.applyOperationToRoot db.objects branch.rootHash branch.historyHash op =
            .ok (newRoot, objects) ∧
          ((commit = false ∧ db' = { db with objects := objects }) ∨
            commit = true ∧ newRoot ≠ branch.rootHash ∧ ∃ migration history,
              { db with objects := objects }.record P E name branch newRoot op
                (db.preconditionsFor E expectedRoot op) (E.postconditionsFor objects newRoot op)
                agent = .ok (migration, history, db'))) := by
  unfold Db.applyAndRecordOnBranch at run
  obtain ⟨branch, found, run⟩ := Except.bind_eq_ok.mp run
  refine ⟨branch, found, ?_⟩
  obtain ⟨failedPre, checked, run⟩ := Except.bind_eq_ok.mp run
  by_cases refused : (!failedPre.isEmpty) = true
  · rw [if_pos refused] at run
    obtain ⟨answer, -, result⟩ := Except.bind_eq_ok.mp run
    obtain ⟨-, rest⟩ := Prod.mk.inj (Except.pure_eq_ok.mp result)
    obtain ⟨flag, same⟩ := Prod.mk.inj rest
    exact Or.inl ⟨flag.symm, same.symm⟩
  · rw [if_neg refused] at run
    -- all preconditions hold, the expectation of the root among them
    obtain rfl : failedPre = [] := by simpa using refused
    obtain ⟨_, -, holds⟩ := Except.bind_eq_ok.mp checked
    have held : Except.ok (expectedRoot == branch.rootHash) = Except.ok true :=
      @Db.holds_of_failing_nil _ (db.preconditionHolds E branch.rootHash)
        (.rootIsCurrent expectedRoot) _ holds
    refine Or.inr ⟨(beq_iff_eq.mp (Except.ok.inj held)).symm, ?_⟩
    obtain ⟨⟨newRoot, objects⟩, applied, run⟩ := Except.bind_eq_ok.mp run
    exact ⟨newRoot, objects, applied, Db.recordChange_cases run⟩

theorem Ledger.applyAndRecordOnBranch (reliable : P.Reliable) (ledger : Ledger P db)
    {name : String} {expectedRoot : Hash} {op : E.Operation} {agent : Option JsonValue}
    {outcome : MigrationOutcome E} {commit : Bool}
    (run : db.applyAndRecordOnBranch P E name expectedRoot op agent = .ok (outcome, commit, db')) :
    Ledger P db' := by
  obtain ⟨branch, found, ⟨-, rfl⟩ | ⟨-, newRoot, objects, -, ⟨-, rfl⟩ | ⟨-, -, migration,
    history, recorded⟩⟩⟩ := Db.applyAndRecordOnBranch_cases run
  · exact ledger
  · exact ledger.objects objects
  · exact (ledger.objects objects).record reliable (ledger.stateInOrder found) recorded

/-- A batch preserves the ledger, as each of its operations does. -/
theorem Ledger.applyOperations (reliable : P.Reliable) {name : String} {agent : Option JsonValue}
    {operations : List E.ApiOperation} {expectation : Option Hash}
    {results : List (MigrationOutcome E)} {anyApplied : Bool} {outcome : Db.BatchOutcome E}
    {commit : Bool} (ledger : Ledger P db)
    (run : db.applyOperations P E name agent expectation operations results anyApplied =
      .ok (outcome, commit, db')) : Ledger P db' := by
  induction operations generalizing db expectation results anyApplied with
  | nil =>
    obtain ⟨-, rest⟩ := Prod.mk.inj (Except.ok.inj run)
    exact (Prod.mk.inj rest).2 ▸ ledger
  | cons operation operations ih =>
    rw [Db.applyOperations] at run
    obtain ⟨branch, found, run⟩ := Except.bind_eq_ok.mp run
    dsimp only at run
    split at run
    · exact (Prod.mk.inj (Prod.mk.inj (Except.pure_eq_ok.mp run)).2).2 ▸ ledger
    · split at run
      · exact (Prod.mk.inj (Prod.mk.inj (Except.pure_eq_ok.mp run)).2).2 ▸ ledger
      · rename_i applied
        exact ih (ledger.applyAndRecordOnBranch reliable applied) run
      · exact ih ledger run
      · exact (Prod.mk.inj (Prod.mk.inj (Except.pure_eq_ok.mp run)).2).2 ▸ ledger

/-- Planning a merge stores objects and nothing else. -/
theorem planConservativeMerge_frame {target source : String} {planned : MergePlanOutcome}
    (run : planConservativeMerge P E db target source = .ok (planned, db')) :
    db' = { db with objects := db'.objects } := by
  unfold planConservativeMerge at run
  obtain ⟨targetState, -, run⟩ := Except.bind_eq_ok.mp run
  obtain ⟨sourceState, -, run⟩ := Except.bind_eq_ok.mp run
  obtain ⟨ancestor, -, run⟩ := Except.bind_eq_ok.mp run
  split at run
  · exact (Prod.mk.inj (Except.pure_eq_ok.mp run)).2 ▸ rfl
  · obtain ⟨ancestorRoot, -, run⟩ := Except.bind_eq_ok.mp run
    obtain ⟨targetRoot, -, run⟩ := Except.bind_eq_ok.mp run
    obtain ⟨sourceRoot, -, run⟩ := Except.bind_eq_ok.mp run
    split at run
    · exact (Prod.mk.inj (Except.pure_eq_ok.mp run)).2 ▸ rfl
    · obtain ⟨payloads, -, run⟩ := Except.bind_eq_ok.mp run
      obtain ⟨put, -, run⟩ := Except.bind_eq_ok.mp run
      dsimp only at run
      split at run
      · exact (Prod.mk.inj (Except.pure_eq_ok.mp run)).2 ▸ rfl
      · obtain ⟨impact, -, run⟩ := Except.bind_eq_ok.mp run
        exact (Prod.mk.inj (Except.pure_eq_ok.mp run)).2 ▸ rfl

theorem Ledger.mergeApply (reliable : P.Reliable) (ledger : Ledger P db) {target source : String}
    {expectedRoot : Hash} {outcome : MergeApplyOutcome E} {commit : Bool}
    (run : mergeApplyBranchesInTx P E db target source expectedRoot =
      .ok (outcome, commit, db')) : Ledger P db' := by
  unfold mergeApplyBranchesInTx at run
  obtain ⟨current, -, run⟩ := Except.bind_eq_ok.mp run
  split_ifs at run
  · exact (Prod.mk.inj (Prod.mk.inj (Except.pure_eq_ok.mp run)).2).2 ▸ ledger
  · obtain ⟨⟨planned, after⟩, plan, run⟩ := Except.bind_eq_ok.mp run
    have ledger' : Ledger P after := by
      rw [planConservativeMerge_frame plan]
      exact ledger.objects _
    dsimp only at run
    split at run
    · exact (Prod.mk.inj (Prod.mk.inj (Except.pure_eq_ok.mp run)).2).2 ▸ ledger'
    · obtain ⟨⟨outcome, commit, final⟩, applied, run⟩ := Except.bind_eq_ok.mp run
      exact (Prod.mk.inj (Prod.mk.inj (Except.pure_eq_ok.mp run)).2).2 ▸
        ledger'.applyAndRecordOnBranch reliable applied

theorem Ledger.createBranch (ledger : Ledger P db) {name : String} {source created : BranchState}
    (run : db.createBranchPointer P name source = .ok (created, db')) : Ledger P db' := by
  unfold Db.createBranchPointer at run
  obtain ⟨_, -, run⟩ := Except.bind_eq_ok.mp run
  split_ifs at run
  obtain ⟨_, -, run⟩ := Except.bind_eq_ok.mp run
  obtain ⟨_, matched, run⟩ := Except.bind_eq_ok.mp run
  obtain ⟨after, moved, run⟩ := Except.bind_eq_ok.mp run
  exact (Prod.mk.inj (Except.pure_eq_ok.mp run)).2 ▸
    ledger.setBranch (Db.stateInOrder_of_ensureStateMatches matched) moved

theorem Ledger.fastForward (ledger : Ledger P db) {target : String} {expectedRoot : Hash}
    {source : BranchState} {outcome : Db.FastForwardOutcome}
    (run : db.fastForwardBranchPointer P target expectedRoot source = .ok (outcome, db')) :
    Ledger P db' := by
  unfold Db.fastForwardBranchPointer at run
  obtain ⟨_, -, run⟩ := Except.bind_eq_ok.mp run
  obtain ⟨old, -, run⟩ := Except.bind_eq_ok.mp run
  split_ifs at run
  · exact (Prod.mk.inj (Except.pure_eq_ok.mp run)).2 ▸ ledger
  · obtain ⟨_, -, run⟩ := Except.bind_eq_ok.mp run
    obtain ⟨_, -, run⟩ := Except.bind_eq_ok.mp run
    obtain ⟨_, matched, run⟩ := Except.bind_eq_ok.mp run
    obtain ⟨descends, -, run⟩ := Except.bind_eq_ok.mp run
    split_ifs at run
    · exact (Prod.mk.inj (Except.pure_eq_ok.mp run)).2 ▸ ledger
    · obtain ⟨after, moved, run⟩ := Except.bind_eq_ok.mp run
      exact (Prod.mk.inj (Except.pure_eq_ok.mp run)).2 ▸
        ledger.setBranch (Db.stateInOrder_of_ensureStateMatches matched) moved

theorem Ledger.deleteBranch (ledger : Ledger P db) {name : String} {expectedRoot : Option Hash}
    {outcome : Db.DeleteOutcome} (run : db.deleteBranch name expectedRoot = .ok (outcome, db')) :
    Ledger P db' := by
  unfold Db.deleteBranch at run
  split_ifs at run
  obtain ⟨_, -, run⟩ := Except.bind_eq_ok.mp run
  obtain ⟨state, -, run⟩ := Except.bind_eq_ok.mp run
  split_ifs at run
  · exact (Prod.mk.inj (Except.pure_eq_ok.mp run)).2 ▸ ledger
  · rw [← (Prod.mk.inj (Except.pure_eq_ok.mp run)).2]
    refine ledger.congr rfl rfl fun other otherState found => ?_
    by_cases same : other = name
    · subst same
      simp at found
    · exact ledger.branches other otherState (by simpa [AList.lookup_erase_ne same] using found)

theorem Ledger.ensureInitialized (ledger : Ledger P db) {rootHash : Hash}
    (run : db.ensureInitialized P E = .ok (rootHash, db')) : Ledger P db' := by
  unfold Db.ensureInitialized at run
  obtain ⟨put, -, run⟩ := Except.bind_eq_ok.mp run
  obtain ⟨objects, -, run⟩ := Except.bind_eq_ok.mp run
  dsimp only at run
  split_ifs at run
  · exact (Prod.mk.inj (Except.pure_eq_ok.mp run)).2 ▸ ledger.objects objects
  · obtain ⟨after, moved, run⟩ := Except.bind_eq_ok.mp run
    refine (Prod.mk.inj (Except.pure_eq_ok.mp run)).2 ▸
      (ledger.objects objects).setBranch (fun h hh => ?_) moved
    simp at hh

/-- Every request preserves the ledger. -/
theorem Ledger.perform (reliable : P.Reliable) (ledger : Ledger P db) (request : Request E) :
    Ledger P (perform P db request) := by
  have flagged : ∀ {α : Type} {run : Except Error (α × Bool × Db)},
      (∀ a commit after, run = .ok (a, commit, after) → Ledger P after) →
      Ledger P (finishFlagged db run) := by
    intro α run preserved
    match run with
    | .ok (a, true, after) => exact preserved a true after rfl
    | .ok (_, false, _) => exact ledger
    | .error _ => exact ledger
  have immediate : ∀ {α : Type} {run : Except Error (α × Db)},
      (∀ a after, run = .ok (a, after) → Ledger P after) → Ledger P (finishImmediate db run) := by
    intro α run preserved
    match run with
    | .ok (a, after) => exact preserved a after rfl
    | .error _ => exact ledger
  cases request with
  | ensureInitialized => exact immediate fun _ _ run => ledger.ensureInitialized run
  | apply => exact flagged fun _ _ _ run => ledger.applyAndRecordOnBranch reliable run
  | applyBatch => exact flagged fun _ _ _ run => ledger.applyOperations reliable run
  | mergeApply => exact flagged fun _ _ _ run => ledger.mergeApply reliable run
  | createBranch => exact immediate fun _ _ run => ledger.createBranch run
  | fastForward => exact immediate fun _ _ run => ledger.fastForward run
  | deleteBranch => exact immediate fun _ _ run => ledger.deleteBranch run

/-- The ledger holds in every reachable database. -/
theorem Reachable.ledger (reliable : P.Reliable) (reach : Reachable P E db) : Ledger P db := by
  induction reach with
  | empty => exact ledger_empty P
  | perform _ request ih => exact ih.perform reliable request

end CodeDb

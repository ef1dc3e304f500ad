import CodeDb.History.Descent

/-!
# Histories grow

Whatever a request does to the tables is a sequence of moves: objects are stored, an operation
is recorded from the state a branch is at, a branch is started, moved forward, or deleted. So
what every move keeps, every request keeps, and so does every sequence of requests.

No move loses a migration or a history point. And unless a move deletes the branch, it is still
there, and what it went through is the beginning of what it then went through.

## Main definitions

* `Db.Move` — a move
* `Db.Grown` — a branch that went on

## Main results

* `perform_moves` — a request is a sequence of moves
* `history_grows` — no history is lost by any sequence of requests
-/

namespace CodeDb

open Linked Relation

variable {P : Primitives} {E : Engine} {db db' : Db}

/-! ### Moves -/

/-- No object is lost or replaced. -/
def KeptIn (before after : Objects) : Prop :=
  ∀ hash object, before.lookup hash = some object → after.lookup hash = some object

theorem KeptIn.refl (objects : Objects) : KeptIn objects objects := fun _ _ => id

theorem KeptIn.trans {a b c : Objects} (ab : KeptIn a b) (bc : KeptIn b c) : KeptIn a c :=
  fun hash object found => bc hash object (ab hash object found)

theorem KeptIn.mem {before after : Objects} (kept : KeptIn before after) {hash : Hash}
    (mem : hash ∈ before) : hash ∈ after := by
  obtain ⟨object, found⟩ := Option.isSome_iff_exists.mp (AList.lookup_isSome.mpr mem)
  exact AList.lookup_isSome.mp (by rw [kept hash object found]; rfl)

/-- Whatever is done to the store, no object is lost or replaced. -/
structure Engine.KeepsObjects (E : Engine) : Prop where
  apply : ∀ {objects objects' : Objects} {root newRoot : Hash} {history : Option Hash}
    {op : E.Operation}, E.applyOperationToRoot objects root history op = .ok (newRoot, objects') →
      KeptIn objects objects'
  builtinTypes : ∀ objects : Objects, KeptIn objects (E.insertBuiltinTypes objects)
  index : ∀ {objects objects' : Objects} {root : Hash}, E.indexRoot objects root = .ok objects' →
    KeptIn objects objects'

/-- The conditions of an operation, as they are in some store. -/
structure Engine.ConditionsOf (E : Engine) (op : E.Operation) (pre : List (Precondition E))
    (post : List E.Postcondition) : Prop where
  preconditions : ∃ (db : Db) (root : Hash), pre = db.preconditionsFor E root op
  postconditions : ∃ objects root, post = E.postconditionsFor objects root op

/-- A move of the database, where one branch may be moved and one deleted, and some operations may
be recorded. -/
inductive Db.Move (P : Primitives) (E : Engine) (moved deleted : Option String)
    (records : E.Operation → Prop) : Db → Db → Prop
  /-- Objects are stored. None is lost as far as none is lost by what is done to the store. -/
  | store (db : Db) (objects : Objects) (kept : E.KeepsObjects → KeptIn db.objects objects) :
      Move P E moved deleted records db { db with objects := objects }
  /-- An operation is recorded from the state a branch is at, and the branch moves there. -/
  | record {db db' : Db} {name : String} {branch : BranchState} {newRoot : Hash} {op : E.Operation}
      {pre : List (Precondition E)} {post : List E.Postcondition} {agent : Option JsonValue}
      {migration history : Hash} (onto : moved = some name) (which : records op)
      (conditions : E.ConditionsOf op pre post) (found : db.branches.lookup name = some branch)
      (run : db.record P E name branch newRoot op pre post agent =
        .ok (migration, history, db')) : Move P E moved deleted records db db'
  /-- A branch is started. -/
  | start {db db' : Db} {name : String} {source : BranchState}
      (absent : db.branches.lookup name = none) (inOrder : db.StateInOrder source)
      (run : db.setBranch name source = .ok db') : Move P E moved deleted records db db'
  /-- A branch is moved forward. -/
  | forward {db db' : Db} {name : String} {old source : BranchState} (onto : moved = some name)
      (found : db.branches.lookup name = some old) (inOrder : db.StateInOrder source)
      (descends : db.branchStateDescendsFrom old source = .ok true)
      (run : db.setBranch name source = .ok db') : Move P E moved deleted records db db'
  /-- A branch is deleted. -/
  | delete {name : String} (db : Db) (onto : moved = some name) (which : deleted = some name) :
      Move P E moved deleted records db { db with branches := db.branches.erase name }

/-- A sequence of moves. -/
abbrev Db.Moves (P : Primitives) (E : Engine) (moved deleted : Option String)
    (records : E.Operation → Prop) : Db → Db → Prop :=
  ReflTransGen (Db.Move P E moved deleted records)

/-- The branch a request may move or delete. -/
def Request.moved {E : Engine} : Request E → Option String
  | .apply branch .. => some branch
  | .applyBatch branch .. => some branch
  | .mergeApply target .. => some target
  | .fastForward target .. => some target
  | .deleteBranch name _ => some name
  | _ => none

/-- The branch a request may delete. -/
def Request.deleted {E : Engine} : Request E → Option String
  | .deleteBranch name _ => some name
  | _ => none

/-- The operations a request may record: its own, those its operations are read as, or the merge it
plans. -/
def Request.Records {E : Engine} (P : Primitives) (db : Db) : Request E → E.Operation → Prop
  | .apply _ _ op _ => fun recorded => recorded = op
  | .applyBatch _ _ operations _ => fun recorded => ∃ operation ∈ operations, ∃ objects root,
    E.operationFromApi objects root operation = .ok recorded
  | .mergeApply target source _ => fun recorded => ∃ plan after,
    planConservativeMerge P E db target source = .ok (.mergeable plan, after) ∧
      recorded = E.mergeBranch plan.toOperation
  | _ => fun _ => False

variable {moved deleted : Option String} {records : E.Operation → Prop}

theorem Db.applyAndRecordOnBranch_moves {name : String} {expectedRoot : Hash} {op : E.Operation}
    {agent : Option JsonValue} {outcome : MigrationOutcome E} {commit : Bool} (which : records op)
    (run : db.applyAndRecordOnBranch P E name expectedRoot op agent = .ok (outcome, commit, db')) :
    Db.Moves P E (some name) deleted records db db' := by
  obtain ⟨branch, found, ⟨-, rfl⟩ | ⟨-, newRoot, objects, applied, ⟨-, rfl⟩ | ⟨-, -, migration,
    history, recorded⟩⟩⟩ := Db.applyAndRecordOnBranch_cases run
  · exact .refl
  · exact .single (.store db objects fun keeps => keeps.apply applied)
  · exact .tail (.single (.store db objects fun keeps => keeps.apply applied))
      (.record rfl which ⟨⟨_, _, rfl⟩, _, _, rfl⟩ (Db.branch_ok.mp found) recorded)

theorem putProgramRoot_keeps {objects objects' : Objects} {root : ProgramRootPayload} {hash : Hash}
    (run : putProgramRoot P objects root = .ok (hash, objects')) : KeptIn objects objects' := by
  obtain ⟨_, -, result⟩ := Except.bind_eq_ok.mp run
  have grows := grows_putObject (P := P) objects "ProgramRoot" (rootToValue (normalizeRoot root))
  rw [Except.pure_eq_ok.mp result] at grows
  exact grows.kept

/-- Planning a merge loses no object. -/
theorem planConservativeMerge_keeps (keeps : E.KeepsObjects) {target source : String}
    {planned : MergePlanOutcome}
    (run : planConservativeMerge P E db target source = .ok (planned, db')) :
    KeptIn db.objects db'.objects := by
  unfold planConservativeMerge at run
  obtain ⟨targetState, -, run⟩ := Except.bind_eq_ok.mp run
  obtain ⟨sourceState, -, run⟩ := Except.bind_eq_ok.mp run
  obtain ⟨ancestor, -, run⟩ := Except.bind_eq_ok.mp run
  split at run
  · obtain rfl := (Prod.mk.inj (Except.pure_eq_ok.mp run)).2
    exact .refl _
  -- only where the merged root is put does a plan write
  · obtain ⟨ancestorRoot, -, run⟩ := Except.bind_eq_ok.mp run
    obtain ⟨targetRoot, -, run⟩ := Except.bind_eq_ok.mp run
    obtain ⟨sourceRoot, -, run⟩ := Except.bind_eq_ok.mp run
    split at run
    · obtain rfl := (Prod.mk.inj (Except.pure_eq_ok.mp run)).2
      exact .refl _
    · obtain ⟨payloads, -, run⟩ := Except.bind_eq_ok.mp run
      obtain ⟨put, stored, run⟩ := Except.bind_eq_ok.mp run
      dsimp only at run
      split at run
      · obtain rfl := (Prod.mk.inj (Except.pure_eq_ok.mp run)).2
        exact putProgramRoot_keeps stored
      · rename_i objects checked
        obtain ⟨impact, -, run⟩ := Except.bind_eq_ok.mp run
        obtain rfl := (Prod.mk.inj (Except.pure_eq_ok.mp run)).2
        -- the merged root was indexed, which only puts
        obtain ⟨indexed, run', rest⟩ := Except.bind_eq_ok.mp checked
        obtain ⟨_, -, result⟩ := Except.bind_eq_ok.mp rest
        obtain rfl := Except.pure_eq_ok.mp result
        exact (putProgramRoot_keeps stored).trans (keeps.index run')

theorem Db.applyOperations_moves {name : String} {agent : Option JsonValue}
    {operations : List E.ApiOperation} {expectation : Option Hash}
    {results : List (MigrationOutcome E)} {anyApplied : Bool} {outcome : Db.BatchOutcome E}
    {commit : Bool} (which : ∀ operation ∈ operations, ∀ objects root op,
      E.operationFromApi objects root operation = .ok op → records op)
    (run : db.applyOperations P E name agent expectation operations results anyApplied =
      .ok (outcome, commit, db')) : Db.Moves P E (some name) deleted records db db' := by
  -- an operation that is refused ends the batch where it is
  induction operations generalizing db expectation results anyApplied with
  | nil =>
    obtain ⟨-, rest⟩ := Prod.mk.inj (Except.ok.inj run)
    exact (Prod.mk.inj rest).2 ▸ .refl
  | cons operation operations ih =>
    rw [Db.applyOperations] at run
    obtain ⟨branch, found, run⟩ := Except.bind_eq_ok.mp run
    have rest := fun operation listed => which operation (List.mem_cons_of_mem _ listed)
    dsimp only at run
    split at run
    · exact (Prod.mk.inj (Prod.mk.inj (Except.pure_eq_ok.mp run)).2).2 ▸ .refl
    · rename_i read
      have first := which operation List.mem_cons_self _ _ _ read
      split at run
      · exact (Prod.mk.inj (Prod.mk.inj (Except.pure_eq_ok.mp run)).2).2 ▸ .refl
      · rename_i applied
        exact (Db.applyAndRecordOnBranch_moves first applied).trans (ih rest run)
      · exact ih rest run
      · exact (Prod.mk.inj (Prod.mk.inj (Except.pure_eq_ok.mp run)).2).2 ▸ .refl

theorem mergeApply_moves {target source : String} {expectedRoot : Hash}
    {outcome : MergeApplyOutcome E} {commit : Bool}
    (which : ∀ plan after, planConservativeMerge P E db target source =
      .ok (.mergeable plan, after) → records (E.mergeBranch plan.toOperation))
    (run : mergeApplyBranchesInTx P E db target source expectedRoot =
      .ok (outcome, commit, db')) : Db.Moves P E (some target) deleted records db db' := by
  unfold mergeApplyBranchesInTx at run
  obtain ⟨current, -, run⟩ := Except.bind_eq_ok.mp run
  split_ifs at run
  · exact (Prod.mk.inj (Prod.mk.inj (Except.pure_eq_ok.mp run)).2).2 ▸ .refl
  · obtain ⟨⟨planned, after⟩, plan, run⟩ := Except.bind_eq_ok.mp run
    -- planning puts objects, and moves nothing
    have stored : Db.Moves P E (some target) deleted records db after := by
      rw [planConservativeMerge_frame plan]
      exact .single (.store db _ fun keeps => planConservativeMerge_keeps keeps plan)
    dsimp only at run
    split at run
    · exact (Prod.mk.inj (Prod.mk.inj (Except.pure_eq_ok.mp run)).2).2 ▸ stored
    · obtain ⟨⟨outcome, commit, final⟩, applied, run⟩ := Except.bind_eq_ok.mp run
      exact (Prod.mk.inj (Prod.mk.inj (Except.pure_eq_ok.mp run)).2).2 ▸
        stored.trans (Db.applyAndRecordOnBranch_moves (which _ _ plan) applied)

theorem Db.createBranch_moves {name : String} {source created : BranchState}
    (run : db.createBranchPointer P name source = .ok (created, db')) :
    Db.Moves P E moved deleted records db db' := by
  unfold Db.createBranchPointer at run
  obtain ⟨_, -, run⟩ := Except.bind_eq_ok.mp run
  split_ifs at run with taken
  obtain ⟨_, -, run⟩ := Except.bind_eq_ok.mp run
  obtain ⟨_, matched, run⟩ := Except.bind_eq_ok.mp run
  obtain ⟨after, moved, run⟩ := Except.bind_eq_ok.mp run
  -- a name that is taken was refused before
  have absent : db.branches.lookup name = none := by simpa using taken
  exact (Prod.mk.inj (Except.pure_eq_ok.mp run)).2 ▸
    .single (.start absent (Db.stateInOrder_of_ensureStateMatches matched) moved)

theorem Db.fastForward_moves {target : String} {expectedRoot : Hash} {source : BranchState}
    {outcome : Db.FastForwardOutcome}
    (run : db.fastForwardBranchPointer P target expectedRoot source = .ok (outcome, db')) :
    Db.Moves P E (some target) deleted records db db' := by
  unfold Db.fastForwardBranchPointer at run
  obtain ⟨_, -, run⟩ := Except.bind_eq_ok.mp run
  obtain ⟨old, found, run⟩ := Except.bind_eq_ok.mp run
  split_ifs at run
  · exact (Prod.mk.inj (Except.pure_eq_ok.mp run)).2 ▸ .refl
  · obtain ⟨_, -, run⟩ := Except.bind_eq_ok.mp run
    obtain ⟨_, -, run⟩ := Except.bind_eq_ok.mp run
    obtain ⟨_, matched, run⟩ := Except.bind_eq_ok.mp run
    obtain ⟨descends, answer, run⟩ := Except.bind_eq_ok.mp run
    split_ifs at run with no
    · exact (Prod.mk.inj (Except.pure_eq_ok.mp run)).2 ▸ .refl
    · obtain rfl : descends = true := by simpa using no
      obtain ⟨after, moved, run⟩ := Except.bind_eq_ok.mp run
      exact (Prod.mk.inj (Except.pure_eq_ok.mp run)).2 ▸ .single
        (.forward rfl (Db.branch_ok.mp found)
        (Db.stateInOrder_of_ensureStateMatches matched) answer moved)

theorem Db.deleteBranch_moves {name : String} {expectedRoot : Option Hash}
    {outcome : Db.DeleteOutcome} (run : db.deleteBranch name expectedRoot = .ok (outcome, db')) :
    Db.Moves P E (some name) (some name) records db db' := by
  unfold Db.deleteBranch at run
  split_ifs at run
  obtain ⟨_, -, run⟩ := Except.bind_eq_ok.mp run
  obtain ⟨state, -, run⟩ := Except.bind_eq_ok.mp run
  split_ifs at run
  · exact (Prod.mk.inj (Except.pure_eq_ok.mp run)).2 ▸ .refl
  · exact (Prod.mk.inj (Except.pure_eq_ok.mp run)).2 ▸ .single (.delete db rfl rfl)

theorem Db.ensureInitialized_moves {rootHash : Hash}
    (run : db.ensureInitialized P E = .ok (rootHash, db')) :
    Db.Moves P E moved deleted records db db' := by
  unfold Db.ensureInitialized at run
  obtain ⟨put, stored, run⟩ := Except.bind_eq_ok.mp run
  obtain ⟨objects, indexed, run⟩ := Except.bind_eq_ok.mp run
  -- the built-in types, the empty root and what indexes it are put
  have kept : E.KeepsObjects → KeptIn db.objects objects := fun keeps =>
    ((keeps.builtinTypes db.objects).trans (putProgramRoot_keeps stored)).trans
      (keeps.index indexed)
  dsimp only at run
  split_ifs at run with there
  · exact (Prod.mk.inj (Except.pure_eq_ok.mp run)).2 ▸ .single (.store db objects kept)
  · obtain ⟨after, moved, run⟩ := Except.bind_eq_ok.mp run
    have absent : db.branches.lookup mainBranch = none := by simpa using there
    -- a branch that starts without a history has no point to be checked
    have bare : { db with objects := objects }.StateInOrder ⟨put.1, none⟩ := fun h hh => by
      simp at hh
    exact (Prod.mk.inj (Except.pure_eq_ok.mp run)).2 ▸
      .tail (.single (.store db objects kept)) (.start absent bare moved)

/-- A request is a sequence of moves, and moves no branch, deletes none and records no operation but
those it may. -/
theorem perform_moves (db : Db) (request : Request E) :
    Db.Moves P E request.moved request.deleted (request.Records P db) db
      (perform P db request) := by
  -- a transaction that is rolled back moves nothing
  have flagged : ∀ {α : Type} {moved deleted : Option String} {records : E.Operation → Prop}
      {run : Except Error (α × Bool × Db)},
      (∀ a commit after, run = .ok (a, commit, after) →
        Db.Moves P E moved deleted records db after) →
      Db.Moves P E moved deleted records db (finishFlagged db run) := by
    intro α moved deleted records run moves
    rcases run with _ | ⟨a, _ | _, after⟩
    · exact .refl
    · exact .refl
    · exact moves a true after rfl
  have immediate : ∀ {α : Type} {moved deleted : Option String} {records : E.Operation → Prop}
      {run : Except Error (α × Db)},
      (∀ a after, run = .ok (a, after) → Db.Moves P E moved deleted records db after) →
      Db.Moves P E moved deleted records db (finishImmediate db run) := by
    intro α moved deleted records run moves
    rcases run with _ | ⟨a, after⟩
    · exact .refl
    · exact moves a after rfl
  cases request with
  | ensureInitialized => exact immediate fun _ _ run => Db.ensureInitialized_moves run
  | apply => exact flagged fun _ _ _ run => Db.applyAndRecordOnBranch_moves rfl run
  | applyBatch =>
    exact flagged fun _ _ _ run => Db.applyOperations_moves
      (fun operation listed objects root _ read => ⟨operation, listed, objects, root, read⟩) run
  | mergeApply =>
    exact flagged fun _ _ _ run => mergeApply_moves (fun plan after planned =>
      ⟨plan, after, planned, rfl⟩) run
  | createBranch => exact immediate fun _ _ run => Db.createBranch_moves run
  | fastForward => exact immediate fun _ _ run => Db.fastForward_moves run
  | deleteBranch => exact immediate fun _ _ run => Db.deleteBranch_moves run

/-! ### What every move keeps -/

/-- No migration and no history point is lost or replaced. -/
structure Db.Keeps (db db' : Db) : Prop where
  migrations : ∀ h row, db.migrations.lookup h = some row → db'.migrations.lookup h = some row
  histories : ∀ h row, db.histories.lookup h = some row → db'.histories.lookup h = some row

theorem Db.Keeps.refl (db : Db) : db.Keeps db := ⟨fun _ _ => id, fun _ _ => id⟩

theorem Db.Keeps.trans {db'' : Db} (first : db.Keeps db') (second : db'.Keeps db'') :
    db.Keeps db'' :=
  ⟨fun h row found => second.migrations h row (first.migrations h row found),
    fun h row found => second.histories h row (first.histories h row found)⟩

theorem Db.Keeps.historyItem? (keeps : db.Keeps db') {h : Hash} {item : Db.HistoryItem}
    (found : db.historyItem? h = some item) : db'.historyItem? h = some item := by
  obtain ⟨row, migration, foundRow, foundMigration, rfl⟩ := Db.historyItem?_eq_some.mp found
  exact Db.historyItem?_eq_some.mpr ⟨row, migration, keeps.histories _ _ foundRow,
    keeps.migrations _ _ foundMigration, rfl⟩

theorem Db.Keeps.walk (keeps : db.Keeps db') {cursor : Option Hash} {items : List Db.HistoryItem}
    (walk : db.Walk cursor items) : db'.Walk cursor items :=
  walk.mono fun _ _ found => keeps.historyItem? found

/-- What recording does to the tables. -/
theorem Db.record_ok {name : String} {branch : BranchState} {newRoot : Hash} {op : E.Operation}
    {pre : List (Precondition E)} {post : List E.Postcondition} {agent : Option JsonValue}
    {migration history : Hash}
    (run : db.record P E name branch newRoot op pre post agent = .ok (migration, history, db')) :
    db' = { db.withPoint migration history (Db.migrationRow P E branch newRoot op pre post agent)
        ⟨branch.historyHash, migration, newRoot⟩ with
      branches := db.branches.insert name ⟨newRoot, some history⟩ } := by
  unfold Db.record at run
  obtain ⟨after, moved, result⟩ := Except.bind_eq_ok.mp run
  obtain ⟨rfl, rest⟩ := Prod.mk.inj (Except.pure_eq_ok.mp result)
  obtain ⟨rfl, rfl⟩ := Prod.mk.inj rest
  exact Db.setBranch_ok moved

/-- The hashes a migration and its history point are recorded under. -/
theorem Db.record_keys {name : String} {branch : BranchState} {newRoot : Hash} {op : E.Operation}
    {pre : List (Precondition E)} {post : List E.Postcondition} {agent : Option JsonValue}
    {migration history : Hash}
    (run : db.record P E name branch newRoot op pre post agent = .ok (migration, history, db')) :
    migration = migrationHash P branch.historyHash branch.rootHash newRoot
      (E.operationValue op) (Db.preconditionsValue E pre) (Db.postconditionsValue E post) ∧
    history = historyHash P branch.historyHash migration newRoot := by
  unfold Db.record at run
  obtain ⟨after, -, result⟩ := Except.bind_eq_ok.mp run
  obtain ⟨rfl, rest⟩ := Prod.mk.inj (Except.pure_eq_ok.mp result)
  exact ⟨rfl, (Prod.mk.inj rest).1.symm⟩

/-- A branch that may not be moved stays where it is. -/
theorem Db.Move.stays (move : Db.Move P E moved deleted records db db') {name : String}
    {state : BranchState} (other : moved ≠ some name)
    (found : db.branches.lookup name = some state) : db'.branches.lookup name = some state := by
  have differs : ∀ onto, moved = some onto → name ≠ onto := by
    rintro onto same rfl
    exact other same
  cases move with
  | store => exact found
  | @record _ _ into _ _ _ _ _ _ _ _ onto _ _ _ run =>
    rw [Db.record_ok run]
    exact (AList.lookup_insert_ne (differs into onto)).trans found
  | @start _ _ started _ absent _ run =>
    have other : name ≠ started := by
      rintro rfl
      simp [found] at absent
    rw [Db.setBranch_ok run]
    exact (AList.lookup_insert_ne other).trans found
  | @forward _ _ into _ _ onto _ _ _ run =>
    rw [Db.setBranch_ok run]
    exact (AList.lookup_insert_ne (differs into onto)).trans found
  | @delete gone _ onto _ => exact (AList.lookup_erase_ne (differs gone onto)).trans found

theorem Db.Moves.stays (moves : Db.Moves P E moved deleted records db db') {name : String}
    {state : BranchState} (other : moved ≠ some name)
    (found : db.branches.lookup name = some state) : db'.branches.lookup name = some state := by
  induction moves with
  | refl => exact found
  | tail _ move ih => exact move.stays other ih

theorem Db.Move.keeps (move : Db.Move P E moved deleted records db db') : db.Keeps db' := by
  cases move with
  | store => exact ⟨fun _ _ => id, fun _ _ => id⟩
  | record onto which conditions found run =>
    rw [Db.record_ok run]
    exact ⟨fun _ _ found => lookup_insertOrIgnore_of_some found,
      fun _ _ found => lookup_insertOrIgnore_of_some found⟩
  | start absent inOrder run => exact Db.setBranch_ok run ▸ ⟨fun _ _ => id, fun _ _ => id⟩
  | forward onto found inOrder descends run =>
    exact Db.setBranch_ok run ▸ ⟨fun _ _ => id, fun _ _ => id⟩
  | delete => exact ⟨fun _ _ => id, fun _ _ => id⟩

/-- Every move preserves the ledger. -/
theorem Ledger.move (reliable : P.Reliable) (ledger : Ledger P db)
    (move : Db.Move P E moved deleted records db db') : Ledger P db' := by
  cases move with
  | store _ objects => exact ledger.objects objects
  | record onto which conditions found run =>
    exact ledger.record reliable (ledger.branches _ _ found) run
  | start absent inOrder run => exact ledger.setBranch inOrder run
  | forward onto found inOrder descends run => exact ledger.setBranch inOrder run
  | @delete name =>
    -- the branches that are left were there
    refine ledger.congr rfl rfl fun other state found => ?_
    by_cases same : other = name
    · subst same
      simp at found
    · exact ledger.branches other state (by simpa [AList.lookup_erase_ne same] using found)

/-! ### Branches go on -/

/-- A branch of one database that went on in another: it is still there, its history begins with
what it was, and the roots it went through are the first of those it then went through. -/
structure Db.Grown (db db' : Db) (name : String) (state state' : BranchState)
    (items items' : List Db.HistoryItem) : Prop where
  before : db.branches.lookup name = some state
  after : db'.branches.lookup name = some state'
  walkBefore : db.Walk state.historyHash items
  walkAfter : db'.Walk state'.historyHash items'
  history : items.reverse <+: items'.reverse
  points : branchHistoryPoints items.reverse state <+: branchHistoryPoints items'.reverse state'

/-- A branch that no move touches. -/
theorem Db.Keeps.grown (keeps : db.Keeps db') {name : String} {state : BranchState}
    {items : List Db.HistoryItem} (before : db.branches.lookup name = some state)
    (after : db'.branches.lookup name = some state) (walk : db.Walk state.historyHash items) :
    Db.Grown db db' name state state items items :=
  ⟨before, after, walk, keeps.walk walk, List.prefix_rfl, List.prefix_rfl⟩

/-- A branch an operation is recorded on has one migration more, from the root it was at. -/
theorem Ledger.grown_record (reliable : P.Reliable) (ledger : Ledger P db) {name : String}
    {branch : BranchState} {newRoot : Hash} {op : E.Operation} {pre : List (Precondition E)}
    {post : List E.Postcondition} {agent : Option JsonValue} {migration history : Hash}
    (found : db.branches.lookup name = some branch)
    (run : db.record P E name branch newRoot op pre post agent = .ok (migration, history, db'))
    {items : List Db.HistoryItem} (walk : db.Walk branch.historyHash items) :
    ∃ state' items', Db.Grown db db' name branch state' items items' := by
  have inOrder := ledger.branches name branch found
  have keeps : db.Keeps db' := Db.record_ok run ▸
    ⟨fun _ _ found => lookup_insertOrIgnore_of_some found,
      fun _ _ found => lookup_insertOrIgnore_of_some found⟩
  have keys := Db.record_keys run
  have tables := Db.record_ok run
  -- the new point is found as it was recorded, and its migration with the roots it is between
  have migrationIsHash : IsHash migration := keys.1 ▸ isHash_hashBytes ..
  have point : db'.histories.lookup history = some ⟨branch.historyHash, migration, newRoot⟩ := by
    rw [tables]
    exact @Ledger.lookup_history_withPoint P db migration history
      (Db.migrationRow P E branch newRoot op pre post agent) _ reliable ledger
      (ledger.isHash_state inOrder) migrationIsHash rfl keys.2
  obtain ⟨row, foundRow, -, input, -⟩ : ∃ row, db'.migrations.lookup migration = some row ∧
      row.parentHistoryHash = branch.historyHash ∧ row.inputRootHash = branch.rootHash ∧
      row.outputRootHash = newRoot := by
    rw [tables]
    exact @Ledger.lookup_migration_withPoint P db migration history
      (Db.migrationRow P E branch newRoot op pre post agent)
      ⟨branch.historyHash, migration, newRoot⟩ reliable ledger _ _ _ keys.1
  have item : db'.historyItem? history = some ⟨history, branch.historyHash, migration,
      row.inputRootHash, newRoot, row.operationKind, row.operationJson⟩ :=
    Db.historyItem?_eq_some.mpr ⟨_, row, point, foundRow, rfl⟩
  -- so the walk from the new point goes on where the branch was
  refine ⟨⟨newRoot, some history⟩, _, found, by rw [tables]; exact AList.lookup_insert _, walk,
    .step item (keeps.walk walk), ?_, ?_⟩
  · rw [List.reverse_cons]
    exact List.prefix_append _ _
  · rw [List.reverse_cons]
    refine branchHistoryPoints_prefix (Db.historyHash_eq_none walk) (by simp)
      (List.prefix_append _ _) ?_
    -- the first migration of a branch starts from the root the branch started at
    cases items with
    | nil => exact input.symm
    | cons item items => exact (startRoot_append _ _ (by simp)).symm

/-- A branch that is moved forward. -/
theorem Db.grown_forward {name : String} {old source : BranchState}
    {items items' : List Db.HistoryItem} (found : db.branches.lookup name = some old)
    (walk : db.Walk old.historyHash items) (walk' : db.Walk source.historyHash items')
    (descends : db.branchStateDescendsFrom old source = .ok true)
    (run : db.setBranch name source = .ok db') :
    Db.Grown db db' name old source items items' := by
  have after : db' = { db with branches := db.branches.insert name source } := Db.setBranch_ok run
  have keeps : db.Keeps db' := after ▸ ⟨fun _ _ => id, fun _ _ => id⟩
  -- the check that a fast-forward makes is of the roots gone through
  have points : branchHistoryPoints items.reverse old <+:
      branchHistoryPoints items'.reverse source := by
    simpa [Db.branchStateDescendsFrom_of_walk walk walk'] using descends
  refine ⟨found, by rw [after]; exact AList.lookup_insert _, walk, keeps.walk walk', ?_, points⟩
  by_cases same : old = source
  · subst same
    exact walk.unique walk' ▸ List.prefix_rfl
  · exact prefix_of_meets walk walk' ((meets_iff_begins walk walk' same).mpr points)

/-- A move that does not delete the branch lets it go on. -/
theorem Ledger.grown_move (reliable : P.Reliable) (ledger : Ledger P db)
    (move : Db.Move P E moved deleted records db db') {name : String} {state : BranchState}
    (found : db.branches.lookup name = some state) (kept : deleted ≠ some name)
    {items : List Db.HistoryItem} (walk : db.Walk state.historyHash items) :
    ∃ state' items', Db.Grown db db' name state state' items items' := by
  have keeps := move.keeps
  -- only recording on the branch and moving it forward touch it
  cases move with
  | store => exact ⟨state, items, keeps.grown found found walk⟩
  | @record _ _ into _ _ _ _ _ _ _ _ _ _ _ here run =>
    by_cases same : name = into
    · subst same
      obtain rfl := Option.some.inj (found.symm.trans here)
      exact ledger.grown_record reliable here run walk
    · refine ⟨state, items, keeps.grown found ?_ walk⟩
      rw [Db.record_ok run]
      exact (AList.lookup_insert_ne same).trans found
  | @start _ _ started _ absent _ run =>
    have other : name ≠ started := by
      rintro rfl
      simp [found] at absent
    refine ⟨state, items, keeps.grown found ?_ walk⟩
    rw [Db.setBranch_ok run]
    exact (AList.lookup_insert_ne other).trans found
  | @forward _ _ into _ source _ here inOrder descends run =>
    by_cases same : name = into
    · subst same
      obtain rfl := Option.some.inj (found.symm.trans here)
      obtain ⟨items', walk'⟩ := ledger.walk_of_state inOrder
      exact ⟨source, items', Db.grown_forward found walk walk' descends run⟩
    · refine ⟨state, items, keeps.grown found ?_ walk⟩
      rw [Db.setBranch_ok run]
      exact (AList.lookup_insert_ne same).trans found
  | @delete gone _ _ which =>
    have other : name ≠ gone := by
      rintro rfl
      exact kept which
    exact ⟨state, items, keeps.grown found ((AList.lookup_erase_ne other).trans found) walk⟩

theorem Db.Grown.trans {db'' : Db} {name : String} {state state' state'' : BranchState}
    {items items' items'' : List Db.HistoryItem}
    (first : Db.Grown db db' name state state' items items')
    (second : Db.Grown db' db'' name state' state'' items' items'') :
    Db.Grown db db'' name state state'' items items'' :=
  ⟨first.before, second.after, first.walkBefore, second.walkAfter,
    first.history.trans second.history, first.points.trans second.points⟩

/-- Moves that do not delete the branch let it go on, and lose nothing. -/
theorem Ledger.grown_moves (reliable : P.Reliable) (ledger : Ledger P db)
    (moves : Db.Moves P E moved deleted records db db') {name : String} {state : BranchState}
    (found : db.branches.lookup name = some state) (kept : deleted ≠ some name)
    {items : List Db.HistoryItem} (walk : db.Walk state.historyHash items) :
    Ledger P db' ∧ db.Keeps db' ∧
      ∃ state' items', Db.Grown db db' name state state' items items' := by
  induction moves with
  | refl =>
    exact ⟨ledger, .refl db, state, items, (Db.Keeps.refl db).grown found found walk⟩
  | tail _ move ih =>
    obtain ⟨ledger', keeps, state', items', grown⟩ := ih
    obtain ⟨state'', items'', grown'⟩ :=
      ledger'.grown_move reliable move grown.after kept grown.walkAfter
    exact ⟨ledger'.move reliable move, keeps.trans move.keeps, state'', items'',
      grown.trans grown'⟩

/-- Requests that do not delete the branch let it go on, and lose nothing. -/
theorem Ledger.grown_requests (reliable : P.Reliable) (ledger : Ledger P db)
    (requests : List (Request E)) {name : String} {state : BranchState}
    (found : db.branches.lookup name = some state)
    (kept : ∀ request ∈ requests, request.deleted ≠ some name) {items : List Db.HistoryItem}
    (walk : db.Walk state.historyHash items) :
    db.Keeps (requests.foldl (CodeDb.perform P) db) ∧ ∃ state' items',
      Db.Grown db (requests.foldl (CodeDb.perform P) db) name state state' items items' := by
  -- on the requests: what the first leaves is a ledger again, with the branch in it
  induction requests generalizing db state items with
  | nil => exact ⟨.refl db, state, items, (Db.Keeps.refl db).grown found found walk⟩
  | cons request requests ih =>
    obtain ⟨ledger', keeps, state', items', grown⟩ := ledger.grown_moves reliable
      (perform_moves db request) found (kept request List.mem_cons_self) walk
    obtain ⟨keeps', state'', items'', grown'⟩ := ih ledger' grown.after
      (fun request listed => kept request (List.mem_cons_of_mem _ listed)) grown.walkAfter
    exact ⟨keeps.trans keeps', state'', items'', grown.trans grown'⟩

/-- However the requests of any clients are interleaved, none of them loses or replaces a migration
or a history point; and as long as none deletes a branch, the branch is still there, its history
begins with the history it had, and the roots it went through are the first of those it has gone
through since. The chain of the branch is its history, before and after, where the operations
recorded in it can be read. -/
theorem history_grows (reliable : P.Reliable) (reach : Reachable P E db)
    (requests : List (Request E)) {name : String} {state : BranchState}
    (found : db.branches.lookup name = some state)
    (kept : ∀ request ∈ requests, request.deleted ≠ some name) :
    let after := requests.foldl (perform P) db
    db.Keeps after ∧ ∃ state' older newer, after.branches.lookup name = some state' ∧
      db.Walk state.historyHash older.reverse ∧
      after.Walk state'.historyHash (older ++ newer).reverse ∧
      (db.historyChain E.readOperation db.walkBound name = .ok older ↔ Db.ReadsItems E older) ∧
      (after.historyChain E.readOperation after.walkBound name = .ok (older ++ newer) ↔
        Db.ReadsItems E (older ++ newer)) ∧
      branchHistoryPoints older state <+: branchHistoryPoints (older ++ newer) state' := by
  have ledger := reach.ledger reliable
  obtain ⟨items, walk⟩ := ledger.walk_of_state (ledger.branches name state found)
  obtain ⟨keeps, state', items', grown⟩ := ledger.grown_requests reliable requests found kept walk
  obtain ⟨newer, equal⟩ := grown.history
  have walkBefore : db.Walk state.historyHash items.reverse.reverse := by
    rwa [List.reverse_reverse]
  have walkAfter : (requests.foldl (perform P) db).Walk state'.historyHash
      (items.reverse ++ newer).reverse := by
    rw [equal, List.reverse_reverse]
    exact grown.walkAfter
  refine ⟨keeps, state', items.reverse, newer, grown.after, walkBefore, walkAfter,
    Db.historyChain_walkBound found walkBefore, Db.historyChain_walkBound grown.after walkAfter, ?_⟩
  rw [equal]
  exact grown.points

/-- One client goes on on the other branch, and then one on main. -/
def twoClients : List (Request typeNaming) :=
  [.apply "feature" (hashNamed (some "Point")) (TypeNaming.renameType "Point" "Place") none,
    .apply mainBranch (hashNamed none) (TypeNaming.createType "Pair") none]

/-- The database after the first of them. -/
def renamedDb : Db := perform plain featureDb (.apply "feature" (hashNamed (some "Point"))
  (TypeNaming.renameType "Point" "Place") none : Request typeNaming)

/-- Where the other branch is after both. -/
theorem twoClients_featureDb : ∃ history, (twoClients.foldl (perform plain)
    featureDb).branches.lookup "feature" = some ⟨hashNamed (some "Place"), history⟩ := by
  have first : NamedOn featureDb "feature" (.renameType "Point" "Place") renamedDb :=
    AtNamed.perform_apply (.renameType "Point" "Place") namedOn_featureDb.atNamed (by decide) none
  have main : AtNamed renamedDb mainBranch none := by
    have grows := namedOn_featureDb.grows.trans first.grows
    rw [tables_startedDb.1] at grows
    exact ⟨first.addressed, atNamed_initializedDb.stored.grow grows, none,
      (first.other (by decide)).trans lookup_featureDb_main⟩
  have second : NamedOn renamedDb mainBranch (.createType "Pair") (perform plain renamedDb
      (.apply mainBranch (hashNamed none) (TypeNaming.createType "Pair") none :
        Request typeNaming)) :=
    AtNamed.perform_apply (.createType "Pair") main nofun none
  obtain ⟨history, found⟩ := first.atNamed.branch
  rw [twoClients, List.foldl_cons, List.foldl_cons, List.foldl_nil]
  exact ⟨history, (second.other (by decide)).trans found⟩

/-- The history that the other branch had goes on. -/
theorem history_grows_featureDb :
    let after := twoClients.foldl (perform plain) featureDb
    featureDb.Keeps after ∧ ∃ state state' older newer,
      featureDb.branches.lookup "feature" = some state ∧
      after.branches.lookup "feature" = some state' ∧ older ≠ [] ∧ newer ≠ [] ∧
      featureDb.Walk state.historyHash older.reverse ∧
      after.Walk state'.historyHash (older ++ newer).reverse ∧
      branchHistoryPoints older state <+: branchHistoryPoints (older ++ newer) state' := by
  obtain ⟨history, found⟩ := namedOn_featureDb.state
  obtain ⟨history', found'⟩ := twoClients_featureDb
  obtain ⟨keeps, state', older, newer, there, walk, walk', -, -, points⟩ :=
    history_grows plain_reliable reachable_featureDb twoClients found
      (by simp [twoClients, Request.deleted])
  obtain rfl := Option.some.inj (found'.symm.trans there)
  have began : older ≠ [] := by
    rintro rfl
    cases walk
  refine ⟨keeps, _, _, older, newer, found, there, began, ?_, walk, walk', points⟩
  rintro rfl
  -- a history that did not go on would end at the root it ended at before
  rw [List.append_nil] at walk'
  have before := (reachable_featureDb.ledger plain_reliable).linkedChain
    ((reachable_featureDb.ledger plain_reliable).branches _ _ found) walk
  have ledger := (reachable_featureDb.requests twoClients).ledger plain_reliable
  have after := ledger.linkedChain (ledger.branches _ _ there) walk'
  rw [List.reverse_reverse] at before after
  have last : older.getLast began ∈ older.getLast? := List.getLast?_eq_some_getLast began
  exact absurd (hashNamed_inj ((before.output _ last).symm.trans (after.output _ last))) (by decide)

end CodeDb

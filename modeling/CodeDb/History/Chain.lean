import CodeDb.History.Ledger
import CodeDb.History.TypeNaming
import Mathlib.Data.List.Chain

/-!
# Linked branch histories

Whatever requests clients make, in whatever order, the history of a branch is a
linked chain that ends at the branch: each migration starts where the one before
it ended. It is read back as far as the operations recorded in it are.

A request that expects a branch at a root it is not at touches nothing, with one
exception: where the first operation of a batch has been applied already, it is
passed over, and what is left of the batch expects nothing any more.

## Main definitions

* `LinkedChain` — what is promised of the history of a branch
* `Request.SkipsFirst` — the exception

## Main results

* `branches_linked` — both, for every reachable database
* `branches_linked_staleBatch` — a batch that expects another root and is applied
-/

namespace CodeDb

open Linked

variable {P : Primitives} {E : Engine} {db db' : Db}

/-- The migrations of a branch, oldest first, are a linked chain that starts
without a parent and ends at the branch. -/
structure LinkedChain (db : Db) (state : BranchState) (items : List Db.HistoryItem) : Prop where
  start : ∀ item ∈ items.head?, item.parentHistoryHash = none
  linked : items.IsChain fun earlier later =>
    later.parentHistoryHash = some earlier.historyHash ∧ later.inputRoot = earlier.outputRoot
  finish : items.getLast?.map (·.historyHash) = state.historyHash
  output : ∀ item ∈ items.getLast?, item.outputRoot = state.rootHash
  recorded : ∀ item ∈ items, ∃ row, db.migrations.lookup item.migrationHash = some row ∧
    row.parentHistoryHash = item.parentHistoryHash ∧ row.inputRootHash = item.inputRoot ∧
    row.outputRootHash = item.outputRoot

/-! ### Walks -/

theorem Db.historyItem?_eq_some {h : Hash} {item : Db.HistoryItem} :
    db.historyItem? h = some item ↔ ∃ row migration, db.histories.lookup h = some row ∧
      db.migrations.lookup row.migrationHash = some migration ∧
      item = ⟨h, row.parentHistoryHash, row.migrationHash, migration.inputRootHash,
        row.outputRootHash, migration.operationKind, migration.operationJson⟩ := by
  simp only [Db.historyItem?, Option.bind_eq_some_iff, Option.map_eq_some_iff]
  constructor
  · rintro ⟨row, found, migration, foundMigration, rfl⟩
    exact ⟨row, migration, found, foundMigration, rfl⟩
  · rintro ⟨row, migration, found, foundMigration, rfl⟩
    exact ⟨row, found, migration, foundMigration, rfl⟩

theorem Db.historyItem?_key (h : Hash) (item : Db.HistoryItem)
    (found : db.historyItem? h = some item) : item.historyHash = h := by
  obtain ⟨row, migration, -, -, rfl⟩ := Db.historyItem?_eq_some.mp found
  rfl

/-- Every operation of a history can be read from the text it is recorded as. -/
def Db.ReadsItems (E : Engine) (items : List Db.HistoryItem) : Prop :=
  ∀ item ∈ items, ∃ op, E.readOperation item.operationJson = .ok op

/-- A walk that ends is the one the loop takes, where the operations can be read. -/
theorem Db.historyItems_eq_ok {cursor : Option Hash} {items items' : List Db.HistoryItem}
    (walk : db.Walk cursor items) {fuel : Nat} (enough : items.length ≤ fuel) :
    db.historyItems E.readOperation fuel cursor = .ok items' ↔
      items' = items ∧ Db.ReadsItems E items := by
  induction walk generalizing fuel items' with
  | done =>
    unfold Db.historyItems
    simp [Db.ReadsItems, eq_comm]
  | step found next ih =>
    obtain ⟨row, migration, foundRow, foundMigration, rfl⟩ := Db.historyItem?_eq_some.mp found
    cases fuel with
    | zero => simp at enough
    | succ fuel =>
      have rest := fun items' => @ih items' fuel (by simpa using enough)
      simp only [Db.historyItems, foundRow, foundMigration, Except.bind_eq_ok, Except.pure_eq_ok,
        Db.ReadsItems, List.forall_mem_cons]
      constructor
      · rintro ⟨op, read, items'', run, rfl⟩
        obtain ⟨rfl, reads⟩ := (rest items'').mp run
        exact ⟨rfl, ⟨op, read⟩, reads⟩
      · rintro ⟨rfl, ⟨op, read⟩, reads⟩
        exact ⟨op, read, _, (rest _).mpr ⟨rfl, reads⟩, rfl⟩

/-- No walk is longer than the table of history points. -/
theorem Db.Walk.length_le {cursor : Option Hash} {items : List Db.HistoryItem}
    (walk : db.Walk cursor items) : items.length ≤ db.histories.entries.length := by
  have bound : items.length ≤ db.histories.keys.length :=
    Linked.Walk.length_le walk Db.historyItem?_key
    (fun h item found => by
      obtain ⟨row, -, foundRow, -⟩ := Db.historyItem?_eq_some.mp found
      exact AList.mem_keys.mp (AList.lookup_isSome.mp (by simp [foundRow])))
  simpa [AList.keys, List.keys] using bound

/-- From a state in order the walk along its history is a linked chain. -/
theorem Ledger.linkedChain (ledger : Ledger P db) {state : BranchState}
    (inOrder : db.StateInOrder state) {items : List Db.HistoryItem}
    (walk : db.Walk state.historyHash items) : LinkedChain db state items.reverse where
  start item mem := walk.parent_getLast? item (by simpa using mem)
  linked := by
    rw [List.isChain_reverse]
    refine walk.isChain fun h item p parent found link foundParent => ?_
    obtain ⟨row, migration, foundRow, foundMigration, rfl⟩ := Db.historyItem?_eq_some.mp found
    obtain ⟨parentRow, -, foundParentRow, -, rfl⟩ := Db.historyItem?_eq_some.mp foundParent
    obtain ⟨migration', foundMigration', -, -, starts⟩ := ledger.inOrder h row foundRow
    obtain rfl := Option.some.inj (foundMigration.symm.trans foundMigration')
    obtain ⟨parentRow', foundParentRow', same⟩ := starts p link
    obtain rfl := Option.some.inj (foundParentRow.symm.trans foundParentRow')
    exact ⟨link, same.symm⟩
  finish := by
    rw [List.getLast?_reverse]
    exact walk.head?_key Db.historyItem?_key
  output item mem := by
    rw [List.getLast?_reverse] at mem
    generalize history : state.historyHash = cursor at walk
    cases walk with
    | done => simp at mem
    | step found _ =>
      obtain rfl : _ = item := by simpa using mem
      obtain ⟨row, migration, foundRow, -, rfl⟩ := Db.historyItem?_eq_some.mp found
      obtain ⟨row', foundRow', same⟩ := inOrder _ history
      obtain rfl := Option.some.inj (foundRow.symm.trans foundRow')
      exact same
  recorded item mem := by
    refine walk.forall_mem (p := fun item => ∃ row,
      db.migrations.lookup item.migrationHash = some row ∧
        row.parentHistoryHash = item.parentHistoryHash ∧ row.inputRootHash = item.inputRoot ∧
        row.outputRootHash = item.outputRoot) ?_ item (List.mem_reverse.mp mem)
    intro h item found
    obtain ⟨row, migration, foundRow, foundMigration, rfl⟩ := Db.historyItem?_eq_some.mp found
    obtain ⟨migration', foundMigration', parent, output, -⟩ := ledger.inOrder h row foundRow
    obtain rfl := Option.some.inj (foundMigration.symm.trans foundMigration')
    exact ⟨migration, foundMigration, parent, rfl, output⟩

/-- The chain of a branch is what is met on the walk along its history, oldest first. -/
theorem Db.historyChain_eq_ok {name : String} {state : BranchState}
    {items chain : List Db.HistoryItem} (found : db.branches.lookup name = some state)
    (walk : db.Walk state.historyHash items.reverse) {fuel : Nat}
    (enough : db.histories.entries.length ≤ fuel) :
    db.historyChain E.readOperation fuel name = .ok chain ↔
      chain = items ∧ Db.ReadsItems E items := by
  have walked := fun items' =>
    @Db.historyItems_eq_ok E db _ _ items' walk fuel (walk.length_le.trans enough)
  have reads : Db.ReadsItems E items.reverse ↔ Db.ReadsItems E items := by
    simp [Db.ReadsItems]
  rw [Db.historyChain, Db.branch_ok.mpr found]
  simp only [Except.bind_eq_ok, Except.pure_eq_ok, Except.ok.injEq, exists_eq_left', walked, reads]
  constructor
  · rintro ⟨items', ⟨rfl, reads⟩, rfl⟩
    exact ⟨List.reverse_reverse items, reads⟩
  · rintro ⟨rfl, reads⟩
    exact ⟨_, ⟨rfl, reads⟩, List.reverse_reverse chain⟩

theorem Db.historyChain_walkBound {name : String} {state : BranchState}
    {items : List Db.HistoryItem} (found : db.branches.lookup name = some state)
    (walk : db.Walk state.historyHash items.reverse) :
    db.historyChain E.readOperation db.walkBound name = .ok items ↔ Db.ReadsItems E items :=
  (Db.historyChain_eq_ok found walk (Nat.le_succ _)).trans (and_iff_right rfl)

/-- In a database with a ledger, the walk along the history of a branch comes to an end. -/
theorem Ledger.exists_walk (ledger : Ledger P db) {name : String} {state : BranchState}
    (found : db.branches.lookup name = some state) :
    ∃ items, db.Walk state.historyHash items.reverse ∧ LinkedChain db state items := by
  have inOrder := ledger.branches name state found
  obtain ⟨items, walk⟩ := ledger.walk_of_state inOrder
  refine ⟨items.reverse, ?_, ledger.linkedChain inOrder walk⟩
  rwa [List.reverse_reverse]

/-! ### What the flag of an operation says -/

/-- The flag to commit belongs to an operation that was applied. -/
def MigrationOutcome.commits : MigrationOutcome E → Bool
  | .applied _ => true
  | .alreadyApplied _ => false
  | .conflict _ => false

theorem Db.commit_refuse {branch : BranchState} {expectedRoot : Hash} {op : E.Operation}
    {failed : List (Precondition E)} {outcome : MigrationOutcome E}
    (run : db.refuse P E branch expectedRoot op failed = .ok outcome) :
    outcome.commits = false := by
  unfold Db.refuse at run
  obtain ⟨failedPost, -, run⟩ := Except.bind_eq_ok.mp run
  extract_lets at run
  split at run
  · obtain ⟨summary, -, run⟩ := Except.bind_eq_ok.mp run
    exact Except.pure_eq_ok.mp run ▸ rfl
  · exact Except.pure_eq_ok.mp run ▸ rfl

theorem Db.commit_recordChange {name : String} {branch : BranchState} {newRoot : Hash}
    {op : E.Operation} {pre : List (Precondition E)} {agent : Option JsonValue}
    {outcome : MigrationOutcome E} {commit : Bool}
    (run : db.recordChange P E name branch newRoot op pre agent = .ok (outcome, commit, db')) :
    commit = outcome.commits := by
  unfold Db.recordChange at run
  obtain ⟨failedPost, -, run⟩ := Except.bind_eq_ok.mp run
  split_ifs at run
  · obtain ⟨summary, -, result⟩ := Except.bind_eq_ok.mp run
    obtain ⟨rfl, rest⟩ := Prod.mk.inj (Except.pure_eq_ok.mp result)
    exact (Prod.mk.inj rest).1.symm
  · obtain ⟨summary, -, run⟩ := Except.bind_eq_ok.mp run
    obtain ⟨recorded, -, result⟩ := Except.bind_eq_ok.mp run
    obtain ⟨rfl, rest⟩ := Prod.mk.inj (Except.pure_eq_ok.mp result)
    exact (Prod.mk.inj rest).1.symm

/-- An operation asks to be committed exactly if it was applied. -/
theorem Db.commit_applyAndRecordOnBranch {name : String} {expectedRoot : Hash} {op : E.Operation}
    {agent : Option JsonValue} {outcome : MigrationOutcome E} {commit : Bool}
    (run : db.applyAndRecordOnBranch P E name expectedRoot op agent = .ok (outcome, commit, db')) :
    commit = outcome.commits := by
  unfold Db.applyAndRecordOnBranch at run
  obtain ⟨branch, -, run⟩ := Except.bind_eq_ok.mp run
  obtain ⟨failedPre, -, run⟩ := Except.bind_eq_ok.mp run
  by_cases refused : (!failedPre.isEmpty) = true
  · rw [if_pos refused] at run
    obtain ⟨answer, answered, result⟩ := Except.bind_eq_ok.mp run
    obtain ⟨rfl, rest⟩ := Prod.mk.inj (Except.pure_eq_ok.mp result)
    rw [Db.commit_refuse answered]
    exact (Prod.mk.inj rest).1.symm
  · rw [if_neg refused] at run
    obtain ⟨⟨newRoot, objects⟩, -, run⟩ := Except.bind_eq_ok.mp run
    exact Db.commit_recordChange run

/-! ### Stale expectations -/

/-- An operation that expects another root touches nothing. -/
theorem Db.applyAndRecordOnBranch_stale {name : String} {state : BranchState}
    {expectedRoot : Hash} {op : E.Operation} {agent : Option JsonValue}
    {outcome : MigrationOutcome E} {commit : Bool}
    (found : db.branches.lookup name = some state) (stale : state.rootHash ≠ expectedRoot)
    (run : db.applyAndRecordOnBranch P E name expectedRoot op agent = .ok (outcome, commit, db')) :
    commit = false ∧ db' = db := by
  obtain ⟨branch, found', untouched | ⟨current, -⟩⟩ := Db.applyAndRecordOnBranch_cases run
  · exact untouched
  · obtain rfl := Option.some.inj (found.symm.trans (Db.branch_ok.mp found'))
    exact absurd current stale

/-- An operation has been applied already: what it is to establish holds at the root that a branch
is at, and it is recorded to have led there from the root that is expected. -/
structure Db.AppliedAlready (P : Primitives) (db : Db) (branch : BranchState) (expectedRoot : Hash)
    (op : E.Operation) : Prop where
  established : Db.failedPostconditions P E db.objects branch.rootHash
    (E.postconditionsFor db.objects branch.rootHash op) = .ok []
  recorded : db.recordedOperationOutputMatches P E expectedRoot branch.rootHash op = true

/-- The first operation of a batch has been applied already. -/
def Request.SkipsFirst (P : Primitives) (db : Db) : Request E → Prop
  | .applyBatch name expectRoot (apiOperation :: _) _ =>
    ∃ state op, db.branches.lookup name = some state ∧
      E.operationFromApi db.objects
        (((E.expectRootHash apiOperation).or expectRoot).getD state.rootHash) apiOperation =
          .ok op ∧
      db.AppliedAlready P state
        (((E.expectRootHash apiOperation).or expectRoot).getD state.rootHash) op
  | _ => False

/-- Where another root is expected, the expectation is the first precondition that fails. -/
theorem Db.failedPreconditions_stale {currentRoot expectedRoot : Hash} {op : E.Operation}
    {failed : List (Precondition E)} (stale : currentRoot ≠ expectedRoot)
    (run : db.failedPreconditions P E currentRoot (db.preconditionsFor E expectedRoot op) =
      .ok failed) : ∃ rest, failed = .rootIsCurrent expectedRoot :: rest := by
  obtain ⟨_, -, run⟩ := Except.bind_eq_ok.mp run
  obtain ⟨held, holds, run⟩ := Except.bind_eq_ok.mp run
  obtain ⟨rest, -, result⟩ := Except.bind_eq_ok.mp run
  obtain rfl : (expectedRoot == currentRoot) = held := Except.ok.inj holds
  rw [beq_eq_false_iff_ne.mpr stale.symm] at result
  exact ⟨rest, (Except.pure_eq_ok.mp result).symm⟩

/-- An operation that expects another root is found applied only where it has been. -/
theorem Db.appliedAlready_of_stale {name : String} {state : BranchState}
    {expectedRoot : Hash} {op : E.Operation} {agent : Option JsonValue} {report : MigrationReport E}
    {commit : Bool} (found : db.branches.lookup name = some state)
    (stale : state.rootHash ≠ expectedRoot)
    (run : db.applyAndRecordOnBranch P E name expectedRoot op agent =
      .ok (.alreadyApplied report, commit, db')) : db.AppliedAlready P state expectedRoot op := by
  obtain ⟨branch, found', run⟩ := Except.bind_eq_ok.mp run
  obtain rfl := Option.some.inj (found.symm.trans (Db.branch_ok.mp found'))
  obtain ⟨failedPre, checked, run⟩ := Except.bind_eq_ok.mp run
  obtain ⟨rest, rfl⟩ := Db.failedPreconditions_stale stale checked
  -- the operation is refused, and then its postconditions and the records are looked at
  obtain ⟨outcome, refused, result⟩ := Except.bind_eq_ok.mp run
  obtain ⟨rfl, -⟩ := Prod.mk.inj (Except.pure_eq_ok.mp result)
  obtain ⟨failedPost, checked, refused⟩ := Except.bind_eq_ok.mp refused
  simp only [List.any_cons, Bool.true_or, if_true] at refused
  split at refused
  · rename_i holds
    obtain ⟨empty, recorded⟩ := Bool.and_eq_true_iff.mp holds
    exact ⟨List.isEmpty_iff.mp empty ▸ checked, recorded⟩
  · cases Except.pure_eq_ok.mp refused

/-- What a batch does does not depend on what it reports. -/
theorem finishFlagged_applyOperations (before : Db) {name : String} {agent : Option JsonValue}
    (operations : List E.ApiOperation) (expectation : Option Hash)
    (results results' : List (MigrationOutcome E)) (anyApplied : Bool) :
    finishFlagged before (db.applyOperations P E name agent expectation operations results
        anyApplied) =
      finishFlagged before (db.applyOperations P E name agent expectation operations results'
        anyApplied) := by
  induction operations generalizing db expectation results results' anyApplied with
  | nil => cases anyApplied <;> rfl
  | cons apiOperation operations ih =>
    simp only [Db.applyOperations]
    cases db.branch name with
    | error error => rfl
    | ok branch =>
      simp only [bind, Except.bind]
      split
      · rfl
      · split
        · rfl
        · exact ih ..
        · exact ih ..
        · rfl

/-- A batch whose first operation expects another root touches nothing, or the operation has been
applied already, and the batch does what is left of it does without an expectation. -/
theorem perform_batch_stale {name : String} {state : BranchState} {expectRoot : Option Hash}
    {apiOperation : E.ApiOperation} {expectedRoot : Hash} (operations : List E.ApiOperation)
    (agent : Option JsonValue)
    (expected : (E.expectRootHash apiOperation).or expectRoot = some expectedRoot)
    (found : db.branches.lookup name = some state) (stale : state.rootHash ≠ expectedRoot) :
    perform P db (.applyBatch name expectRoot (apiOperation :: operations) agent) = db ∨
      (Request.applyBatch name expectRoot (apiOperation :: operations) agent :
          Request E).SkipsFirst P db ∧
        perform P db (.applyBatch name expectRoot (apiOperation :: operations) agent) =
          perform P db (.applyBatch name none operations agent) := by
  simp only [perform, Db.applyOperations, Db.branch_ok.mpr found, bind, Except.bind, expected,
    Option.getD_some]
  split
  · exact Or.inl rfl
  · rename_i op resolved
    split
    · exact Or.inl rfl
    · rename_i applied
      -- what expects another root leaves no trace, so it is not applied
      obtain ⟨rfl, -⟩ := Db.applyAndRecordOnBranch_stale found stale applied
      cases Db.commit_applyAndRecordOnBranch applied
    · rename_i applied
      refine Or.inr ⟨⟨state, op, found, ?_, ?_⟩, finishFlagged_applyOperations ..⟩
      · rw [expected]
        exact resolved
      · rw [expected]
        exact Db.appliedAlready_of_stale found stale applied
    · exact Or.inl rfl

/-- A request that expects a branch at another root touches nothing, unless it is a batch whose
first operation has been applied already. -/
theorem perform_stale {request : Request E} {name : String} {expectedRoot : Hash}
    {state : BranchState} (expects : request.expectation = some (name, expectedRoot))
    (found : db.branches.lookup name = some state) (stale : state.rootHash ≠ expectedRoot)
    (fresh : ¬ request.SkipsFirst P db) : perform P db request = db := by
  have branch := Db.branch_ok.mpr found
  cases request with
  | apply branchName expected op agent =>
    obtain ⟨rfl, rfl⟩ := Prod.mk.inj (Option.some.inj expects)
    simp only [perform]
    cases run : db.applyAndRecordOnBranch P E branchName expected op agent with
    | ok result =>
      obtain ⟨outcome, commit, after⟩ := result
      obtain ⟨rfl, -⟩ := Db.applyAndRecordOnBranch_stale found stale run
      rfl
    | error => rfl
  | applyBatch branchName expectRoot operations agent =>
    cases operations with
    | nil => rfl
    | cons apiOperation operations =>
      obtain ⟨root, expected, same⟩ := Option.map_eq_some_iff.mp expects
      obtain ⟨rfl, rfl⟩ := Prod.mk.inj same
      exact (perform_batch_stale operations agent expected found stale).resolve_right
        fun skipped => fresh skipped.1
  | mergeApply target source expected =>
    obtain ⟨rfl, rfl⟩ := Prod.mk.inj (Option.some.inj expects)
    simp [perform, mergeApplyBranchesInTx, branch, stale, bind, Except.bind, pure, Except.pure,
      finishFlagged]
  | fastForward target expected source =>
    obtain ⟨rfl, rfl⟩ := Prod.mk.inj (Option.some.inj expects)
    cases valid : Db.validateBranchName target <;>
      simp [perform, Db.fastForwardBranchPointer, valid, branch, stale, bind, Except.bind, pure,
        Except.pure, finishImmediate]
  | deleteBranch branchName expected =>
    cases expected with
    | none => simp [Request.expectation] at expects
    | some expected =>
      obtain ⟨rfl, rfl⟩ := Prod.mk.inj (Option.some.inj expects)
      by_cases main : branchName = mainBranch
      · simp [perform, Db.deleteBranch, main, finishImmediate]
      · cases valid : Db.validateBranchName branchName <;>
          simp [perform, Db.deleteBranch, main, Db.deleteBranchPointerExpected, valid, branch,
            Ne.symm stale, bind, Except.bind, pure, Except.pure, finishImmediate]
  | _ => simp [Request.expectation] at expects

/-- However the requests of any clients are interleaved, the walk along the history of every branch
comes to an end, and is a linked chain that ends at the branch; it is what is read of the history,
where the operations recorded in it can be read. A request that expects a branch at another root
touches nothing, and so does an operation of a batch that does; only where the first operation of
such a batch has been applied already is the batch what is left of it, without an expectation. -/
theorem branches_linked (reliable : P.Reliable) (reach : Reachable P E db) :
    (∀ name state, db.branches.lookup name = some state →
      ∃ items, db.Walk state.historyHash items.reverse ∧ LinkedChain db state items ∧
        ∀ fuel ≥ db.histories.entries.length, ∀ chain,
          db.historyChain E.readOperation fuel name = .ok chain ↔
            chain = items ∧ Db.ReadsItems E items) ∧
    (∀ (request : Request E) name expectedRoot state,
      request.expectation = some (name, expectedRoot) → db.branches.lookup name = some state →
      state.rootHash ≠ expectedRoot → ¬ request.SkipsFirst P db → perform P db request = db) ∧
    (∀ name expectRoot apiOperation operations agent expectedRoot state,
      (E.expectRootHash apiOperation).or expectRoot = some expectedRoot →
      db.branches.lookup name = some state → state.rootHash ≠ expectedRoot →
      (Request.applyBatch name expectRoot (apiOperation :: operations) agent :
        Request E).SkipsFirst P db →
      perform P db (.applyBatch name expectRoot (apiOperation :: operations) agent) = db ∨
        perform P db (.applyBatch name expectRoot (apiOperation :: operations) agent) =
          perform P db (.applyBatch name none operations agent)) ∧
    (∀ (during after : Db) name state expectedRoot (op : E.Operation) agent outcome commit,
      during.branches.lookup name = some state → state.rootHash ≠ expectedRoot →
      during.applyAndRecordOnBranch P E name expectedRoot op agent =
        .ok (outcome, commit, after) → commit = false ∧ after = during) := by
  refine ⟨fun name state found => ?_,
    fun _ _ _ _ expects found stale fresh => perform_stale expects found stale fresh,
    fun name expectRoot apiOperation operations agent _ _ expected found stale _ => ?_,
    fun _ _ _ _ _ _ _ _ _ found stale run => Db.applyAndRecordOnBranch_stale found stale run⟩
  · obtain ⟨items, walk, linked⟩ := (reach.ledger reliable).exists_walk found
    exact ⟨items, walk, linked, fun fuel enough chain => Db.historyChain_eq_ok found walk enough⟩
  · exact (perform_batch_stale operations agent expected found stale).imp_right And.right

/-- Where the operations of a database can be read, so can those of its histories. -/
theorem Db.ReadsOperations.items (reads : db.ReadsOperations E) {cursor : Option Hash}
    {items : List Db.HistoryItem} (walk : db.Walk cursor items.reverse) :
    Db.ReadsItems E items := by
  intro item mem
  refine walk.forall_mem (p := fun item => ∃ op, E.readOperation item.operationJson = .ok op) ?_
    item (List.mem_reverse.mpr mem)
  intro h item found
  obtain ⟨row, migration, -, foundMigration, rfl⟩ := Db.historyItem?_eq_some.mp found
  exact reads _ migration foundMigration

/-! ### A batch that is passed over -/

/-- The main branch of a new database gets a type. -/
def createdDb : Db :=
  perform plain initializedDb
    (.apply mainBranch (hashNamed none) (TypeNaming.createType "Point") none : Request typeNaming)

/-- The walk along the history of a branch on which the first operation was recorded. -/
theorem NamedOn.exists_walk {branchName : String} {op : TypeNaming}
    (named : NamedOn db branchName op db')
    (fresh : db.migrations = ∅ ∧ db.histories = ∅)
    (bare : db.branches.lookup branchName = some ⟨hashNamed op.before, none⟩) :
    ∃ history item, db'.branches.lookup branchName =
        some ⟨hashNamed (some op.after), some history⟩ ∧
      db'.Walk (some history) [item] ∧ item.inputRoot = hashNamed op.before := by
  obtain ⟨parent, migration, history, row, records, found, same⟩ := named.tables
  obtain rfl : none = parent := (BranchState.mk.inj (Option.some.inj (bare.symm.trans found))).2
  refine ⟨history, ⟨history, none, migration, row.inputRootHash, hashNamed (some op.after),
    row.operationKind, row.operationJson⟩, by rw [same]; exact AList.lookup_insert _, ?_,
    records.input⟩
  -- in tables that were empty the rows are what was inserted
  refine .step (Db.historyItem?_eq_some.mpr ⟨⟨none, migration, hashNamed (some op.after)⟩, row, ?_,
    ?_, rfl⟩) .done
  · rw [same]
    simp only [Db.withPoint, fresh.2, lookup_insertOrIgnore_self, AList.lookup_empty,
      Option.getD_none]
  · rw [same]
    simp only [Db.withPoint, fresh.1, lookup_insertOrIgnore_self, AList.lookup_empty,
      Option.getD_none]

theorem namedOn_createdDb : NamedOn initializedDb mainBranch (.createType "Point") createdDb :=
  AtNamed.perform_apply (.createType "Point") atNamed_initializedDb nofun none

theorem reachable_createdDb : Reachable plain typeNaming createdDb :=
  reachable_initializedDb.perform _

/-- The history of the main branch is read to its end, which is the one migration there is. -/
theorem branches_linked_createdDb :
    ∃ state item, createdDb.branches.lookup mainBranch = some state ∧
      LinkedChain createdDb state [item] ∧
      createdDb.historyChain typeNaming.readOperation createdDb.histories.entries.length
        mainBranch = .ok [item] := by
  have fresh : initializedDb.migrations = ∅ ∧ initializedDb.histories = ∅ := by
    rw [initializedDb_eq]
    exact ⟨rfl, rfl⟩
  obtain ⟨history, item, found, walk, -⟩ := namedOn_createdDb.exists_walk fresh lookup_initializedDb
  obtain ⟨items, walk', linked, chain⟩ :=
    (branches_linked plain_reliable reachable_createdDb).1 _ _ found
  obtain rfl : [item] = items := List.reverse_injective (walk.unique walk')
  refine ⟨_, item, found, linked, (chain _ le_rfl _).mpr ⟨rfl, ?_⟩⟩
  exact (namedOn_createdDb.reads reads_initializedDb).items walk'

/-- A client retries the creation of the type together with a renaming, and expects main at the root
it was at before: the creation is found to be done, and the renaming is applied. -/
theorem branches_linked_staleBatch :
    ∃ state, createdDb.branches.lookup mainBranch = some state ∧ state.rootHash ≠ hashNamed none ∧
      (perform plain createdDb (.applyBatch mainBranch (some (hashNamed none))
        [TypeNaming.createType "Point", .renameType "Point" "Pair"] none :
          Request typeNaming)).branches.lookup mainBranch ≠ some state := by
  have there : AtNamed createdDb mainBranch (some "Point") := namedOn_createdDb.atNamed
  obtain ⟨history, found⟩ := there.branch
  have fresh : initializedDb.migrations = ∅ := by rw [initializedDb_eq]; rfl
  obtain ⟨report, skipped⟩ := there.alreadyApplied (.createType "Point") nofun none
    (namedOn_createdDb.recorded fresh)
  obtain ⟨report', after, applied, named⟩ := there.applyAndRecordOnBranch
    (.renameType "Point" "Pair") (by decide) none
  have expects : ∀ op, typeNaming.expectRootHash op = none := fun _ => rfl
  have reads : ∀ objects root, ∀ op : TypeNaming,
      typeNaming.operationFromApi objects root op = .ok op := fun _ _ _ => rfl
  have first : createdDb.applyOperations plain typeNaming mainBranch none (some (hashNamed none))
      [TypeNaming.createType "Point", .renameType "Point" "Pair"] [] false =
        createdDb.applyOperations plain typeNaming mainBranch none none
          [TypeNaming.renameType "Point" "Pair"] [.alreadyApplied report] false :=
    applyOperations_alreadyApplied (Db.branch_ok.mpr found) (expects _) (Option.getD_some ..)
      (reads _ _ _) skipped
  have second : createdDb.applyOperations plain typeNaming mainBranch none none
      [TypeNaming.renameType "Point" "Pair"] [.alreadyApplied report] false =
        after.applyOperations plain typeNaming mainBranch none none []
          [.alreadyApplied report, .applied report'] true :=
    applyOperations_applied (Db.branch_ok.mpr found) (expects _) (Option.getD_none ..)
      (reads _ _ _) applied
  have served : perform plain createdDb (.applyBatch mainBranch (some (hashNamed none))
      [TypeNaming.createType "Point", .renameType "Point" "Pair"] none : Request typeNaming) =
        after := by
    rw [perform, first, second]
    rfl
  have moves : hashNamed (some "Point") ≠ hashNamed none := fun same =>
    absurd (hashNamed_inj same) (by decide)
  refine ⟨_, found, moves, fun same => ?_⟩
  obtain ⟨history', moved⟩ := named.atNamed.branch
  rw [served, moved] at same
  exact absurd (hashNamed_inj (BranchState.mk.inj (Option.some.inj same)).1) (by decide)

end CodeDb

import CodeDb.History.Descent

/-!
# Batches

A batch runs in one transaction. It is all or nothing: if every operation of it is accepted when
its turn comes, the batch does what the operations do as requests of their own, one after the
other; and if one of them is not, the batch does nothing, whatever came before it.

An operation is resolved when its turn comes, so the batch stands for a sequence of requests that
depends on the database it meets.

## Main definitions

* `Db.OneByOne` — the requests a batch stands for

## Main results

* `applyBatch_oneByOne` — a batch does what they do, or nothing
-/

namespace CodeDb

variable {P : Primitives} {E : Engine} {db db' : Db}

/-- An outcome that lets a batch go on. -/
def MigrationOutcome.Accepted : MigrationOutcome E → Prop
  | .applied _ => True
  | .alreadyApplied _ => True
  | .conflict _ => False

/-- The requests a batch stands for, and the database they lead to: each operation is resolved
against the root it expects, and is accepted. -/
inductive Db.OneByOne (P : Primitives) (E : Engine) (name : String) (agent : Option JsonValue) :
    Db → Option Hash → List E.ApiOperation → List (Request E) → Db → Prop
  | nil (db : Db) (expectation : Option Hash) : OneByOne P E name agent db expectation [] [] db
  | cons {db during after : Db} {expectation : Option Hash} {apiOperation : E.ApiOperation}
      {operations : List E.ApiOperation} {requests : List (Request E)} {branch : BranchState}
      {expectedRoot : Hash} {op : E.Operation} {outcome : MigrationOutcome E} {commit : Bool}
      (found : db.branch name = .ok branch)
      (expected : expectedRoot =
        ((E.expectRootHash apiOperation).or expectation).getD branch.rootHash)
      (resolved : E.operationFromApi db.objects expectedRoot apiOperation = .ok op)
      (applied : db.applyAndRecordOnBranch P E name expectedRoot op agent =
        .ok (outcome, commit, during))
      (accepted : outcome.Accepted)
      (rest : OneByOne P E name agent (perform P db (.apply name expectedRoot op agent)) none
        operations requests after) :
      OneByOne P E name agent db expectation (apiOperation :: operations)
        (.apply name expectedRoot op agent :: requests) after

/-- One request for each operation, performed one after the other. -/
theorem Db.OneByOne.foldl {name : String} {agent : Option JsonValue} {expectation : Option Hash}
    {operations : List E.ApiOperation} {requests : List (Request E)}
    (run : Db.OneByOne P E name agent db expectation operations requests db') :
    db' = requests.foldl (perform P) db ∧ requests.length = operations.length := by
  induction run with
  | nil => exact ⟨rfl, rfl⟩
  | cons _ _ _ _ _ _ ih => exact ⟨ih.1, congrArg Nat.succ ih.2⟩

/-! ### Batches -/

/-- What one operation does as a request. -/
theorem perform_apply {name : String} {expectedRoot : Hash} {op : E.Operation}
    {agent : Option JsonValue} {outcome : MigrationOutcome E} {commit : Bool}
    (run : db.applyAndRecordOnBranch P E name expectedRoot op agent = .ok (outcome, commit, db')) :
    perform P db (.apply name expectedRoot op agent) = if outcome.commits then db' else db := by
  rw [← Db.commit_applyAndRecordOnBranch run, perform, run]
  cases commit <;> rfl

/-- The operations of a batch, where each is accepted, lead where the requests lead. The flag says
whether any of them left a trace. -/
theorem Db.OneByOne.run {name : String} {agent : Option JsonValue} {expectation : Option Hash}
    {operations : List E.ApiOperation} {requests : List (Request E)}
    (oneByOne : Db.OneByOne P E name agent db expectation operations requests db')
    (results : List (MigrationOutcome E)) (anyApplied : Bool) :
    ∃ results' commit, db.applyOperations P E name agent expectation operations results anyApplied =
        .ok (.finished results', commit, db') ∧
      (commit = false → db' = db) ∧ (anyApplied = true → commit = true) := by
  induction oneByOne generalizing results anyApplied with
  | nil => exact ⟨results, anyApplied, rfl, fun _ => rfl, id⟩
  | @cons db during after expectation apiOperation operations requests branch expectedRoot op
      outcome commit found expected resolved applied accepted rest ih =>
    -- an operation that was applied already leaves nothing, and is no reason to commit
    have performed := perform_apply applied
    rw [Db.applyOperations]
    simp only [found, bind, Except.bind, ← expected, resolved, applied]
    cases outcome with
    | applied report =>
      obtain ⟨results', commit, run, -, kept⟩ := ih (results ++ [.applied report]) true
      rw [performed] at run
      exact ⟨results', commit, run, fun off => by simp [kept rfl] at off, fun _ => kept rfl⟩
    | alreadyApplied report =>
      obtain ⟨results', commit, run, same, kept⟩ := ih (results ++ [.alreadyApplied report])
        anyApplied
      rw [performed] at run same
      exact ⟨results', commit, run, same, kept⟩
    | conflict conflict => exact accepted.elim

/-- A batch that is not taken back had each of its operations accepted. -/
theorem Db.oneByOne_of_run {name : String} {agent : Option JsonValue} {expectation : Option Hash}
    {operations : List E.ApiOperation} {results : List (MigrationOutcome E)} {anyApplied : Bool}
    {outcome : Db.BatchOutcome E} (run : db.applyOperations P E name agent expectation operations
      results anyApplied = .ok (outcome, true, db')) :
    ∃ requests, Db.OneByOne P E name agent db expectation operations requests db' := by
  induction operations generalizing db expectation results anyApplied with
  | nil =>
    obtain ⟨-, rest⟩ := Prod.mk.inj (Except.ok.inj run)
    exact ⟨[], (Prod.mk.inj rest).2 ▸ .nil db expectation⟩
  | cons operation operations ih =>
    rw [Db.applyOperations] at run
    obtain ⟨branch, found, run⟩ := Except.bind_eq_ok.mp run
    dsimp only at run
    -- an operation that cannot be resolved, or is in conflict, takes the batch back
    split at run
    · cases (Prod.mk.inj (Prod.mk.inj (Except.pure_eq_ok.mp run)).2).1
    · rename_i op resolved
      split at run
      · cases (Prod.mk.inj (Prod.mk.inj (Except.pure_eq_ok.mp run)).2).1
      · rename_i applied
        obtain ⟨requests, rest⟩ := ih run
        have performed := perform_apply applied
        exact ⟨_, .cons found rfl resolved applied trivial (by rw [performed]; exact rest)⟩
      · rename_i applied
        obtain ⟨requests, rest⟩ := ih run
        have performed := perform_apply applied
        exact ⟨_, .cons found rfl resolved applied trivial (by rw [performed]; exact rest)⟩
      · cases (Prod.mk.inj (Prod.mk.inj (Except.pure_eq_ok.mp run)).2).1

/-- A batch is all or nothing, and what it does is what its operations do as requests of their own:
if each is accepted when its turn comes, the batch leads where performing them one after the other
leads, and otherwise it leaves the database as it was. -/
theorem applyBatch_oneByOne (P : Primitives) (db : Db) (name : String) (expectation : Option Hash)
    (operations : List E.ApiOperation) (agent : Option JsonValue) :
    (∃ requests, requests.length = operations.length ∧
      Db.OneByOne P E name agent db expectation operations requests
        (perform P db (.applyBatch name expectation operations agent)) ∧
      perform P db (.applyBatch name expectation operations agent) =
        requests.foldl (perform P) db) ∨
    (¬∃ requests after, Db.OneByOne P E name agent db expectation operations requests after) ∧
      perform P db (.applyBatch name expectation operations agent) = db := by
  by_cases accepted : ∃ requests after,
      Db.OneByOne P E name agent db expectation operations requests after
  · obtain ⟨requests, after, oneByOne⟩ := accepted
    obtain ⟨results, commit, run, same, -⟩ := oneByOne.run [] false
    have led : perform P db (.applyBatch name expectation operations agent) = after := by
      rw [perform, run]
      -- a batch that is rolled back although all was accepted changed nothing
      cases commit with
      | true => rfl
      | false => exact (same rfl).symm
    exact Or.inl ⟨requests, oneByOne.foldl.2, led ▸ oneByOne, led ▸ oneByOne.foldl.1⟩
  · refine Or.inr ⟨accepted, ?_⟩
    rw [perform]
    rcases run : db.applyOperations P E name agent expectation operations [] false with
      _ | ⟨outcome, _ | _, after⟩
    · rfl
    · rfl
    · obtain ⟨requests, oneByOne⟩ := Db.oneByOne_of_run run
      exact absurd ⟨requests, after, oneByOne⟩ accepted

end CodeDb

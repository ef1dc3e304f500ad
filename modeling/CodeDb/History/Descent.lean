import CodeDb.History.Chain

/-!
# Fast-forwards

A branch is moved forward to a state that descends from its own. The check walks from the
state along parent links, and does not compare roots on the way: it looks for the history
point of the branch or, where the branch has none, for a first migration from its root.

In a database with a ledger the walk never fails, and it finds what it looks for exactly if
the roots the branch went through are the first of those the state went through. So a
fast-forward never drops what the branch went through.

## Main definitions

* `startRoot` — the root a history begins at

## Main results

* `Db.branchStateDescendsFrom_of_walk` — what the check finds
* `fastForward_exact` — when a fast-forward moves a branch
-/

namespace CodeDb

open Linked

variable {P : Primitives} {E : Engine} {db db' : Db}

/-! ### The roots a branch went through -/

/-- The root a history begins at. -/
def startRoot (chain : List Db.HistoryItem) (state : BranchState) : Hash :=
  (chain.head?.map (·.inputRoot)).getD state.rootHash

/-- The point a migration leads to, with that many migrations before it. -/
def pointOf (sequence : Nat) (item : Db.HistoryItem) : HistoryPoint :=
  ⟨sequence + 1, item.outputRoot, some item.historyHash⟩

/-- The roots a branch went through are the one its history begins at and those its migrations
lead to. -/
theorem branchHistoryPoints_eq {chain : List Db.HistoryItem} {state : BranchState}
    (bare : chain = [] → state.historyHash = none) :
    branchHistoryPoints chain state = ⟨0, startRoot chain state, none⟩ :: chain.mapIdx pointOf := by
  cases chain with
  | nil => simp [branchHistoryPoints, startRoot, bare rfl]
  | cons first rest => rfl

/-- Where the chains agree so far and begin at one root, so do the roots gone through. -/
theorem branchHistoryPoints_prefix {chain chain' : List Db.HistoryItem} {state state' : BranchState}
    (bare : chain = [] → state.historyHash = none)
    (bare' : chain' = [] → state'.historyHash = none) (older : chain <+: chain')
    (start : startRoot chain state = startRoot chain' state') :
    branchHistoryPoints chain state <+: branchHistoryPoints chain' state' := by
  obtain ⟨newer, rfl⟩ := older
  rw [branchHistoryPoints_eq bare, branchHistoryPoints_eq bare', start, List.mapIdx_append]
  exact List.prefix_append _ _

/-- Conversely the histories begin at one root, and the points of the shorter are among those of
the longer. -/
theorem of_branchHistoryPoints_prefix {chain chain' : List Db.HistoryItem}
    {state state' : BranchState} (bare : chain = [] → state.historyHash = none)
    (bare' : chain' = [] → state'.historyHash = none)
    (points : branchHistoryPoints chain state <+: branchHistoryPoints chain' state') :
    startRoot chain state = startRoot chain' state' ∧
      chain.map (·.historyHash) <+: chain'.map (·.historyHash) := by
  rw [branchHistoryPoints_eq bare, branchHistoryPoints_eq bare', List.cons_prefix_cons] at points
  refine ⟨(HistoryPoint.mk.inj points.1).2.1, ?_⟩
  have hashes := points.2.filterMap (·.historyHash)
  have mapped : ∀ chain : List Db.HistoryItem,
      (chain.mapIdx pointOf).filterMap (·.historyHash) = chain.map (·.historyHash) := by
    intro chain
    rw [List.mapIdx_eq_zipIdx_map, List.filterMap_map]
    have hash : ((·.historyHash) ∘ fun p : Db.HistoryItem × Nat => pointOf p.2 p.1) =
        some ∘ (·.historyHash) ∘ Prod.fst := rfl
    conv_rhs => rw [← List.zipIdx_map_fst 0 chain, List.map_map, ← List.filterMap_eq_map]
    exact congrArg (List.filterMap · _) hash
  rwa [mapped, mapped] at hashes

/-- The root a history begins at stays where something is added. -/
theorem startRoot_append {older newer : List Db.HistoryItem} (state state' : BranchState)
    (first : older ≠ []) : startRoot (older ++ newer) state' = startRoot older state := by
  cases older with
  | nil => exact absurd rfl first
  | cons item older => rfl

/-! ### The walk of the check -/

/-- The check meets what it looks for on the walk: the branch's history point or, where it has
none, a first migration from its root. -/
def Meets (target : BranchState) (items : List Db.HistoryItem) : Prop :=
  (∃ h ∈ target.historyHash, h ∈ items.map (·.historyHash)) ∨
    target.historyHash = none ∧ ∃ first ∈ items.getLast?, first.inputRoot = target.rootHash

/-- On a walk that ends, the check finds what there is. -/
theorem Db.historyDescendsFrom_of_walk (target : BranchState) {cursor : Option Hash}
    {items : List Db.HistoryItem} (walk : db.Walk cursor items) {fuel : Nat}
    (enough : items.length ≤ fuel) {seen : List Hash}
    (fresh : ∀ item ∈ items, item.historyHash ∉ seen) :
    ∃ b, db.historyDescendsFrom target fuel cursor seen = .ok b ∧
      (b = true ↔ Meets target items) := by
  have distinct := walk.nodup_keys Db.historyItem?_key
  -- on the walk: no hash of it was seen before, so the check for cycles does not fire
  induction walk generalizing fuel seen with
  | done => exact ⟨false, by unfold Db.historyDescendsFrom; rfl, by simp [Meets]⟩
  | step found next ih =>
    rename_i h item rest
    obtain ⟨row, migration, foundRow, foundMigration, rfl⟩ := Db.historyItem?_eq_some.mp found
    obtain ⟨fuel, rfl⟩ : ∃ n, fuel = n + 1 := ⟨fuel - 1, by simp at enough; omega⟩
    have unseen : h ∉ seen := fresh _ List.mem_cons_self
    simp only [Db.historyDescendsFrom, unseen, if_false, foundRow, foundMigration]
    -- the point of the branch itself
    by_cases here : some h = target.historyHash
    · exact ⟨true, by rw [if_pos here], by simp [Meets, ← here]⟩
    rw [if_neg here]
    by_cases bare : target.historyHash.isNone ∧ row.parentHistoryHash.isNone ∧
        migration.inputRootHash = target.rootHash
    · obtain ⟨none, first, same⟩ := bare
      -- a first migration from the root the branch is at
      obtain rfl : rest = [] := by
        rw [show row.parentHistoryHash = _ from Option.isNone_iff_eq_none.mp first] at next
        cases next
        rfl
      refine ⟨true, if_pos ⟨none, first, same⟩, ?_⟩
      simpa [Meets, Option.isNone_iff_eq_none.mp none] using same
    · rw [if_neg bare]
      rw [List.map_cons, List.nodup_cons] at distinct
      obtain ⟨b, run, meets⟩ := @ih fuel (by simpa using enough) (h :: seen)
        (fun item listed => by
          have other : item.historyHash ≠ h := fun same =>
            distinct.1 (List.mem_map.mpr ⟨item, listed, same⟩)
          simpa [other] using fresh item (List.mem_cons_of_mem _ listed)) distinct.2
      -- otherwise what is looked for is met further back, or not at all
      refine ⟨b, run, meets.trans ?_⟩
      cases history : target.historyHash with
      | some k => simp [Meets, history, show k ≠ h by rintro rfl; exact here history.symm]
      | none =>
        cases rest with
        | cons => simp [Meets, history]
        | nil =>
          have first : row.parentHistoryHash = none := by
            generalize link : row.parentHistoryHash = cursor at next
            cases next
            rfl
          simpa [Meets, history, first] using bare

/-- A walk without rows begins nowhere. -/
theorem Db.historyHash_eq_none {state : BranchState} {items : List Db.HistoryItem}
    (walk : db.Walk state.historyHash items) (empty : items.reverse = []) :
    state.historyHash = none := by
  obtain rfl := List.reverse_eq_nil_iff.mp empty
  generalize state.historyHash = cursor at walk
  cases walk
  rfl

/-- If the check meets what it looks for, the history of the state begins with that of the
branch. -/
theorem prefix_of_meets {old source : BranchState} {items items' : List Db.HistoryItem}
    (walk : db.Walk old.historyHash items) (walk' : db.Walk source.historyHash items')
    (meets : Meets old items') : items.reverse <+: items'.reverse := by
  rw [List.reverse_prefix]
  rcases meets with ⟨h, history, met⟩ | ⟨none, -⟩
  · rw [Option.mem_def.mp history] at walk
    exact walk'.suffix_of_key_mem Db.historyItem?_key walk met
  · rw [none] at walk
    cases walk
    exact List.nil_suffix

/-- What the check meets on the walk from a state is what the roots gone through say: those of the
branch come first among those of the state. -/
theorem meets_iff_begins {old source : BranchState} {items items' : List Db.HistoryItem}
    (walk : db.Walk old.historyHash items) (walk' : db.Walk source.historyHash items')
    (differ : old ≠ source) :
    Meets old items' ↔
      branchHistoryPoints items.reverse old <+: branchHistoryPoints items'.reverse source := by
  constructor
  · intro meets
    -- the histories agree from the start, so it remains that the starting roots do
    have older := prefix_of_meets walk walk' meets
    refine branchHistoryPoints_prefix (Db.historyHash_eq_none walk) (Db.historyHash_eq_none walk')
      older ?_
    rcases meets with ⟨h, history, -⟩ | ⟨none, first, last, same⟩
    · have nonempty : items.reverse ≠ [] := by
        intro empty
        simp [Db.historyHash_eq_none walk empty] at history
      obtain ⟨newer, equal⟩ := older
      rw [← equal, startRoot_append old source nonempty]
    · rw [none] at walk
      cases walk
      simp [startRoot, List.head?_reverse, Option.mem_def.mp last, same]
  -- the points say the starting root and the hashes of the branch, in order
  · intro points
    obtain ⟨start, hashes⟩ := of_branchHistoryPoints_prefix (Db.historyHash_eq_none walk)
      (Db.historyHash_eq_none walk') points
    cases history : old.historyHash with
    | some h =>
      rw [history] at walk
      have head := walk.head?_key Db.historyItem?_key
      have mem : h ∈ items.reverse.map (·.historyHash) := by
        rw [← List.head?_map] at head
        simpa using List.mem_of_mem_head? head
      exact Or.inl ⟨h, history, by simpa using hashes.mem mem⟩
    | none =>
      rw [history] at walk
      cases walk
      refine Or.inr ⟨history, ?_⟩
      cases last : items'.getLast? with
      | some first =>
        exact ⟨first, rfl, by simpa [startRoot, List.head?_reverse, last] using start.symm⟩
      | none =>
        -- both states are bare, so they are one
        obtain rfl := List.getLast?_eq_none_iff.mp last
        have none' := Db.historyHash_eq_none walk' rfl
        obtain ⟨oldRoot, oldHistory⟩ := old
        obtain ⟨root, sourceHistory⟩ := source
        simp only at history none'
        subst history none'
        exact absurd (by simpa [startRoot] using start) differ

/-- Where both walks end the check does not fail, and it finds that a state descends from a branch
exactly if the roots the branch went through are the first of those the state went
through. -/
theorem Db.branchStateDescendsFrom_of_walk {old source : BranchState}
    {items items' : List Db.HistoryItem} (walk : db.Walk old.historyHash items)
    (walk' : db.Walk source.historyHash items') :
    db.branchStateDescendsFrom old source = .ok (decide
      (branchHistoryPoints items.reverse old <+: branchHistoryPoints items'.reverse source)) := by
  unfold Db.branchStateDescendsFrom
  by_cases same : old = source
  · subst same
    obtain rfl := walk.unique walk'
    simp
  · rw [if_neg same]
    have enough : items'.length ≤ db.walkBound := walk'.length_le.trans (Nat.le_succ _)
    obtain ⟨b, run, meets⟩ := Db.historyDescendsFrom_of_walk old walk' enough
      fun _ _ => List.not_mem_nil
    rw [run, Except.ok.injEq, Bool.eq_iff_iff, meets, decide_eq_true_iff,
      meets_iff_begins walk walk' same]

/-! ### Fast-forwards -/

/-- The roots a state went through, as they are met on the walk along its history. -/
def Db.WentThrough (db : Db) (state : BranchState) (points : List HistoryPoint) : Prop :=
  ∃ items, db.Walk state.historyHash items ∧ points = branchHistoryPoints items.reverse state

theorem Db.wentThrough_iff {state : BranchState} {items : List Db.HistoryItem}
    (walk : db.Walk state.historyHash items) {points : List HistoryPoint} :
    db.WentThrough state points ↔ points = branchHistoryPoints items.reverse state := by
  constructor
  · rintro ⟨items', walk', rfl⟩
    rw [walk.unique walk']
  · exact fun same => ⟨items, walk, same⟩

/-- What is loaded as a root is stored. -/
theorem mem_of_loadRoot {objects : Objects} {hash : Hash} {root : ProgramRootPayload}
    (loaded : loadRoot P objects hash = .ok root) : hash ∈ objects := by
  obtain ⟨payload, read, -⟩ := Except.bind_eq_ok.mp loaded
  unfold getPayload at read
  cases found : objects.lookup hash with
  | none => simp [found] at read
  | some object => exact AList.lookup_isSome.mp (by simp [found])

theorem Db.ensureStateMatches_of_inOrder {state : BranchState} (inOrder : db.StateInOrder state) :
    db.ensureStateMatches state = .ok () := by
  unfold Db.ensureStateMatches
  cases history : state.historyHash with
  | none => rfl
  | some h =>
    obtain ⟨row, found, same⟩ := inOrder h history
    simp [Db.ensureHistoryMatchesRoot, found, same]

/-- What a fast-forward asks for before it looks at the histories: a name that can be one of a
branch, the branch at the expected root, and a state with a root that can be loaded and a history
point that ends there. -/
structure Db.MayForward (P : Primitives) (db : Db) (target : String) (expectedRoot : Hash)
    (old source : BranchState) : Prop where
  named : Db.validateBranchName target = .ok ()
  found : db.branches.lookup target = some old
  expected : old.rootHash = expectedRoot
  loaded : ∃ root, loadRoot P db.objects source.rootHash = .ok root
  inOrder : db.StateInOrder source

/-- The roots a branch went through are the first of those a state went through. -/
def Db.Continues (db : Db) (old source : BranchState) : Prop :=
  ∃ older newer, db.WentThrough old older ∧ db.WentThrough source (older ++ newer)

/-- Where a fast-forward may be, the histories decide. -/
theorem Ledger.fastForward_eq (ledger : Ledger P db) {target : String} {expectedRoot : Hash}
    {old source : BranchState} (may : db.MayForward P target expectedRoot old source) :
    db.Continues old source ∧ db.fastForwardBranchPointer P target expectedRoot source =
        .ok (.updated old source, { db with branches := db.branches.insert target source }) ∨
      ¬db.Continues old source ∧ db.fastForwardBranchPointer P target expectedRoot source =
        .ok (.nonFastForward old source, db) := by
  obtain ⟨root, loaded⟩ := may.loaded
  have oldInOrder := ledger.branches target old may.found
  obtain ⟨items, walk⟩ := ledger.walk_of_state oldInOrder
  obtain ⟨items', walk'⟩ := ledger.walk_of_state may.inOrder
  have descends := Db.branchStateDescendsFrom_of_walk walk walk'
  have run : db.fastForwardBranchPointer P target expectedRoot source =
      if decide
          (branchHistoryPoints items.reverse old <+: branchHistoryPoints items'.reverse source)
      then .ok (.updated old source, { db with branches := db.branches.insert target source })
      else .ok (.nonFastForward old source, db) := by
    have moved : db.setBranch target source =
        .ok { db with branches := db.branches.insert target source } :=
      if_pos (mem_of_loadRoot loaded)
    simp only [Db.fastForwardBranchPointer, may.named, Db.branch_ok.mpr may.found, may.expected,
      Db.ensureStateMatches_of_inOrder oldInOrder, Db.ensureStateMatches_of_inOrder may.inOrder,
      loaded, descends, moved, bind, Except.bind, pure, Except.pure]
    simp
  have continues : db.Continues old source ↔
      branchHistoryPoints items.reverse old <+: branchHistoryPoints items'.reverse source := by
    simp only [Db.Continues, Db.wentThrough_iff walk, Db.wentThrough_iff walk']
    constructor
    · rintro ⟨older, newer, rfl, same⟩
      exact ⟨newer, same⟩
    · rintro ⟨newer, same⟩
      exact ⟨_, newer, rfl, same⟩
  rw [continues, run]
  by_cases first :
      branchHistoryPoints items.reverse old <+: branchHistoryPoints items'.reverse source
  · exact Or.inl ⟨first, by simp [first]⟩
  · exact Or.inr ⟨first, by simp [first]⟩

/-- A fast-forward that looks at the histories was allowed to. -/
theorem Db.mayForward_of_run {target : String} {expectedRoot : Hash} {source : BranchState}
    {outcome : Db.FastForwardOutcome}
    (run : db.fastForwardBranchPointer P target expectedRoot source = .ok (outcome, db')) :
    (∃ current, outcome = .staleRoot current) ∨
      ∃ old, db.MayForward P target expectedRoot old source := by
  unfold Db.fastForwardBranchPointer at run
  obtain ⟨_, named, run⟩ := Except.bind_eq_ok.mp run
  obtain ⟨old, found, run⟩ := Except.bind_eq_ok.mp run
  split_ifs at run with stale
  · exact Or.inl ⟨old, (Prod.mk.inj (Except.pure_eq_ok.mp run)).1.symm⟩
  · obtain ⟨_, -, run⟩ := Except.bind_eq_ok.mp run
    obtain ⟨root, loaded, run⟩ := Except.bind_eq_ok.mp run
    obtain ⟨_, matched, run⟩ := Except.bind_eq_ok.mp run
    exact Or.inr ⟨old, named, Db.branch_ok.mp found, not_not.mp stale, ⟨root, loaded⟩,
      Db.stateInOrder_of_ensureStateMatches matched⟩

/-- In every reachable database, a fast-forward that may be moves the branch exactly if the roots
the branch went through are the first of those the state went through, and otherwise says that it
is none. There is no other way to either answer. -/
theorem fastForward_exact (reliable : P.Reliable) (reach : Reachable P E db) (target : String)
    (expectedRoot : Hash) (old source : BranchState) (db' : Db) :
    (db.fastForwardBranchPointer P target expectedRoot source = .ok (.updated old source, db') ↔
      db.MayForward P target expectedRoot old source ∧ db.Continues old source ∧
        db' = { db with branches := db.branches.insert target source }) ∧
    (db.fastForwardBranchPointer P target expectedRoot source =
        .ok (.nonFastForward old source, db') ↔
      db.MayForward P target expectedRoot old source ∧ ¬db.Continues old source ∧ db' = db) := by
  -- a request that may be made has one answer, which the roots of the two histories decide
  have ledger := reach.ledger reliable
  constructor
  · constructor
    · intro run
      obtain ⟨current, stale⟩ | ⟨state, may⟩ := Db.mayForward_of_run run
      · cases stale
      rcases ledger.fastForward_eq may with ⟨continues, equal⟩ | ⟨-, equal⟩
      · rw [run] at equal
        simp only [Except.ok.injEq, Prod.mk.injEq, Db.FastForwardOutcome.updated.injEq, and_true]
          at equal
        obtain ⟨rfl, rfl⟩ := equal
        exact ⟨may, continues, rfl⟩
      · simp [run] at equal
    · rintro ⟨may, continues, rfl⟩
      rcases ledger.fastForward_eq may with ⟨-, equal⟩ | ⟨not, -⟩
      · exact equal
      · exact absurd continues not
  · constructor
    · intro run
      obtain ⟨current, stale⟩ | ⟨state, may⟩ := Db.mayForward_of_run run
      · cases stale
      rcases ledger.fastForward_eq may with ⟨-, equal⟩ | ⟨not, equal⟩
      · simp [run] at equal
      · rw [run] at equal
        simp only [Except.ok.injEq, Prod.mk.injEq, Db.FastForwardOutcome.nonFastForward.injEq,
          and_true] at equal
        obtain ⟨rfl, rfl⟩ := equal
        exact ⟨may, not, rfl⟩
    · rintro ⟨may, not, rfl⟩
      rcases ledger.fastForward_eq may with ⟨continues, -⟩ | ⟨-, equal⟩
      · exact absurd continues not
      · exact equal

/-- The main branch is moved forward to another branch, which has gone on from where main is. -/
theorem fastForward_exact_featureDb :
    ∃ history, featureDb.branches.lookup "feature" =
        some ⟨hashNamed (some "Point"), some history⟩ ∧
      featureDb.fastForwardBranchPointer plain mainBranch (hashNamed none)
          ⟨hashNamed (some "Point"), some history⟩ =
        .ok (.updated ⟨hashNamed none, none⟩ ⟨hashNamed (some "Point"), some history⟩,
          { featureDb with
            branches := featureDb.branches.insert mainBranch
              ⟨hashNamed (some "Point"), some history⟩ }) := by
  have fresh : startedDb.migrations = ∅ ∧ startedDb.histories = ∅ := by
    rw [tables_startedDb.2.1, tables_startedDb.2.2, initializedDb_eq]
    exact ⟨rfl, rfl⟩
  obtain ⟨history, item, found, walk, input⟩ :=
    namedOn_featureDb.exists_walk fresh lookup_startedDb
  have ledger := reachable_featureDb.ledger plain_reliable
  have may : featureDb.MayForward plain mainBranch (hashNamed none) ⟨hashNamed none, none⟩
      ⟨hashNamed (some "Point"), some history⟩ :=
    ⟨by decide, lookup_featureDb_main, rfl, ⟨_, loadRoot_rootNamed namedOn_featureDb.stored⟩,
      ledger.branches _ _ found⟩
  refine ⟨history, found, (fastForward_exact plain_reliable reachable_featureDb _ _ _ _ _).1.mpr
    ⟨may, ?_, rfl⟩⟩
  -- main has been at the empty root only, and that is where the other branch began
  refine ⟨[⟨0, hashNamed none, none⟩], [pointOf 0 item], ⟨[], .done, rfl⟩, [item], walk, ?_⟩
  rw [List.reverse_singleton, branchHistoryPoints_eq (by simp)]
  simp only [startRoot, List.head?_cons, Option.map_some, Option.getD_some, input,
    List.mapIdx_cons, List.mapIdx_nil, List.cons_append, List.nil_append]
  rfl

end CodeDb

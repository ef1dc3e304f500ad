import Mathlib.Algebra.Order.BigOperators.Group.Finset
import Mathlib.Data.Fintype.BigOperators
import Mathlib.Data.List.Nodup
import Mathlib.Logic.Relation

/-!
# Strongly connected components

The components of a graph by depth-first search. A node that is met is put on a stack, and
keeps the least index it is known to reach there; where that is its own, what is on the stack
from it on is a component. What is still to be done is on a second stack: nodes, each with the
number of successors that are done.

## Main definitions

* `TarjanState`, `tarjanStep` — what the search keeps, and one turn of its loop
* `tarjanScc` — the components, if the loops end in so many turns

## Main results

* `Turning.step` — a turn keeps the invariant
* `Turning.sum_remaining_lt` — a turn leaves fewer turns
* `tarjanScc_components` — the search ends, and what it finds are the components
-/

namespace CodeDb

open Relation

/-- What the search keeps. Both stacks have their top first. -/
structure TarjanState (n : Nat) where
  index : Fin n → Option Nat
  lowlink : Fin n → Nat
  onStack : Fin n → Bool
  sccStack : List (Fin n)
  counter : Nat
  sccs : List (List (Fin n))
  work : List (Fin n × Nat)

namespace TarjanState

variable {n : Nat}

def empty : TarjanState n where
  index _ := none
  lowlink _ := 0
  onStack _ := false
  sccStack := []
  counter := 0
  sccs := []
  work := []

/-- A node is met. -/
def visit (s : TarjanState n) (v : Fin n) : TarjanState n :=
  { s with
    index := Function.update s.index v (some s.counter)
    lowlink := Function.update s.lowlink v s.counter
    counter := s.counter + 1
    sccStack := v :: s.sccStack
    onStack := Function.update s.onStack v true }

/-- A node reaches one of an index. -/
def lower (s : TarjanState n) (v : Fin n) (index : Nat) : TarjanState n :=
  { s with lowlink := Function.update s.lowlink v (min (s.lowlink v) index) }

end TarjanState

/-- Take what is on the stack up to a node off it. -/
def popComponent {n : Nat} (v : Fin n) : List (Fin n) → List (Fin n) × List (Fin n)
  | [] => ([], [])
  | node :: rest =>
    if node = v then ([node], rest)
    else (node :: (popComponent v rest).1, (popComponent v rest).2)

section Tarjan

variable {n : Nat} (adjacency : Fin n → List (Fin n))

/-- If a node reaches none before it, it is the root of a component. -/
def popRoot (s : TarjanState n) (v : Fin n) : TarjanState n :=
  if s.index v = some (s.lowlink v) then
    let (component, rest) := popComponent v s.sccStack
    { s with
      sccStack := rest
      onStack := fun u => s.onStack u && !component.contains u
      sccs := s.sccs ++ [component] }
  else s

/-- A node is done. -/
def finishNode (s : TarjanState n) (v : Fin n) (below : List (Fin n × Nat)) : TarjanState n :=
  match below with
  | (parent, _) :: _ => { popRoot s v with work := below }.lower parent (s.lowlink v)
  | [] => { popRoot s v with work := [] }

/-- A node goes on to its next successor, or is done. -/
def advanceNode (s : TarjanState n) (v : Fin n) (cursor : Nat) (below : List (Fin n × Nat)) :
    TarjanState n :=
  match (adjacency v)[cursor]? with
  | some w =>
    let s := { s with work := (v, cursor + 1) :: below }
    match s.index w with
    | none => { s with work := (w, 0) :: s.work }
    | some index => if s.onStack w then s.lower v index else s
  | none => finishNode s v below

/-- One turn of the loop. -/
def tarjanStep (s : TarjanState n) : TarjanState n :=
  match s.work with
  | [] => s
  | (v, cursor) :: below =>
    advanceNode adjacency (if cursor = 0 then s.visit v else s) v cursor below

/-- The loop, if it ends in so many turns. -/
def tarjanLoop : Nat → TarjanState n → Option (TarjanState n)
  | 0, s => if s.work.isEmpty then some s else none
  | turns + 1, s => if s.work.isEmpty then some s else tarjanLoop turns (tarjanStep adjacency s)

/-- Search from a node, unless it was met. -/
def tarjanFrom (turns : Nat) (s : TarjanState n) (start : Fin n) : Option (TarjanState n) :=
  if (s.index start).isSome then some s
  else tarjanLoop adjacency turns { s with work := (start, 0) :: s.work }

/-- The components, if every loop ends in so many turns. -/
def tarjanScc (turns : Nat) : Option (List (List (Fin n))) := do
  let s ← (List.finRange n).foldlM (tarjanFrom adjacency turns) .empty
  return s.sccs

end Tarjan

/-! ### The invariant -/

section Invariant

variable {n : Nat} (adjacency : Fin n → List (Fin n))

/-- A node has another as a successor. -/
def Edge (v w : Fin n) : Prop := w ∈ adjacency v

/-- A node reaches another. -/
def Reach : Fin n → Fin n → Prop := ReflTransGen (Edge adjacency)

/-- The index of a node that was met. -/
def TarjanState.at (s : TarjanState n) (v : Fin n) : Nat := (s.index v).getD 0

/-- An edge that is done: not one that is still to be done for a node at work. -/
def Examined (s : TarjanState n) (v w : Fin n) : Prop :=
  ∃ i, (adjacency v)[i]? = some w ∧ ∀ cursor, (v, cursor) ∈ s.work → i < cursor

/-- A node at work is the last one that was met before another, or it is that one. -/
structure Owner (s : TarjanState n) (f v : Fin n) : Prop where
  atWork : f ∈ s.work.map Prod.fst
  le : s.at f ≤ s.at v
  last : ∀ g ∈ s.work.map Prod.fst, s.at g ≤ s.at v → s.at g ≤ s.at f

/-- What holds whenever all nodes at work were met. -/
structure Settled (s : TarjanState n) : Prop where
  lt_counter : ∀ v i, s.index v = some i → i < s.counter
  onStack : ∀ v, s.onStack v = true ↔ v ∈ s.sccStack
  sorted : s.sccStack.Pairwise fun u v => s.at v < s.at u
  working : (s.work.map Prod.fst).Pairwise fun u v => s.at v < s.at u
  work_stack : ∀ v ∈ s.work.map Prod.fst, v ∈ s.sccStack
  visited : ∀ v, (s.index v).isSome ↔ v ∈ s.sccs.flatten ++ s.sccStack
  nodup : (s.sccs.flatten ++ s.sccStack).Nodup
  closed : ∀ v ∈ s.sccs.flatten, ∀ w, Edge adjacency v w → w ∈ s.sccs.flatten
  component : ∀ component ∈ s.sccs, component ≠ [] ∧
    ∀ v ∈ component, ∀ w, w ∈ component ↔ Reach adjacency v w ∧ Reach adjacency w v
  reaches : ∀ f ∈ s.work.map Prod.fst, ∀ v ∈ s.sccStack, s.at f ≤ s.at v → Reach adjacency f v
  returns : ∀ v ∈ s.sccStack, ∃ f ∈ s.work.map Prod.fst, s.at f ≤ s.at v ∧ Reach adjacency v f
  lowlink : ∀ f ∈ s.work.map Prod.fst, s.lowlink f ≤ s.at f ∧
    ∃ v ∈ s.sccStack, s.at v = s.lowlink f ∧ Reach adjacency f v
  examined : ∀ v ∈ s.sccStack, ∀ w, Examined adjacency s v w →
    (s.index w).isSome ∧ (w ∈ s.sccStack → ∀ f, Owner s f v → s.lowlink f ≤ s.at w)

variable {adjacency} {s : TarjanState n}

@[simp] theorem at_visit_self (w : Fin n) : (s.visit w).at w = s.counter := by
  simp [TarjanState.at, TarjanState.visit]

theorem at_visit_of_ne {u w : Fin n} (other : u ≠ w) : (s.visit w).at u = s.at u := by
  simp [TarjanState.at, TarjanState.visit, other]

theorem lowlink_lower_self (v : Fin n) (k : Nat) :
    (s.lower v k).lowlink v = min (s.lowlink v) k := by
  simp [TarjanState.lower]

theorem lowlink_lower_of_ne {u v : Fin n} (other : u ≠ v) (k : Nat) :
    (s.lower v k).lowlink u = s.lowlink u := by
  simp [TarjanState.lower, other]

namespace Settled

variable {u v w f p : Fin n} {cursor : Nat} {below : List (Fin n × Nat)}

theorem eq_of_at_eq (settled : Settled adjacency s) (listed : u ∈ s.sccStack)
    (listed' : v ∈ s.sccStack) (same : s.at u = s.at v) : u = v := by
  have distinct : (s.sccStack.map s.at).Nodup :=
    List.pairwise_map.mpr (settled.sorted.imp fun less => less.ne')
  exact List.inj_on_of_nodup_map distinct listed listed' same

theorem isSome_of_mem (settled : Settled adjacency s) (listed : v ∈ s.sccStack) :
    (s.index v).isSome :=
  (settled.visited v).mpr (List.mem_append_right _ listed)

theorem at_lt_counter (settled : Settled adjacency s) (listed : v ∈ s.sccStack) :
    s.at v < s.counter := by
  obtain ⟨i, found⟩ := Option.isSome_iff_exists.mp (settled.isSome_of_mem listed)
  rw [TarjanState.at, found, Option.getD_some]
  exact settled.lt_counter v i found

/-- A node at work owns itself. -/
theorem eq_of_owner (settled : Settled adjacency s) (atWork : v ∈ s.work.map Prod.fst)
    (owner : Owner s f v) : f = v :=
  settled.eq_of_at_eq (settled.work_stack f owner.atWork) (settled.work_stack v atWork)
    (le_antisymm owner.le (owner.last v atWork le_rfl))

/-- A node at work can be known to reach less. -/
theorem lower (settled : Settled adjacency s) (listed : w ∈ s.sccStack)
    (reaches : Reach adjacency f w) : Settled adjacency (s.lower f (s.at w)) where
  lt_counter := settled.lt_counter
  onStack := settled.onStack
  sorted := settled.sorted
  working := settled.working
  work_stack := settled.work_stack
  visited := settled.visited
  nodup := settled.nodup
  closed := settled.closed
  component := settled.component
  reaches := settled.reaches
  returns := settled.returns
  lowlink g atWork := by
    obtain ⟨le, v, onStack, least, path⟩ := settled.lowlink g atWork
    by_cases here : g = f
    · subst here
      simp only [TarjanState.lower, Function.update_self]
      refine ⟨(min_le_left _ _).trans le, ?_⟩
      rcases min_choice (s.lowlink g) (s.at w) with same | same
      · exact ⟨v, onStack, least.trans same.symm, path⟩
      · exact ⟨w, listed, same.symm, reaches⟩
    · simp only [TarjanState.lower, Function.update_of_ne here]
      exact ⟨le, v, onStack, least, path⟩
  examined v onStack x edge := by
    obtain ⟨met, bound⟩ := settled.examined v onStack x edge
    refine ⟨met, fun inStack g owner => ?_⟩
    have le := bound inStack g ⟨owner.atWork, owner.le, owner.last⟩
    by_cases here : g = f
    · subst here
      simp only [TarjanState.lower, Function.update_self]
      exact (min_le_left _ _).trans le
    · simp only [TarjanState.lower, Function.update_of_ne here]
      exact le

theorem lower_eq_self {k : Nat} (le : s.lowlink f ≤ k) : s.lower f k = s := by
  rw [TarjanState.lower, min_eq_left le, Function.update_eq_self]

/-! #### Going on -/

/-- The edges that are done when a node goes on. -/
theorem examined_next (working : s.work = (v, cursor) :: below)
    (next : (adjacency v)[cursor]? = some w) {x y : Fin n}
    (edge : Examined adjacency { s with work := (v, cursor + 1) :: below } x y) :
    Examined adjacency s x y ∨ x = v ∧ y = w := by
  obtain ⟨i, found, done⟩ := edge
  by_cases here : x = v
  · subst here
    have bound : i < cursor + 1 := done _ List.mem_cons_self
    by_cases last : i = cursor
    · subst last
      exact Or.inr ⟨rfl, Option.some.inj (found.symm.trans next)⟩
    · refine Or.inl ⟨i, found, fun k atWork => ?_⟩
      rw [working] at atWork
      rcases List.mem_cons.mp atWork with same | before
      · cases same
        omega
      · exact done k (List.mem_cons_of_mem _ before)
  · refine Or.inl ⟨i, found, fun k atWork => ?_⟩
    rw [working] at atWork
    rcases List.mem_cons.mp atWork with same | before
    · exact absurd (congrArg Prod.fst same) here
    · exact done k (List.mem_cons_of_mem _ before)

/-- A node goes on past a successor that was met. -/
theorem next (settled : Settled adjacency s) (working : s.work = (v, cursor) :: below)
    (found : (adjacency v)[cursor]? = some w) (met : (s.index w).isSome)
    (bound : w ∈ s.sccStack → s.lowlink v ≤ s.at w) :
    Settled adjacency { s with work := (v, cursor + 1) :: below } := by
  have nodes : ((v, cursor + 1) :: below).map Prod.fst = s.work.map Prod.fst := by
    rw [working]
    rfl
  have atWork : v ∈ s.work.map Prod.fst := by simp [working]
  exact
    { settled with
      working := nodes ▸ settled.working
      work_stack := nodes ▸ settled.work_stack
      reaches := nodes ▸ settled.reaches
      returns := nodes ▸ settled.returns
      lowlink := nodes ▸ settled.lowlink
      examined := by
        intro x onStack y edge
        have owned {f : Fin n} (owner : Owner { s with work := (v, cursor + 1) :: below } f x) :
            Owner s f x := ⟨nodes ▸ owner.atWork, owner.le, nodes ▸ owner.last⟩
        rcases examined_next working found edge with before | ⟨rfl, rfl⟩
        · obtain ⟨met, bound⟩ := settled.examined x onStack y before
          exact ⟨met, fun inStack f owner => bound inStack f (owned owner)⟩
        · refine ⟨met, fun inStack f owner => ?_⟩
          rw [settled.eq_of_owner atWork (owned owner)]
          exact bound inStack }

/-- A node is met from those at work. -/
theorem visit (settled : Settled adjacency s) {work : List (Fin n × Nat)}
    (unmet : s.index w = none) (nodes : work.map Prod.fst = s.work.map Prod.fst)
    (edges : ∀ x y, Examined adjacency { s with work := work } x y →
      Examined adjacency s x y ∨ y = w)
    (reaches : ∀ f ∈ s.work.map Prod.fst, Reach adjacency f w) :
    Settled adjacency ({ s with work := (w, 0) :: work }.visit w) := by
  have fresh : w ∉ s.sccs.flatten ++ s.sccStack := by
    rw [← settled.visited w, unmet]
    simp
  have other {v : Fin n} (listed : v ∈ s.sccStack) : v ≠ w := by
    rintro rfl
    exact fresh (List.mem_append_right _ listed)
  have same {v : Fin n} (listed : v ∈ s.sccStack) :
      ({ s with work := (w, 0) :: work }.visit w).at v = s.at v := at_visit_of_ne (other listed)
  have onStack {f : Fin n} (atWork : f ∈ work.map Prod.fst) : f ∈ s.sccStack :=
    settled.work_stack f (nodes ▸ atWork)
  have here : ({ s with work := (w, 0) :: work }.visit w).at w = s.counter := at_visit_self w
  refine ⟨?_, ?_, ?_, ?_, ?_, ?_, ?_, settled.closed, settled.component, ?_, ?_, ?_, ?_⟩
  · intro v i found
    by_cases new : v = w
    · subst new
      obtain rfl : s.counter = i := by simpa [TarjanState.visit] using found
      exact Nat.lt_succ_self _
    · have before : s.index v = some i := by simpa [TarjanState.visit, new] using found
      exact (settled.lt_counter v i before).trans (Nat.lt_succ_self _)
  · intro v
    by_cases new : v = w
    · simp [TarjanState.visit, new]
    · simpa [TarjanState.visit, new] using settled.onStack v
  · refine List.pairwise_cons.mpr ⟨fun v listed => ?_, settled.sorted.imp_of_mem fun a b => ?_⟩
    · rw [same listed, here]
      exact settled.at_lt_counter listed
    · rw [same a, same b]
      exact id
  · refine List.pairwise_cons.mpr ⟨fun v atWork => ?_, ?_⟩
    · rw [same (onStack atWork), here]
      exact settled.at_lt_counter (onStack atWork)
    · refine (nodes ▸ settled.working : (work.map Prod.fst).Pairwise _).imp_of_mem fun a b => ?_
      rw [same (onStack a), same (onStack b)]
      exact id
  · intro v atWork
    rcases List.mem_cons.mp atWork with rfl | before
    · exact List.mem_cons_self
    · exact List.mem_cons_of_mem _ (onStack before)
  · intro v
    by_cases new : v = w
    · simp [TarjanState.visit, new]
    · simpa [TarjanState.visit, new] using settled.visited v
  · exact (List.perm_middle.nodup_iff).mpr (List.nodup_cons.mpr ⟨fresh, settled.nodup⟩)
  · intro f atWork v listed le
    rcases List.mem_cons.mp listed with rfl | before
    · rcases List.mem_cons.mp atWork with rfl | old
      · exact .refl
      · exact reaches f (nodes ▸ old)
    · rcases List.mem_cons.mp atWork with rfl | old
      · rw [here, same before] at le
        exact absurd (settled.at_lt_counter before) (not_lt.mpr le)
      · rw [same (onStack old), same before] at le
        exact settled.reaches f (nodes ▸ old) v before le
  · intro v listed
    rcases List.mem_cons.mp listed with rfl | before
    · exact ⟨v, List.mem_cons_self, le_rfl, .refl⟩
    · obtain ⟨f, atWork, le, path⟩ := settled.returns v before
      refine ⟨f, List.mem_cons_of_mem _ (nodes ▸ atWork), ?_, path⟩
      rwa [same (settled.work_stack f atWork), same before]
  · intro f atWork
    rcases List.mem_cons.mp atWork with rfl | old
    · refine ⟨?_, f, List.mem_cons_self, ?_, .refl⟩
      · rw [here]
        simp [TarjanState.visit]
      · rw [here]
        simp [TarjanState.visit]
    · obtain ⟨le, v, listed, least, path⟩ := settled.lowlink f (nodes ▸ old)
      have unchanged : ({ s with work := (w, 0) :: work }.visit w).lowlink f = s.lowlink f := by
        simp [TarjanState.visit, other (onStack old)]
      rw [unchanged, same (onStack old)]
      exact ⟨le, v, List.mem_cons_of_mem _ listed, (same listed).trans least, path⟩
  · intro v listed x edge
    -- nothing is done yet for the node that is met
    have old : v ∈ s.sccStack := by
      refine (List.mem_cons.mp listed).resolve_left ?_
      rintro rfl
      obtain ⟨i, -, done⟩ := edge
      exact absurd (done 0 List.mem_cons_self) (Nat.not_lt_zero i)
    have before : Examined adjacency { s with work := work } v x := by
      obtain ⟨i, found, done⟩ := edge
      exact ⟨i, found, fun k atWork => done k (List.mem_cons_of_mem _ atWork)⟩
    have owned {f : Fin n} (owner : Owner ({ s with work := (w, 0) :: work }.visit w) f v) :
        f ∈ work.map Prod.fst ∧ Owner s f v := by
      have atWork : f ∈ work.map Prod.fst := by
        refine (List.mem_cons.mp owner.atWork).resolve_left ?_
        rintro rfl
        have le := owner.le
        rw [here, same old] at le
        exact absurd (settled.at_lt_counter old) (not_lt.mpr le)
      refine ⟨atWork, nodes ▸ atWork, ?_, fun g atWork' le => ?_⟩
      · have le := owner.le
        rwa [same (onStack atWork), same old] at le
      · have listed := settled.work_stack g atWork'
        have last := owner.last g (List.mem_cons_of_mem _ (nodes ▸ atWork'))
        rw [same listed, same old, same (onStack atWork)] at last
        exact last le
    have unchanged {f : Fin n} (atWork : f ∈ work.map Prod.fst) :
        ({ s with work := (w, 0) :: work }.visit w).lowlink f = s.lowlink f := by
      simp [TarjanState.visit, other (onStack atWork)]
    by_cases new : x = w
    · subst new
      refine ⟨by simp [TarjanState.visit], fun _ f owner => ?_⟩
      obtain ⟨atWork, -⟩ := owned owner
      rw [unchanged atWork, here]
      exact (settled.lowlink f (nodes ▸ atWork)).1.trans
        (settled.at_lt_counter (onStack atWork)).le
    · obtain ⟨met, bound⟩ := settled.examined v old x ((edges v x before).resolve_right new)
      refine ⟨by simpa [TarjanState.visit, new] using met, fun inStack f owner => ?_⟩
      have inStack := (List.mem_cons.mp inStack).resolve_left new
      obtain ⟨atWork, owner⟩ := owned owner
      rw [unchanged atWork, same inStack]
      exact bound inStack f owner

/-! #### Being done -/

/-- Every edge is done of a node at work without a successor left. -/
theorem examined_of_done (settled : Settled adjacency s) (working : s.work = (v, cursor) :: below)
    (done : (adjacency v)[cursor]? = none) (edge : Edge adjacency v w) :
    Examined adjacency s v w := by
  obtain ⟨i, bound, rfl⟩ := List.mem_iff_getElem.mp edge
  refine ⟨i, List.getElem?_eq_getElem bound, fun k atWork => ?_⟩
  have few : (adjacency v).length ≤ cursor := List.getElem?_eq_none_iff.mp done
  have sorted := settled.working
  rw [working] at atWork sorted
  rcases List.mem_cons.mp atWork with same | before
  · cases same
    omega
  · have less := (List.pairwise_cons.mp sorted).1 v (List.mem_map_of_mem before)
    exact absurd less (lt_irrefl _)

/-- The node at the top was met last. -/
theorem at_le_top (settled : Settled adjacency s) (working : s.work = (v, cursor) :: below)
    (atWork : f ∈ s.work.map Prod.fst) : s.at f ≤ s.at v := by
  have sorted := settled.working
  rw [working] at atWork sorted
  rcases List.mem_cons.mp atWork with rfl | before
  · exact le_rfl
  · exact ((List.pairwise_cons.mp sorted).1 f before).le

/-- The node at the top owns whatever was met from it on. -/
theorem owner_top (settled : Settled adjacency s) (working : s.work = (v, cursor) :: below)
    (le : s.at v ≤ s.at u) : Owner s v u :=
  ⟨by simp [working], le, fun _ atWork _ => settled.at_le_top working atWork⟩

/-- A node that reaches one before it is done, and so are its edges. -/
theorem retire {cursor' : Nat} {below' : List (Fin n × Nat)} (settled : Settled adjacency s)
    (working : s.work = (v, cursor) :: (p, cursor') :: below')
    (done : (adjacency v)[cursor]? = none) (less : s.lowlink v < s.at v)
    (le : s.lowlink p ≤ s.lowlink v) :
    Settled adjacency { s with work := (p, cursor') :: below' } := by
  have sorted := settled.working
  rw [working] at sorted
  obtain ⟨above, sorted⟩ := List.pairwise_cons.mp sorted
  have atWork {f : Fin n} (before : f ∈ ((p, cursor') :: below').map Prod.fst) :
      f ∈ s.work.map Prod.fst := by
    rw [working]
    exact List.mem_cons_of_mem _ before
  have top : v ∈ s.work.map Prod.fst := by simp [working]
  have remains {f : Fin n} (old : f ∈ s.work.map Prod.fst) (before : s.at f < s.at v) :
      f ∈ ((p, cursor') :: below').map Prod.fst := by
    rw [working] at old
    refine (List.mem_cons.mp old).resolve_left ?_
    rintro rfl
    exact lt_irrefl _ before
  have parent : s.at p < s.at v := above p List.mem_cons_self
  exact
    -- only what speaks of the nodes at work changes
    { settled with
      working := sorted
      work_stack := fun f before => settled.work_stack f (atWork before)
      reaches := fun f before => settled.reaches f (atWork before)
      lowlink := fun f before => settled.lowlink f (atWork before)
      returns := by
        intro u listed
        obtain ⟨f, old, le', path⟩ := settled.returns u listed
        by_cases here : f = v
        · -- the node reaches one met before it, and that one returns further down
          subst here
          obtain ⟨-, x, inStack, least, path'⟩ := settled.lowlink f top
          obtain ⟨g, old, le'', path''⟩ := settled.returns x inStack
          rw [least] at le''
          exact ⟨g, remains old (le''.trans_lt less), (le''.trans_lt (less.trans_le le')).le,
            path.trans (path'.trans path'')⟩
        · refine ⟨f, ?_, le', path⟩
          rw [working] at old
          exact (List.mem_cons.mp old).resolve_left here
      examined := by
        intro u listed w edge
        have before : Examined adjacency s u w := by
          by_cases here : u = v
          · subst here
            obtain ⟨i, found, -⟩ := edge
            exact settled.examined_of_done working done (List.mem_of_getElem? found)
          · obtain ⟨i, found, bound⟩ := edge
            refine ⟨i, found, fun k old => ?_⟩
            rw [working] at old
            rcases List.mem_cons.mp old with same | old
            · exact absurd (congrArg Prod.fst same) here
            · exact bound k old
        obtain ⟨met, bound⟩ := settled.examined u listed w before
        refine ⟨met, fun inStack f owner => ?_⟩
        by_cases beyond : s.at v ≤ s.at u
        · -- what the node owned is its parent's now
          have mine := bound inStack v (settled.owner_top working beyond)
          have last := owner.last p List.mem_cons_self (parent.le.trans beyond)
          have first : s.at f ≤ s.at p := by
            rcases List.mem_cons.mp owner.atWork with same | old
            · rw [same]
            · exact ((List.pairwise_cons.mp sorted).1 f old).le
          have same := settled.eq_of_at_eq (settled.work_stack f (atWork owner.atWork))
            (settled.work_stack p (atWork List.mem_cons_self)) (le_antisymm first last)
          rw [same]
          exact le.trans mine
        · refine bound inStack f ⟨atWork owner.atWork, owner.le, fun g old le' => ?_⟩
          exact owner.last g (remains old (le'.trans_lt (not_le.mp beyond))) le' }

/-! #### Components -/

theorem popComponent_eq {l : List (Fin n)} (listed : v ∈ l) :
    ∃ above rest, l = above ++ v :: rest ∧ popComponent v l = (above ++ [v], rest) := by
  induction l with
  | nil => cases listed
  | cons u l ih =>
    by_cases here : u = v
    · subst here
      exact ⟨[], l, rfl, by simp [popComponent]⟩
    · obtain ⟨above, rest, rfl, popped⟩ :=
        ih ((List.mem_cons.mp listed).resolve_left (Ne.symm here))
      exact ⟨u :: above, rest, rfl, by simp [popComponent, here, popped]⟩

/-- What is taken off the stack is what was met from a node on. -/
theorem popped_eq (settled : Settled adjacency s) (listed : v ∈ s.sccStack)
    {component rest : List (Fin n)} (popped : popComponent v s.sccStack = (component, rest)) :
    s.sccStack = component ++ rest ∧ (∀ u ∈ component, s.at v ≤ s.at u) ∧
      ∀ u ∈ rest, s.at u < s.at v := by
  obtain ⟨above, rest', whole, equal⟩ := popComponent_eq listed
  obtain ⟨rfl, rfl⟩ := Prod.mk.inj (popped.symm.trans equal)
  have sorted := settled.sorted
  rw [whole, List.pairwise_append, List.pairwise_cons] at sorted
  obtain ⟨-, ⟨later, -⟩, earlier⟩ := sorted
  refine ⟨by simp [whole], fun u mem => ?_, later⟩
  rcases List.mem_append.mp mem with before | last
  · exact (earlier u before v List.mem_cons_self).le
  · rw [List.mem_singleton.mp last]

/-- The edges from what was met from a node on stay there, or go to what is done. -/
theorem edge_of_root (settled : Settled adjacency s) (working : s.work = (v, cursor) :: below)
    (done : (adjacency v)[cursor]? = none) (isRoot : s.at v ≤ s.lowlink v)
    (listed : u ∈ s.sccStack) (le : s.at v ≤ s.at u) (edge : Edge adjacency u w) :
    w ∈ s.sccs.flatten ∨ w ∈ s.sccStack ∧ s.at v ≤ s.at w := by
  have before : Examined adjacency s u w := by
    by_cases here : u = v
    · subst here
      exact settled.examined_of_done working done edge
    · obtain ⟨i, bound, rfl⟩ := List.mem_iff_getElem.mp edge
      refine ⟨i, List.getElem?_eq_getElem bound, fun k atWork => ?_⟩
      have atWork := List.mem_map_of_mem (f := Prod.fst) atWork
      have top : v ∈ s.sccStack := settled.work_stack v (by simp [working])
      exact absurd (settled.eq_of_at_eq listed top
        (le_antisymm (settled.at_le_top working atWork) le)) here
  obtain ⟨met, bound⟩ := settled.examined u listed w before
  rcases List.mem_append.mp ((settled.visited w).mp met) with old | inStack
  · exact Or.inl old
  · exact Or.inr ⟨inStack, isRoot.trans (bound inStack v (settled.owner_top working le))⟩

/-- What was met from a root on reaches each other, and nothing else reaches it back. -/
theorem reach_iff_of_root (settled : Settled adjacency s)
    (working : s.work = (v, cursor) :: below) (done : (adjacency v)[cursor]? = none)
    (isRoot : s.at v ≤ s.lowlink v) (listed : u ∈ s.sccStack) (le : s.at v ≤ s.at u) :
    (w ∈ s.sccStack ∧ s.at v ≤ s.at w) ↔ Reach adjacency u w ∧ Reach adjacency w u := by
  have top : v ∈ s.work.map Prod.fst := by simp [working]
  have fromRoot {x : Fin n} (listed : x ∈ s.sccStack) (le : s.at v ≤ s.at x) :
      Reach adjacency v x := settled.reaches v top x listed le
  have toRoot {x : Fin n} (listed : x ∈ s.sccStack) : Reach adjacency x v := by
    obtain ⟨f, atWork, -, path⟩ := settled.returns x listed
    exact path.trans (settled.reaches f atWork v (settled.work_stack v top)
      (settled.at_le_top working atWork))
  constructor
  · rintro ⟨listed', le'⟩
    exact ⟨(toRoot listed).trans (fromRoot listed' le'),
      (toRoot listed').trans (fromRoot listed le)⟩
  · rintro ⟨there, back⟩
    have old {x y : Fin n} (path : Reach adjacency x y) (inside : x ∈ s.sccs.flatten) :
        y ∈ s.sccs.flatten := by
      induction path with
      | refl => exact inside
      | tail _ edge ih => exact settled.closed _ ih _ edge
    have stays : w ∈ s.sccs.flatten ∨ w ∈ s.sccStack ∧ s.at v ≤ s.at w := by
      clear back
      induction there with
      | refl => exact Or.inr ⟨listed, le⟩
      | tail _ edge ih =>
        rcases ih with inside | ⟨listed, le⟩
        · exact Or.inl (settled.closed _ inside _ edge)
        · exact settled.edge_of_root working done isRoot listed le edge
    refine stays.resolve_left fun inside => ?_
    exact List.disjoint_of_nodup_append settled.nodup (old back inside) listed

/-- A node that reaches none before it is the root of a component. -/
theorem root (settled : Settled adjacency s) (working : s.work = (v, cursor) :: below)
    (done : (adjacency v)[cursor]? = none) (isRoot : s.at v ≤ s.lowlink v)
    {component rest : List (Fin n)} (popped : popComponent v s.sccStack = (component, rest)) :
    Settled adjacency
      { s with
        sccStack := rest
        onStack := fun u => s.onStack u && !component.contains u
        sccs := s.sccs ++ [component]
        work := below } := by
  have top : v ∈ s.work.map Prod.fst := by simp [working]
  have listed := settled.work_stack v top
  obtain ⟨whole, later, earlier⟩ := settled.popped_eq listed popped
  -- the stack is cut where the root stands: its indexes and above are the component
  have mem_component {u : Fin n} : u ∈ component ↔ u ∈ s.sccStack ∧ s.at v ≤ s.at u := by
    rw [whole, List.mem_append]
    constructor
    · exact fun mem => ⟨Or.inl mem, later u mem⟩
    · rintro ⟨mem | mem, le⟩
      · exact mem
      · exact absurd (earlier u mem) (not_lt.mpr le)
  have mem_rest {u : Fin n} : u ∈ rest ↔ u ∈ s.sccStack ∧ s.at u < s.at v := by
    rw [whole, List.mem_append]
    constructor
    · exact fun mem => ⟨Or.inr mem, earlier u mem⟩
    · rintro ⟨mem | mem, less⟩
      · exact absurd (later u mem) (not_le.mpr less)
      · exact mem
  -- nothing is lost: what leaves the stack is in the new component
  have all : (s.sccs ++ [component]).flatten ++ rest = s.sccs.flatten ++ s.sccStack := by
    simp [whole]
  have sorted := settled.working
  rw [working] at sorted
  obtain ⟨above, sorted⟩ := List.pairwise_cons.mp sorted
  have atWork {f : Fin n} (before : f ∈ below.map Prod.fst) : f ∈ s.work.map Prod.fst := by
    rw [working]
    exact List.mem_cons_of_mem _ before
  have remains {f : Fin n} (old : f ∈ s.work.map Prod.fst) (before : s.at f < s.at v) :
      f ∈ below.map Prod.fst := by
    rw [working] at old
    refine (List.mem_cons.mp old).resolve_left ?_
    rintro rfl
    exact lt_irrefl _ before
  exact
    { lt_counter := settled.lt_counter
      onStack := by
        intro u
        simp only [Bool.and_eq_true, Bool.not_eq_true', List.contains_eq_mem,
          decide_eq_false_iff_not, settled.onStack, mem_component, mem_rest, not_and, not_le]
        exact and_congr_right fun listed => forall_prop_of_true listed
      sorted := by
        have sorted := settled.sorted
        rw [whole] at sorted
        exact (List.pairwise_append.mp sorted).2.1
      working := sorted
      work_stack := fun f before =>
        mem_rest.mpr ⟨settled.work_stack f (atWork before), above f before⟩
      visited := fun u => by rw [all]; exact settled.visited u
      nodup := by rw [all]; exact settled.nodup
      closed := by
        intro u mem w edge
        -- no edge leads out of a component but into older ones
        simp only [List.flatten_append, List.flatten_singleton, List.mem_append] at mem ⊢
        rcases mem with old | new
        · exact Or.inl (settled.closed u old w edge)
        · obtain ⟨listed, le⟩ := mem_component.mp new
          exact (settled.edge_of_root working done isRoot listed le edge).imp_right
            mem_component.mpr
      component := by
        intro found mem
        rcases List.mem_append.mp mem with old | new
        · exact settled.component found old
        · rw [List.mem_singleton.mp new]
          refine ⟨List.ne_nil_of_mem (mem_component.mpr ⟨listed, le_rfl⟩), fun u mem w => ?_⟩
          obtain ⟨listed, le⟩ := mem_component.mp mem
          rw [mem_component]
          exact settled.reach_iff_of_root working done isRoot listed le
      reaches := fun f before u mem => settled.reaches f (atWork before) u (mem_rest.mp mem).1
      returns := by
        intro u mem
        obtain ⟨listed, less⟩ := mem_rest.mp mem
        obtain ⟨f, old, le, path⟩ := settled.returns u listed
        exact ⟨f, remains old (le.trans_lt less), le, path⟩
      lowlink := by
        intro f before
        -- what a node below is known to reach is older than the root, and stays on the stack
        obtain ⟨le, x, listed, least, path⟩ := settled.lowlink f (atWork before)
        exact ⟨le, x, mem_rest.mpr ⟨listed, least ▸ le.trans_lt (above f before)⟩, least, path⟩
      examined := by
        intro u mem w edge
        obtain ⟨listed, less⟩ := mem_rest.mp mem
        have before : Examined adjacency s u w := by
          obtain ⟨i, found, bound⟩ := edge
          refine ⟨i, found, fun k old => ?_⟩
          rw [working] at old
          rcases List.mem_cons.mp old with same | old
          · obtain rfl : u = v := congrArg Prod.fst same
            exact absurd less (lt_irrefl _)
          · exact bound k old
        obtain ⟨met, bound⟩ := settled.examined u listed w before
        refine ⟨met, fun inStack f owner => ?_⟩
        refine bound (mem_rest.mp inStack).1 f ⟨atWork owner.atWork, owner.le, fun g old le => ?_⟩
        exact owner.last g (remains old (le.trans_lt less)) le }

end Settled

/-! ### Turns -/

variable (adjacency) in
/-- Nodes at work that were met before this turn: they are past some successor, and past no
more than there are. -/
def Going (work : List (Fin n × Nat)) : Prop :=
  ∀ f ∈ work, 0 < f.2 ∧ f.2 ≤ (adjacency f.1).length

variable (adjacency) in
/-- What holds at the start of a turn: all nodes at work were met, or all but the one at
the top. -/
inductive Turning (s : TarjanState n) : Prop
  | settled (settled : Settled adjacency s) (going : Going adjacency s.work)
  | meets {w : Fin n} {below : List (Fin n × Nat)} (working : s.work = (w, 0) :: below)
      (unmet : s.index w = none) (settled : Settled adjacency (s.visit w))
      (going : Going adjacency below)

variable {v w : Fin n} {cursor : Nat} {below : List (Fin n × Nat)}

theorem popRoot_of_root {component rest : List (Fin n)}
    (isRoot : s.index v = some (s.lowlink v))
    (popped : popComponent v s.sccStack = (component, rest)) :
    { popRoot s v with work := below } =
      { s with
        sccStack := rest
        onStack := fun u => s.onStack u && !component.contains u
        sccs := s.sccs ++ [component]
        work := below } := by
  rw [popRoot, if_pos isRoot, popped]

theorem index_popRoot : (popRoot s v).index = s.index := by
  rw [popRoot]
  split_ifs
  · rfl
  · rfl

theorem lowlink_popRoot : (popRoot s v).lowlink = s.lowlink := by
  rw [popRoot]
  split_ifs
  · rfl
  · rfl

/-- A node that is done leaves the invariant. -/
theorem Settled.finishNode (settled : Settled adjacency s)
    (working : s.work = (v, cursor) :: below) (done : (adjacency v)[cursor]? = none) :
    Settled adjacency (finishNode s v below) := by
  have top : v ∈ s.work.map Prod.fst := by simp [working]
  have listed := settled.work_stack v top
  obtain ⟨low, x, inStack, least, path⟩ := settled.lowlink v top
  have sorted := settled.working
  rw [working] at sorted
  have above := (List.pairwise_cons.mp sorted).1
  have here : s.index v = some (s.at v) := by
    obtain ⟨i, found⟩ := Option.isSome_iff_exists.mp (settled.isSome_of_mem listed)
    rw [TarjanState.at, found, Option.getD_some]
  by_cases isRoot : s.at v = s.lowlink v
  · obtain ⟨component, rest, popped⟩ : ∃ component rest,
        popComponent v s.sccStack = (component, rest) := ⟨_, _, rfl⟩
    have result := settled.root working done isRoot.le popped
    rw [← popRoot_of_root (here.trans (congrArg some isRoot)) popped] at result
    cases below with
    | nil => exact result
    | cons f below =>
      obtain ⟨parent, k⟩ := f
      have le := (settled.lowlink parent (by simp [working])).1.trans
        (above parent List.mem_cons_self).le
      have low : (popRoot s v).lowlink parent ≤ s.lowlink v := by rwa [lowlink_popRoot, ← isRoot]
      have unchanged : ({ popRoot s v with work := (parent, k) :: below } : TarjanState n).lower
          parent (s.lowlink v) = { popRoot s v with work := (parent, k) :: below } :=
        Settled.lower_eq_self low
      rw [CodeDb.finishNode, unchanged]
      exact result
  · have same : popRoot s v = s :=
      if_neg fun same => isRoot (Option.some.inj (here.symm.trans same))
    have less : s.lowlink v < s.at v := lt_of_le_of_ne low (Ne.symm isRoot)
    cases below with
    | nil =>
      -- the first node at work reaches none before it
      obtain ⟨f, atWork, le, -⟩ := settled.returns x inStack
      obtain rfl : f = v := by simpa [working] using atWork
      rw [least] at le
      exact absurd less (not_lt.mpr le)
    | cons f below =>
      have before := above f.1 List.mem_cons_self
      have reaches := (settled.reaches f.1 (by simp [working]) v listed before.le).trans path
      have lowered := settled.lower inStack reaches
      rw [least] at lowered
      have other : v ≠ f.1 := fun same => absurd (same ▸ before) (lt_irrefl _)
      rw [CodeDb.finishNode, same]
      refine lowered.retire working done ?_ ?_
      · rw [lowlink_lower_of_ne other]
        exact less
      · rw [lowlink_lower_of_ne other, lowlink_lower_self]
        exact min_le_right _ _

theorem work_finishNode : (finishNode s v below).work = below := by
  cases below <;> rfl

theorem index_finishNode : (finishNode s v below).index = s.index := by
  cases below with
  | nil => exact index_popRoot
  | cons => exact index_popRoot

/-- A turn of a node that was met. -/
theorem Settled.advanceNode (settled : Settled adjacency s)
    (working : s.work = (v, cursor) :: below) (going : Going adjacency below) :
    Turning adjacency (advanceNode adjacency s v cursor below) := by
  cases next : (adjacency v)[cursor]? with
  | none =>
    rw [CodeDb.advanceNode, next]
    refine .settled (settled.finishNode working next) ?_
    rw [work_finishNode]
    exact going
  | some w =>
    have edge : Edge adjacency v w := List.mem_of_getElem? next
    have top : v ∈ s.work.map Prod.fst := by simp [working]
    have onward : Going adjacency ((v, cursor + 1) :: below) :=
      List.forall_mem_cons.mpr ⟨⟨Nat.succ_pos cursor, (List.getElem?_eq_some_iff.mp next).1⟩, going⟩
    rw [CodeDb.advanceNode, next]
    dsimp only
    cases met : s.index w with
    | none =>
      refine .meets rfl met ?_ onward
      refine settled.visit met (by simp [working]) (fun x y examined => ?_) fun f atWork => ?_
      · exact (Settled.examined_next working next examined).imp_right And.right
      · have path := settled.reaches f atWork v (settled.work_stack v top)
          (settled.at_le_top working atWork)
        exact path.tail edge
    | some index =>
      have there : s.at w = index := by rw [TarjanState.at, met, Option.getD_some]
      have isSome : (s.index w).isSome := by rw [met]; rfl
      dsimp only
      split_ifs with onStack
      · have inStack := (settled.onStack w).mp onStack
        have lowered := settled.lower inStack (.single edge)
        rw [there] at lowered
        refine .settled (lowered.next working next isSome fun _ => ?_) onward
        rw [lowlink_lower_self]
        exact (min_le_right _ _).trans_eq there.symm
      · refine .settled (settled.next working next isSome fun inStack => ?_) onward
        exact absurd ((settled.onStack w).mpr inStack) onStack

/-- A turn leaves the invariant. -/
theorem Turning.step (turning : Turning adjacency s) (some : s.work ≠ []) :
    Turning adjacency (tarjanStep adjacency s) := by
  cases turning with
  | settled settled going =>
    cases working : s.work with
    | nil => exact absurd working some
    | cons f below =>
      obtain ⟨v, cursor⟩ := f
      rw [working] at going
      obtain ⟨⟨past, -⟩, going⟩ := List.forall_mem_cons.mp going
      rw [tarjanStep, working]
      dsimp only
      rw [if_neg past.ne']
      exact settled.advanceNode working going
  | @meets w below working unmet settled going =>
    rw [tarjanStep, working]
    exact settled.advanceNode working going

/-! ### The end -/

variable (adjacency) in
/-- How many turns are left for a node. -/
def remaining (s : TarjanState n) (v : Fin n) : Nat :=
  match s.work.lookup v with
  | some cursor => (adjacency v).length + 1 - cursor
  | none => if (s.index v).isSome then 0 else (adjacency v).length + 1

theorem remaining_visit (working : s.work = (w, 0) :: below) (x : Fin n) :
    remaining adjacency (s.visit w) x = remaining adjacency s x := by
  by_cases here : x = w
  · simp [remaining, TarjanState.visit, working, here]
  · simp [remaining, TarjanState.visit, working, here]

variable (adjacency) in
/-- What a turn does to what is at work. -/
theorem advanceNode_cases (s : TarjanState n) (v : Fin n) (cursor : Nat)
    (below : List (Fin n × Nat)) :
    (advanceNode adjacency s v cursor below).index = s.index ∧
      ((adjacency v)[cursor]? = none ∧ (advanceNode adjacency s v cursor below).work = below ∨
      cursor < (adjacency v).length ∧
        ((advanceNode adjacency s v cursor below).work = (v, cursor + 1) :: below ∨
        ∃ w, s.index w = none ∧
          (advanceNode adjacency s v cursor below).work = (w, 0) :: (v, cursor + 1) :: below)) := by
  cases next : (adjacency v)[cursor]? with
  | none =>
    rw [advanceNode, next]
    exact ⟨index_finishNode, Or.inl ⟨rfl, work_finishNode⟩⟩
  | some w =>
    have bound := (List.getElem?_eq_some_iff.mp next).1
    rw [advanceNode, next]
    dsimp only
    cases met : s.index w with
    | none => exact ⟨rfl, Or.inr ⟨bound, Or.inr ⟨w, met, rfl⟩⟩⟩
    | some index =>
      dsimp only
      split_ifs
      · exact ⟨rfl, Or.inr ⟨bound, Or.inl rfl⟩⟩
      · exact ⟨rfl, Or.inr ⟨bound, Or.inl rfl⟩⟩

/-- A turn is one turn less for the node at the top. -/
theorem Settled.remaining_advanceNode (settled : Settled adjacency s)
    (working : s.work = (v, cursor) :: below) (within : cursor ≤ (adjacency v).length) :
    (∀ x, remaining adjacency (CodeDb.advanceNode adjacency s v cursor below) x ≤
      remaining adjacency s x) ∧
    remaining adjacency (CodeDb.advanceNode adjacency s v cursor below) v <
      remaining adjacency s v := by
  have sorted := settled.working
  rw [working] at sorted
  have distinct : below.lookup v = none := by
    rw [List.lookup_eq_none_iff]
    intro f listed
    have less := (List.pairwise_cons.mp sorted).1 f.1 (List.mem_map_of_mem listed)
    simp only [bne_iff_ne]
    rintro rfl
    exact lt_irrefl _ less
  have met : (s.index v).isSome :=
    settled.isSome_of_mem (settled.work_stack v (by simp [working]))
  -- the turns left for the other nodes are not touched
  suffices same : remaining adjacency (CodeDb.advanceNode adjacency s v cursor below) v <
      remaining adjacency s v ∧ ∀ x, x ≠ v → remaining adjacency
        (CodeDb.advanceNode adjacency s v cursor below) x = remaining adjacency s x by
    refine ⟨fun x => ?_, same.1⟩
    by_cases here : x = v
    · rw [here]
      exact same.1.le
    · exact (same.2 x here).le
  obtain ⟨index, ⟨-, work⟩ | ⟨bound, work | ⟨w, unmet, work⟩⟩⟩ :=
    advanceNode_cases adjacency s v cursor below
  · refine ⟨?_, fun x other => ?_⟩
    · simp only [remaining, index, work, working, distinct, met, if_true, List.lookup_cons_self]
      omega
    · simp [remaining, index, work, working, List.lookup_cons, beq_false_of_ne other]
  · refine ⟨?_, fun x other => ?_⟩
    · simp only [remaining, work, working, List.lookup_cons_self]
      omega
    · simp [remaining, index, work, working, List.lookup_cons, beq_false_of_ne other]
  -- a successor that is met for the first time is put to work with all its turns left
  · have apart : v ≠ w := by
      rintro rfl
      rw [unmet] at met
      cases met
    have new : below.lookup w = none := by
      rw [List.lookup_eq_none_iff]
      intro f listed
      have atWork : f.1 ∈ s.work.map Prod.fst := by
        rw [working]
        exact List.mem_cons_of_mem _ (List.mem_map_of_mem listed)
      have met := settled.isSome_of_mem (settled.work_stack f.1 atWork)
      simp only [bne_iff_ne]
      rintro rfl
      rw [unmet] at met
      cases met
    refine ⟨?_, fun x other => ?_⟩
    · simp only [remaining, work, working, List.lookup_cons_self, List.lookup_cons,
        beq_false_of_ne apart]
      omega
    · by_cases here : x = w
      · subst here
        simp [remaining, work, working, List.lookup_cons, beq_false_of_ne other, new, unmet]
      · simp [remaining, index, work, working, List.lookup_cons, beq_false_of_ne other,
          beq_false_of_ne here]

/-- Every turn is one less. -/
theorem Turning.sum_remaining_lt (turning : Turning adjacency s) (some : s.work ≠ []) :
    ∑ v, remaining adjacency (tarjanStep adjacency s) v < ∑ v, remaining adjacency s v := by
  obtain ⟨v, less, le⟩ : ∃ v,
      remaining adjacency (tarjanStep adjacency s) v < remaining adjacency s v ∧
      ∀ x, remaining adjacency (tarjanStep adjacency s) x ≤ remaining adjacency s x := by
    cases turning with
    | settled settled going =>
      cases working : s.work with
      | nil => exact absurd working some
      | cons f below =>
        obtain ⟨v, cursor⟩ := f
        rw [working] at going
        obtain ⟨⟨past, within⟩, -⟩ := List.forall_mem_cons.mp going
        obtain ⟨le, less⟩ := settled.remaining_advanceNode working within
        rw [tarjanStep, working]
        dsimp only
        rw [if_neg past.ne']
        exact ⟨v, less, le⟩
    | @meets w below working unmet settled going =>
      obtain ⟨le, less⟩ := settled.remaining_advanceNode working (Nat.zero_le _)
      rw [tarjanStep, working]
      simp only [remaining_visit working] at le less
      exact ⟨w, less, le⟩
  exact Finset.sum_lt_sum (fun x _ => le x) ⟨v, Finset.mem_univ v, less⟩

theorem isSome_index_tarjanStep {u : Fin n} (met : (s.index u).isSome) :
    ((tarjanStep adjacency s).index u).isSome := by
  rw [tarjanStep]
  split
  · exact met
  · rename_i v cursor below _
    rw [(advanceNode_cases adjacency _ v cursor below).1]
    split_ifs
    · by_cases here : u = v
      · simp [TarjanState.visit, here]
      · simpa [TarjanState.visit, here] using met
    · exact met

/-- What is at work is met. -/
theorem Turning.isSome_step (turning : Turning adjacency s) {u : Fin n}
    (atWork : u ∈ s.work.map Prod.fst) : ((tarjanStep adjacency s).index u).isSome := by
  cases turning with
  | settled settled =>
    exact isSome_index_tarjanStep (settled.isSome_of_mem (settled.work_stack u atWork))
  | @meets w below working unmet settled =>
    rw [tarjanStep, working]
    dsimp only
    rw [(advanceNode_cases adjacency _ w 0 below).1]
    exact settled.isSome_of_mem (settled.work_stack u atWork)

theorem Turning.settled_of_over (turning : Turning adjacency s) (finished : s.work = []) :
    Settled adjacency s := by
  cases turning with
  | settled settled => exact settled
  | meets working => exact absurd (finished.symm.trans working) (List.cons_ne_nil _ _).symm

/-- With turns enough the loop comes to its end. -/
theorem Turning.loop {turns : Nat} (turning : Turning adjacency s)
    (enough : ∑ v, remaining adjacency s v ≤ turns) :
    ∃ s', tarjanLoop adjacency turns s = some s' ∧ Settled adjacency s' ∧ s'.work = [] ∧
      ∀ u, (s.index u).isSome ∨ u ∈ s.work.map Prod.fst → (s'.index u).isSome := by
  induction turns generalizing s with
  | zero =>
    have finished : s.work = [] := by
      by_contra going
      have fewer := turning.sum_remaining_lt going
      omega
    refine ⟨s, ?_, turning.settled_of_over finished, finished, fun u => by simp [finished]⟩
    rw [tarjanLoop, if_pos (by simpa using finished)]
  | succ turns ih =>
    rw [tarjanLoop]
    by_cases finished : s.work = []
    · rw [if_pos (by simpa using finished)]
      exact ⟨s, rfl, turning.settled_of_over finished, finished, fun u => by simp [finished]⟩
    · have fewer := turning.sum_remaining_lt finished
      obtain ⟨s', ends, settled, work, met⟩ := ih (turning.step finished) (by omega)
      rw [if_neg (by simpa using finished)]
      refine ⟨s', ends, settled, work, fun u before => met u (Or.inl ?_)⟩
      exact before.elim isSome_index_tarjanStep turning.isSome_step

/-! ### The whole search -/

variable (adjacency) in
/-- How many turns there are at most: one for every edge, and one for every node. -/
def tarjanTurns : Nat := ∑ v, ((adjacency v).length + 1)

/-- A search from a node ends, and meets it. -/
theorem Settled.tarjanFrom {turns : Nat} (settled : Settled adjacency s) (finished : s.work = [])
    (enough : tarjanTurns adjacency ≤ turns) (start : Fin n) :
    ∃ s', tarjanFrom adjacency turns s start = some s' ∧ Settled adjacency s' ∧ s'.work = [] ∧
      (s'.index start).isSome ∧ ∀ u, (s.index u).isSome → (s'.index u).isSome := by
  rw [CodeDb.tarjanFrom]
  split_ifs with met
  · exact ⟨s, rfl, settled, finished, met, fun u => id⟩
  · have unmet : s.index start = none := by simpa using met
    have turning : Turning adjacency { s with work := (start, 0) :: s.work } := by
      refine .meets rfl unmet (settled.visit unmet rfl (fun x y => Or.inl) ?_) ?_
      · simp [finished]
      · simp [finished, Going]
    have bound : ∑ v, remaining adjacency { s with work := (start, 0) :: s.work } v ≤
        tarjanTurns adjacency := by
      refine Finset.sum_le_sum fun v _ => ?_
      rw [remaining]
      split
      · omega
      · split_ifs <;> omega
    obtain ⟨s', ends, settled', finished', met⟩ := turning.loop (bound.trans enough)
    exact ⟨s', ends, settled', finished', met start (Or.inr List.mem_cons_self),
      fun u before => met u (Or.inl before)⟩

theorem settled_empty : Settled adjacency .empty := by
  constructor <;> simp [TarjanState.empty]

/-- Searches from some nodes, one after the other. -/
theorem Settled.foldlM_tarjanFrom {turns : Nat} (settled : Settled adjacency s)
    (finished : s.work = []) (enough : tarjanTurns adjacency ≤ turns) (nodes : List (Fin n)) :
    ∃ s', nodes.foldlM (CodeDb.tarjanFrom adjacency turns) s = some s' ∧ Settled adjacency s' ∧
      s'.work = [] ∧ ∀ u, (s.index u).isSome ∨ u ∈ nodes → (s'.index u).isSome := by
  induction nodes generalizing s with
  | nil => exact ⟨s, rfl, settled, finished, fun u => by simp⟩
  | cons start nodes ih =>
    obtain ⟨s', ends, settled', finished', met, kept⟩ := settled.tarjanFrom finished enough start
    obtain ⟨s'', ends', settled'', finished'', met'⟩ := ih settled' finished'
    refine ⟨s'', ?_, settled'', finished'', fun u given => met' u ?_⟩
    · rw [List.foldlM_cons, ends]
      exact ends'
    · rcases given with before | listed
      · exact Or.inl (kept u before)
      · rcases List.mem_cons.mp listed with rfl | later
        · exact Or.inl met
        · exact Or.inr later

/-- At the end all nodes are in components. -/
theorem exists_settled_tarjanScc {turns : Nat} (enough : tarjanTurns adjacency ≤ turns) :
    ∃ s, Settled adjacency s ∧ tarjanScc adjacency turns = some s.sccs ∧
      ∀ v, v ∈ s.sccs.flatten := by
  obtain ⟨s, ends, settled, finished, met⟩ :=
    settled_empty.foldlM_tarjanFrom rfl enough (List.finRange n)
  refine ⟨s, settled, by rw [tarjanScc, ends]; rfl, fun v => ?_⟩
  have listed := (settled.visited v).mp (met v (Or.inr (List.mem_finRange v)))
  refine (List.mem_append.mp listed).resolve_right fun inStack => ?_
  -- nothing is left on the stack that could not return to a node at work
  obtain ⟨f, atWork, -⟩ := settled.returns v inStack
  rw [finished] at atWork
  cases atWork

/-! ### More turns change nothing -/

theorem tarjanLoop_succ {turns : Nat} {s' : TarjanState n}
    (ends : tarjanLoop adjacency turns s = some s') :
    tarjanLoop adjacency (turns + 1) s = some s' := by
  induction turns generalizing s with
  | zero =>
    rw [tarjanLoop] at ends
    split_ifs at ends with finished
    rw [tarjanLoop, if_pos finished]
    exact ends
  | succ turns ih =>
    rw [tarjanLoop] at ends
    rw [tarjanLoop]
    split_ifs at ends with finished
    · rw [if_pos finished]
      exact ends
    · rw [if_neg finished]
      exact ih ends

theorem tarjanFrom_succ {turns : Nat} {s' : TarjanState n} {start : Fin n}
    (ends : tarjanFrom adjacency turns s start = some s') :
    tarjanFrom adjacency (turns + 1) s start = some s' := by
  rw [tarjanFrom] at ends ⊢
  split_ifs at ends ⊢ with met
  · exact ends
  · exact tarjanLoop_succ ends

theorem foldlM_tarjanFrom_succ {turns : Nat} {nodes : List (Fin n)} {s' : TarjanState n}
    (ends : nodes.foldlM (tarjanFrom adjacency turns) s = some s') :
    nodes.foldlM (tarjanFrom adjacency (turns + 1)) s = some s' := by
  induction nodes generalizing s with
  | nil => exact ends
  | cons start nodes ih =>
    rw [List.foldlM_cons] at ends ⊢
    obtain ⟨s₁, first, rest⟩ := Option.bind_eq_some_iff.mp ends
    exact Option.bind_eq_some_iff.mpr ⟨s₁, tarjanFrom_succ first, ih rest⟩

theorem tarjanScc_mono {turns turns' : Nat} (more : turns ≤ turns')
    {sccs : List (List (Fin n))} (ends : tarjanScc adjacency turns = some sccs) :
    tarjanScc adjacency turns' = some sccs := by
  induction more with
  | refl => exact ends
  | step _ ih =>
    obtain ⟨s, run, same⟩ := Option.bind_eq_some_iff.mp ih
    exact Option.bind_eq_some_iff.mpr ⟨s, foldlM_tarjanFrom_succ run, same⟩

end Invariant

/-! ### Components -/

/-- The search ends, and finds every node once, together with the nodes that it reaches and that
reach it. -/
theorem tarjanScc_components {n : Nat} (adjacency : Fin n → List (Fin n)) :
    ∃ sccs, (∃ turns, ∀ turns' ≥ turns, tarjanScc adjacency turns' = some sccs) ∧
      sccs.flatten.Perm (List.finRange n) ∧ [] ∉ sccs ∧
      ∀ v w, (∃ component ∈ sccs, v ∈ component ∧ w ∈ component) ↔
        Reach adjacency v w ∧ Reach adjacency w v := by
  obtain ⟨s, settled, ends, all⟩ := exists_settled_tarjanScc (le_refl (tarjanTurns adjacency))
  refine ⟨s.sccs, ⟨_, fun turns more => tarjanScc_mono more ends⟩, ?_, ?_, fun v w => ?_⟩
  · have distinct : s.sccs.flatten.Nodup := (List.nodup_append.mp settled.nodup).1
    refine (List.perm_ext_iff_of_nodup distinct (List.nodup_finRange n)).mpr fun v => ?_
    exact iff_of_true (all v) (List.mem_finRange v)
  · exact fun listed => (settled.component [] listed).1 rfl
  · constructor
    · rintro ⟨component, listed, member, member'⟩
      exact ((settled.component component listed).2 v member w).mp member'
    · intro connected
      obtain ⟨component, listed, member⟩ := List.mem_flatten.mp (all v)
      exact ⟨component, listed, member, ((settled.component component listed).2 v member w).mpr
        connected⟩

end CodeDb

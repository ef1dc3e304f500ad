import Mathlib.Data.Finset.Card
import Mathlib.Logic.Relation

/-!
# Post-orders of depth-first searches

A depth-first search lists a node after the successors it had not met before. Over a graph with
cycles a successor can be listed later than the node; then it leads back to the node. So of nodes
that lead to each other the last one listed comes after all that any of them leads to.

## Main definitions

* `visit` — the search, with a bound on its depth
* `Listed` — what a search appends to the list

## Main results

* `visit_listed` — what the search appends
* `exists_visit` — a depth beyond the number of nodes is enough
* `Listed.mem_iff` — which nodes are listed
* `Listed.exists_upTo` — what a node leads to is listed up to some node that leads to it and back
-/

namespace PostOrder

open Relation

variable {α : Type*}

/-- Visit a node: its successors in turn, then the node itself. A node met before is left alone. -/
def visit [DecidableEq α] (next : α → List α) : ℕ → α → List α × List α → Option (List α × List α)
  | 0, _, _ => none
  | depth + 1, a, (seen, ordered) =>
    if a ∈ seen then some (seen, ordered)
    else do
      let (seen, ordered) ←
        (next a).foldlM (fun state b => visit next depth b state) (a :: seen, ordered)
      return (seen, ordered ++ [a])

variable {next : α → List α} {a b : α} {starts starts' seen new new' : List α}

/-- One node leads to another by any number of steps. -/
def LeadsTo (next : α → List α) : α → α → Prop := ReflTransGen fun a b => b ∈ next a

/-- The successors of a listed node were met before or are listed before it, or everything listed
from the node up to the successor comes from that successor. -/
def Closed (next : α → List α) (seen new : List α) : Prop :=
  ∀ before a after, new = before ++ a :: after → ∀ b ∈ next a,
    b ∈ seen ∨ b ∈ before ∨
      ∃ between rest, a :: after = between ++ b :: rest ∧ ∀ c ∈ between, LeadsTo next b c

/-- What a search from some nodes appends to the list, when some nodes were met before. -/
structure Listed (next : α → List α) (starts seen new : List α) : Prop where
  nodup : new.Nodup
  fresh : ∀ a ∈ new, a ∉ seen
  sound : ∀ a ∈ new, ∃ s ∈ starts, LeadsTo next s a
  begun : ∀ s ∈ starts, s ∈ seen ∨ s ∈ new
  closed : Closed next seen new

namespace Listed

theorem nil (old : ∀ s ∈ starts, s ∈ seen) : Listed next starts seen [] where
  nodup := List.nodup_nil
  fresh a mem := absurd mem List.not_mem_nil
  sound a mem := absurd mem List.not_mem_nil
  begun s mem := Or.inl (old s mem)
  closed before a after split := by simp at split

/-- A search after another. -/
theorem append (first : Listed next starts seen new)
    (second : Listed next starts' (seen ++ new) new') :
    Listed next (starts ++ starts') seen (new ++ new') where
  nodup := first.nodup.append second.nodup fun a old mem =>
    second.fresh a mem (List.mem_append_right _ old)
  fresh a mem old := by
    rcases List.mem_append.mp mem with left | right
    · exact first.fresh a left old
    · exact second.fresh a right (List.mem_append_left _ old)
  sound a mem := by
    rcases List.mem_append.mp mem with left | right
    · obtain ⟨s, start, path⟩ := first.sound a left
      exact ⟨s, List.mem_append_left _ start, path⟩
    · obtain ⟨s, start, path⟩ := second.sound a right
      exact ⟨s, List.mem_append_right _ start, path⟩
  begun s mem := by
    rcases List.mem_append.mp mem with left | right
    · exact (first.begun s left).imp_right (List.mem_append_left _)
    · rcases second.begun s right with old | new
      · exact (List.mem_append.mp old).imp_right (List.mem_append_left _)
      · exact Or.inr (List.mem_append_right _ new)
  closed before a after split b step := by
    rcases List.append_eq_append_iff.mp split with ⟨l, here, rest⟩ | ⟨l, here, rest⟩
    · -- the node is of the second search
      subst here
      rcases second.closed l a after rest b step with old | earlier | later
      · rcases List.mem_append.mp old with old | old
        · exact Or.inl old
        · exact Or.inr (Or.inl (List.mem_append_left _ old))
      · exact Or.inr (Or.inl (List.mem_append_right _ earlier))
      · exact Or.inr (Or.inr later)
    · cases l with
      | nil =>
        rw [List.append_nil] at here
        subst here
        rcases second.closed [] a after (by simpa using rest.symm) b step with old | earlier | later
        · rcases List.mem_append.mp old with old | old
          · exact Or.inl old
          · exact Or.inr (Or.inl old)
        · exact absurd earlier List.not_mem_nil
        · exact Or.inr (Or.inr later)
      | cons c l =>
        -- the node is of the first search
        rw [List.cons_append] at rest
        obtain ⟨rfl, rfl⟩ := List.cons.inj rest
        rcases first.closed before a l here b step with old | earlier | ⟨between, rest, eq, all⟩
        · exact Or.inl old
        · exact Or.inr (Or.inl earlier)
        · refine Or.inr (Or.inr ⟨between, rest ++ new', ?_, all⟩)
          rw [← List.cons_append, eq, List.append_assoc, List.cons_append]

/-- A node is listed after its successors were searched. -/
theorem close (fresh : a ∉ seen) (listed : Listed next (next a) (a :: seen) new) :
    Listed next [a] seen (new ++ [a]) := by
  have notListed : a ∉ new := fun mem => listed.fresh a mem List.mem_cons_self
  have reached : ∀ c ∈ new ++ [a], LeadsTo next a c := by
    intro c mem
    rcases List.mem_append.mp mem with left | right
    · obtain ⟨s, step, path⟩ := listed.sound c left
      exact .head step path
    · rw [List.mem_singleton] at right
      exact right ▸ .refl
  refine ⟨?_, ?_, fun c mem => ⟨a, List.mem_singleton_self a, reached c mem⟩, ?_, ?_⟩
  · exact listed.nodup.append (List.nodup_singleton a) (by simpa using notListed)
  · intro c mem old
    rcases List.mem_append.mp mem with left | right
    · exact listed.fresh c left (List.mem_cons_of_mem _ old)
    · rw [List.mem_singleton] at right
      exact fresh (right ▸ old)
  · intro s mem
    rw [List.mem_singleton] at mem
    exact Or.inr (by simp [mem])
  · intro before c after split b step
    -- the node is listed last, so only what it closes over is new for the others
    rcases List.eq_nil_or_concat after with rfl | ⟨l, d, rfl⟩
    · -- the node itself
      obtain ⟨rfl, same⟩ := List.append_inj' split rfl
      obtain rfl : a = c := by simpa using same
      rcases listed.begun b step with old | earlier
      · rcases List.mem_cons.mp old with rfl | old
        · exact Or.inr (Or.inr ⟨[], [], rfl, fun _ mem => absurd mem List.not_mem_nil⟩)
        · exact Or.inl old
      · exact Or.inr (Or.inl earlier)
    · have split' : new ++ [a] = (before ++ c :: l) ++ [d] := by simpa using split
      obtain ⟨here, same⟩ := List.append_inj' split' rfl
      obtain rfl : a = d := by simpa using same
      rcases listed.closed before c l here b step with old | earlier | ⟨between, rest, eq, all⟩
      · rcases List.mem_cons.mp old with rfl | old
        · -- the successor is the node: what is listed before the node comes from it
          refine Or.inr (Or.inr ⟨c :: l, [], by simp, fun d mem => reached d ?_⟩)
          rw [here]
          exact List.mem_append_left _ (List.mem_append_right _ mem)
        · exact Or.inl old
      · exact Or.inr (Or.inl earlier)
      · refine Or.inr (Or.inr ⟨between, rest ++ [a], ?_, all⟩)
        simp only [List.concat_eq_append]
        rw [← List.cons_append, eq, List.append_assoc, List.cons_append]

/-- What was met before counts as a set only. -/
theorem congr {seen' : List α} (listed : Listed next starts seen new)
    (same : ∀ a, a ∈ seen ↔ a ∈ seen') : Listed next starts seen' new where
  nodup := listed.nodup
  fresh a mem old := listed.fresh a mem ((same a).mpr old)
  sound := listed.sound
  begun s mem := (listed.begun s mem).imp_left (same s).mp
  closed before a after split b step :=
    (listed.closed before a after split b step).imp_left (same b).mp

end Listed

/-- What a visit appends, and what it has met at its end. A node met for the first time comes
last. -/
theorem visit_listed [DecidableEq α] {depth : ℕ} {seen' ordered ordered' : List α}
    (run : visit next depth a (seen, ordered) = some (seen', ordered')) :
    ∃ new, ordered' = ordered ++ new ∧ Listed next [a] seen new ∧
      (∀ b, b ∈ seen' ↔ b ∈ seen ∨ b ∈ new) ∧ (a ∉ seen → new.getLast? = some a) := by
  -- on the depth, which pays for each node on the way down
  induction depth generalizing a seen ordered seen' ordered' with
  | zero => simp [visit] at run
  | succ depth ih =>
    rw [visit] at run
    split at run
    · rename_i old
      obtain ⟨rfl, rfl⟩ := Prod.mk.inj (Option.some.inj run)
      exact ⟨[], by simp, .nil (by simpa using old), by simp, absurd old⟩
    · rename_i fresh
      -- the successors in turn
      have all : ∀ (successors seen ordered seen' ordered' : List α),
          successors.foldlM (fun state b => visit next depth b state) (seen, ordered) =
            some (seen', ordered') →
          ∃ new, ordered' = ordered ++ new ∧ Listed next successors seen new ∧
            ∀ b, b ∈ seen' ↔ b ∈ seen ∨ b ∈ new := by
        intro successors
        induction successors with
        | nil =>
          intro seen ordered seen' ordered' run
          obtain ⟨rfl, rfl⟩ := Prod.mk.inj (Option.some.inj run)
          exact ⟨[], by simp, .nil (by simp), by simp⟩
        | cons s successors ihs =>
          intro seen ordered seen' ordered' run
          rw [List.foldlM_cons, Option.bind_eq_bind, Option.bind_eq_some_iff] at run
          obtain ⟨⟨seen₁, ordered₁⟩, first, rest⟩ := run
          obtain ⟨new, rfl, listed, met, -⟩ := ih first
          obtain ⟨new', rfl, listed', met'⟩ := ihs _ _ _ _ rest
          refine ⟨new ++ new', by simp, listed.append (listed'.congr fun b => ?_), fun b => ?_⟩
          · rw [met, List.mem_append]
          · rw [met', met, List.mem_append, or_assoc]
      rw [Option.bind_eq_bind, Option.bind_eq_some_iff] at run
      obtain ⟨⟨seen₁, ordered₁⟩, searched, result⟩ := run
      obtain ⟨rfl, rfl⟩ := Prod.mk.inj (Option.some.inj result)
      obtain ⟨new, rfl, listed, met⟩ := all _ _ _ _ _ searched
      refine ⟨new ++ [a], by simp, listed.close fresh, fun b => ?_, fun _ => List.getLast?_concat⟩
      rw [met, List.mem_cons, List.mem_append, List.mem_singleton]
      tauto

/-- A depth beyond the number of nodes not met yet is enough. -/
theorem exists_visit [DecidableEq α] {nodes : Finset α} (closed : ∀ a, ∀ b ∈ next a, b ∈ nodes)
    {depth : ℕ} (inside : a ∈ nodes) (enough : (nodes \ seen.toFinset).card < depth)
    (ordered : List α) :
    ∃ result, visit next depth a (seen, ordered) = some result := by
  induction depth generalizing a seen ordered with
  | zero => exact absurd enough (Nat.not_lt_zero _)
  | succ depth ih =>
    rw [visit]
    split
    · exact ⟨_, rfl⟩
    · rename_i fresh
      -- the node is met now, so fewer are left for what comes below it
      have fewer : (nodes \ (a :: seen).toFinset).card < depth := by
        refine lt_of_lt_of_le (Finset.card_lt_card ⟨?_, fun sub => ?_⟩) (Nat.lt_succ_iff.mp enough)
        · intro b mem
          simp only [Finset.mem_sdiff, List.mem_toFinset, List.mem_cons, not_or] at mem ⊢
          exact ⟨mem.1, mem.2.2⟩
        · simpa using sub (by simpa using ⟨inside, fresh⟩ : a ∈ nodes \ seen.toFinset)
      have all : ∀ (successors seen ordered : List α), (∀ b ∈ successors, b ∈ nodes) →
          (nodes \ seen.toFinset).card < depth →
          ∃ result, successors.foldlM (fun state b => visit next depth b state) (seen, ordered) =
            some result := by
        intro successors
        induction successors with
        | nil => exact fun seen ordered _ _ => ⟨_, rfl⟩
        | cons s successors ihs =>
          intro seen ordered inside enough
          obtain ⟨⟨seen₁, ordered₁⟩, first⟩ := ih (inside s List.mem_cons_self) enough ordered
          obtain ⟨new, -, -, met, -⟩ := visit_listed first
          -- a visit forgets nothing that was met
          have fewer : (nodes \ seen₁.toFinset).card < depth := by
            refine lt_of_le_of_lt (Finset.card_le_card fun b mem => ?_) enough
            simp only [Finset.mem_sdiff, List.mem_toFinset, met, not_or] at mem ⊢
            exact ⟨mem.1, mem.2.1⟩
          obtain ⟨result, rest⟩ :=
            ihs seen₁ ordered₁ (fun b mem => inside b (List.mem_cons_of_mem _ mem)) fewer
          exact ⟨result, by rw [List.foldlM_cons, first]; exact rest⟩
      obtain ⟨result, searched⟩ := all (next a) (a :: seen) ordered (closed a) fewer
      exact ⟨_, by rw [searched]; rfl⟩

/-- The last element of a list for which something holds. -/
theorem exists_last {p : α → Prop} {l : List α} (mem : a ∈ l) (holds : p a) :
    ∃ before b after, l = before ++ b :: after ∧ p b ∧ ∀ c ∈ after, ¬ p c := by
  induction l using List.reverseRecOn with
  | nil => exact absurd mem List.not_mem_nil
  | append_singleton l d ih =>
    by_cases here : p d
    · exact ⟨l, d, [], rfl, here, fun c mem => absurd mem List.not_mem_nil⟩
    · have earlier : a ∈ l := by
        refine (List.mem_append.mp mem).resolve_right fun same => here ?_
        exact List.mem_singleton.mp same ▸ holds
      obtain ⟨before, b, after, rfl, found, last⟩ := ih earlier
      refine ⟨before, b, after ++ [d], by simp, found, fun c later => ?_⟩
      rcases List.mem_append.mp later with old | same
      · exact last c old
      · exact List.mem_singleton.mp same ▸ here

namespace Listed

/-- A search that has met nothing before lists what its nodes lead to. -/
theorem mem_iff (listed : Listed next starts [] new) :
    b ∈ new ↔ ∃ s ∈ starts, LeadsTo next s b := by
  refine ⟨listed.sound b, ?_⟩
  rintro ⟨s, start, path⟩
  -- along the path: the successor of a listed node is listed somewhere
  induction path with
  | refl => simpa using listed.begun s start
  | @tail c d _ step ih =>
    obtain ⟨before, after, split⟩ := List.append_of_mem ih
    rcases listed.closed before c after split d step with old | earlier | ⟨between, rest, eq, -⟩
    · exact absurd old List.not_mem_nil
    · exact split ▸ List.mem_append_left _ earlier
    · rw [split, eq]
      exact List.mem_append_right _ (List.mem_append_right _ List.mem_cons_self)

/-- A node after which none leads back to it and comes from it is listed after all it leads to. -/
theorem mem_of_last (listed : Listed next starts [] new) {before after : List α}
    (split : new = before ++ a :: after)
    (last : ∀ c ∈ after, LeadsTo next a c → ¬ LeadsTo next c a) (path : LeadsTo next a b) :
    b ∈ before ++ [a] := by
  induction path with
  | refl => exact List.mem_append_right _ (List.mem_singleton_self a)
  | @tail c d path step ih =>
    -- where the edge leads past the node, its end leads back to the node
    obtain ⟨l, r, here⟩ := List.append_of_mem ih
    have split' : new = l ++ c :: (r ++ after) := by
      rw [split, ← List.singleton_append, ← List.append_assoc, here, List.append_assoc,
        List.cons_append]
    have mem : a ∈ c :: r := by
      have atEnd : a ∈ (l ++ c :: r).getLast? := by simp [← here]
      rw [List.getLast?_append_of_ne_nil _ (List.cons_ne_nil c r)] at atEnd
      exact List.mem_of_getLast? atEnd
    rcases listed.closed l c _ split' d step with old | earlier | ⟨between, rest, eq, all⟩
    · exact absurd old List.not_mem_nil
    · exact here ▸ List.mem_append_left _ earlier
    -- so the end is not past the node, as nothing there leads back
    · have past : a ∈ between → d ∉ after := fun between after =>
        last d after (path.tail step) (all a between)
      rw [← List.cons_append] at eq
      rcases List.append_eq_append_iff.mp eq with ⟨l', same, suffix⟩ | ⟨l', same, suffix⟩
      · refine absurd ?_ (past (same ▸ List.mem_append_left _ mem))
        exact suffix ▸ List.mem_append_right _ List.mem_cons_self
      · cases l' with
        | nil =>
          rw [List.append_nil] at same
          refine absurd ?_ (past (same ▸ mem))
          rw [List.nil_append] at suffix
          exact suffix ▸ List.mem_cons_self
        | cons e l' =>
          obtain ⟨rfl, -⟩ := List.cons.inj suffix
          rw [here, same]
          exact List.mem_append_right _ (List.mem_append_right _ List.mem_cons_self)

/-- What a listed node leads to is listed up to some node that leads to it and back. -/
theorem exists_upTo (listed : Listed next starts [] new) (mem : a ∈ new)
    (path : LeadsTo next a b) : ∃ before c after, new = before ++ c :: after ∧
      LeadsTo next a c ∧ LeadsTo next c a ∧ b ∈ before ++ [c] := by
  obtain ⟨before, c, after, split, ⟨there, back⟩, last⟩ :=
    exists_last mem (p := fun c => LeadsTo next a c ∧ LeadsTo next c a) ⟨.refl, .refl⟩
  refine ⟨before, c, after, split, there, back, ?_⟩
  refine listed.mem_of_last split (fun d mem onwards backwards => ?_) (back.trans path)
  exact last d mem ⟨there.trans onwards, backwards.trans back⟩

end Listed

end PostOrder

import Mathlib.Data.Set.Insert
import Mathlib.Logic.Relation

/-!
# Recursions that are cut where they come back

A recursion over a graph which stops at the nodes it is in the middle of visits every node
that can be reached: a path that comes back to a node can be cut short there.

## Main definitions

* `ReachesOutside` — there is a path that meets no node of a set

## Main results

* `reachesOutside_iff` — one step of the recursion: what is reached from a node is the node
  itself and what is reached from its successors without coming back to it
* `reachesOutside_empty` — with nothing to avoid, every path counts
-/

namespace DepthFirst

variable {α : Type*} {edge : α → α → Prop} {S T : Set α} {a b c : α}

/-- A path from one node to another that meets no node of a set. -/
inductive ReachesOutside (edge : α → α → Prop) (S : Set α) : α → α → Prop
  | refl {a : α} : a ∉ S → ReachesOutside edge S a a
  | head {a b c : α} : a ∉ S → edge a b → ReachesOutside edge S b c → ReachesOutside edge S a c

namespace ReachesOutside

theorem start (h : ReachesOutside edge S a b) : a ∉ S := by
  cases h with
  | refl outside => exact outside
  | head outside _ _ => exact outside

/-- Fewer nodes to avoid leave more paths. -/
theorem mono (h : ReachesOutside edge T a b) (sub : S ⊆ T) : ReachesOutside edge S a b := by
  induction h with
  | refl outside => exact .refl fun inside => outside (sub inside)
  | head outside step _ ih => exact .head (fun inside => outside (sub inside)) step ih

/-- A path either avoids a node, or goes on from it without coming back to it, or ends
there. -/
theorem cut (x : α) (h : ReachesOutside edge S a b) :
    ReachesOutside edge (insert x S) a b ∨
      (∃ y, edge x y ∧ ReachesOutside edge (insert x S) y b) ∨ x = b := by
  induction h with
  | @refl a outside =>
    by_cases same : x = a
    · exact Or.inr (Or.inr same)
    · exact Or.inl (.refl (by simp [outside, Ne.symm same]))
  | @head a b c outside step _ ih =>
    rcases ih with avoids | later
    · by_cases same : x = a
      · -- the path begins at the node, so the rest of it is what avoids the node
        exact Or.inr (Or.inl ⟨b, same ▸ step, avoids⟩)
      · exact Or.inl (.head (by simp [outside, Ne.symm same]) step avoids)
    · exact Or.inr later

end ReachesOutside

/-- One step of the recursion. -/
theorem reachesOutside_iff (outside : a ∉ S) :
    ReachesOutside edge S a b ↔
      a = b ∨ ∃ y, edge a y ∧ ReachesOutside edge (insert a S) y b := by
  constructor
  · intro h
    rcases h.cut a with avoids | ⟨y, step, rest⟩ | same
    · exact absurd (Set.mem_insert a S) avoids.start
    · exact Or.inr ⟨y, step, rest⟩
    · exact Or.inl same
  · rintro (rfl | ⟨y, step, rest⟩)
    · exact .refl outside
    · exact .head outside step (rest.mono (Set.subset_insert a S))

/-- With nothing to avoid, every path counts. -/
theorem reachesOutside_empty :
    ReachesOutside edge ∅ a b ↔ Relation.ReflTransGen edge a b := by
  constructor
  · intro h
    induction h with
    | refl _ => exact .refl
    | head _ step _ ih => exact .head step ih
  · intro h
    induction h using Relation.ReflTransGen.head_induction_on with
    | refl => exact .refl (Set.notMem_empty _)
    | head step _ ih => exact .head (Set.notMem_empty _) step ih

end DepthFirst

import Mathlib.Data.Set.Insert
import Mathlib.Logic.Relation

/-!
# Searches with a worklist

A search over a graph keeps the nodes it has seen and those that still wait. It takes a waiting
node, in whatever order, and if the node is new lets its successors wait, or those of them that
are not seen yet. When nothing waits any more, what is seen is what can be reached.

## Main definitions

* `Reached` — what can be reached from some nodes
* `Searching` — a search in progress

## Main results

* `Searching.skip`, `Searching.visit` — one step of the search
* `Searching.mem_iff` — what is seen at the end
-/

namespace Worklist

open Relation

variable {α : Type*} {edge : α → α → Prop} {start seen waiting waiting' : Set α} {a b c : α}

/-- A node that can be reached from one of some nodes. -/
def Reached (edge : α → α → Prop) (start : Set α) (a : α) : Prop :=
  ∃ s ∈ start, ReflTransGen edge s a

namespace Reached

theorem of_mem (mem : a ∈ start) : Reached edge start a := ⟨a, mem, .refl⟩

theorem step (reached : Reached edge start a) (h : edge a b) : Reached edge start b := by
  obtain ⟨s, mem, path⟩ := reached
  exact ⟨s, mem, path.tail h⟩

/-- What is reached from what is reached is reached. -/
theorem trans {start' : Set α} (reached : Reached edge start' a)
    (all : ∀ s ∈ start', Reached edge start s) : Reached edge start a := by
  obtain ⟨s', mem, path⟩ := reached
  obtain ⟨s, mem, path'⟩ := all s' mem
  exact ⟨s, mem, path'.trans path⟩

/-- What holds at the start and goes over to successors holds of all that is reached. -/
theorem induction {p : α → Prop} (reached : Reached edge start a) (base : ∀ s ∈ start, p s)
    (next : ∀ a b, p a → edge a b → p b) : p a := by
  obtain ⟨s, mem, path⟩ := reached
  induction path with
  | refl => exact base s mem
  | tail _ h ih => exact next _ _ ih h

/-- What is reached from the successors of a node is reached from it by at least one step. -/
theorem iff_transGen : Reached edge {b | edge a b} c ↔ TransGen edge a c := by
  constructor
  · rintro ⟨s, first, path⟩
    exact TransGen.head' first path
  · intro path
    obtain ⟨s, first, rest⟩ := TransGen.head'_iff.mp path
    exact ⟨s, first, rest⟩

end Reached

/-- A node waits on top of a stack. -/
theorem waiting_cons (a : α) (stack : List α) :
    {b | b ∈ a :: stack} = insert a {b | b ∈ stack} := by
  ext b
  simp

/-- A search in progress: all it met can be reached, it has not lost a node it starts from, and the
successors of what it has seen are seen or wait. -/
structure Searching (edge : α → α → Prop) (start seen waiting : Set α) : Prop where
  sound : ∀ a ∈ seen ∪ waiting, Reached edge start a
  begun : start ⊆ seen ∪ waiting
  closed : ∀ a ∈ seen, ∀ b, edge a b → b ∈ seen ∪ waiting

namespace Searching

/-- A search begins with its start waiting. -/
theorem init : Searching edge start ∅ start where
  sound _ mem := .of_mem (by simpa using mem)
  begun _ mem := Or.inr mem
  closed _ mem := absurd mem (Set.notMem_empty _)

/-- A node that was seen need not wait. -/
theorem skip (search : Searching edge start seen (insert a waiting)) (old : a ∈ seen) :
    Searching edge start seen waiting := by
  have same : seen ∪ insert a waiting = seen ∪ waiting := by
    rw [Set.union_insert]
    exact Set.insert_eq_of_mem (Set.mem_union_left _ old)
  exact ⟨same ▸ search.sound, same ▸ search.begun, same ▸ search.closed⟩

/-- A node that was not seen is seen now, and its new successors wait. -/
theorem visit (search : Searching edge start seen (insert a waiting))
    (kept : waiting ⊆ waiting') (sound : ∀ b ∈ waiting', b ∈ waiting ∨ edge a b)
    (complete : ∀ b, edge a b → b ∈ insert a seen ∨ b ∈ waiting') :
    Searching edge start (insert a seen) waiting' where
  sound b mem := by
    have here : Reached edge start a := search.sound a (Or.inr (Set.mem_insert _ _))
    rcases mem with (rfl | old) | new
    · exact here
    · exact search.sound b (Or.inl old)
    · rcases sound b new with old | h
      · exact search.sound b (Or.inr (Set.mem_insert_of_mem _ old))
      · exact here.step h
  begun s mem := by
    rcases search.begun mem with old | rfl | old
    · exact Or.inl (Set.mem_insert_of_mem _ old)
    · exact Or.inl (Set.mem_insert _ _)
    · exact Or.inr (kept old)
  closed b mem c h := by
    rcases mem with rfl | old
    · exact complete c h
    · rcases search.closed b old c h with old | rfl | old
      · exact Or.inl (Set.mem_insert_of_mem _ old)
      · exact Or.inl (Set.mem_insert _ _)
      · exact Or.inr (kept old)

/-- When nothing waits, what is seen is what can be reached. -/
theorem mem_iff (search : Searching edge start seen ∅) : a ∈ seen ↔ Reached edge start a := by
  constructor
  · exact fun mem => search.sound a (Or.inl mem)
  · intro reached
    refine reached.induction (fun s mem => ?_) fun a b mem h => ?_
    · simpa using search.begun mem
    · simpa using search.closed a mem b h

end Searching

end Worklist

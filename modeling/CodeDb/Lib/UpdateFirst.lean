import Mathlib.Data.List.Basic

/-!
# Changing the first match

A list is changed in place at its first element that meets a condition. Whatever
the change leaves alone at one element, it leaves alone in the list.

## Main definitions

* `updateFirst` — change the first element that meets a condition

## Main results

* `map_updateFirst` — what the change keeps, the list keeps
* `mem_updateFirst` — an element of the changed list is old, or the changed one
* `mem_updateFirst_key` — and the old ones have other keys, if keys are distinct
-/

namespace List

variable {α β : Type*}

/-- Change the first element that meets a condition. -/
def updateFirst (p : α → Bool) (f : α → α) : List α → List α
  | [] => []
  | a :: l => if p a then f a :: l else a :: updateFirst p f l

variable {p : α → Bool} {f : α → α} {l : List α}

/-- What the change keeps of an element, the list keeps. -/
theorem map_updateFirst {g : α → β} (keeps : ∀ a ∈ l, p a → g (f a) = g a) :
    (l.updateFirst p f).map g = l.map g := by
  induction l with
  | nil => rfl
  | cons a l ih =>
    simp only [updateFirst]
    split_ifs with first
    · simp [keeps a mem_cons_self first]
    · simp [ih fun b hb => keeps b (mem_cons_of_mem _ hb)]

@[simp] theorem length_updateFirst : (l.updateFirst p f).length = l.length := by
  induction l with
  | nil => rfl
  | cons a l ih =>
    simp only [updateFirst]
    split_ifs <;> simp [ih]

theorem mem_updateFirst {b : α} (h : b ∈ l.updateFirst p f) : b ∈ l ∨ ∃ a ∈ l, p a ∧ b = f a := by
  induction l with
  | nil => simp [updateFirst] at h
  | cons a l ih =>
    simp only [updateFirst] at h
    split_ifs at h with first
    · rcases mem_cons.mp h with rfl | h
      · exact Or.inr ⟨a, mem_cons_self, first, rfl⟩
      · exact Or.inl (mem_cons_of_mem _ h)
    · rcases mem_cons.mp h with rfl | h
      · exact Or.inl mem_cons_self
      · rcases ih h with h | ⟨c, hc, rest⟩
        · exact Or.inl (mem_cons_of_mem _ h)
        · exact Or.inr ⟨c, mem_cons_of_mem _ hc, rest⟩

/-- With distinct keys, an element of a list changed at a key is the changed one, or
an old one with another key. -/
theorem mem_updateFirst_key [DecidableEq β] {key : α → β} {k : β} (distinct : (l.map key).Nodup)
    {b : α} (h : b ∈ l.updateFirst (key · == k) f) :
    (b ∈ l ∧ key b ≠ k) ∨ ∃ a ∈ l, key a = k ∧ b = f a := by
  induction l with
  | nil => simp [updateFirst] at h
  | cons a l ih =>
    obtain ⟨fresh, distinct⟩ := nodup_cons.mp distinct
    simp only [updateFirst, beq_iff_eq] at h
    split_ifs at h with first
    · rcases mem_cons.mp h with rfl | h
      · exact Or.inr ⟨a, mem_cons_self, first, rfl⟩
      · exact Or.inl ⟨mem_cons_of_mem _ h, fun same =>
          fresh (first.trans same.symm ▸ mem_map_of_mem h)⟩
    · rcases mem_cons.mp h with rfl | h
      · exact Or.inl ⟨mem_cons_self, first⟩
      · rcases ih distinct h with ⟨h, other⟩ | ⟨c, hc, rest⟩
        · exact Or.inl ⟨mem_cons_of_mem _ h, other⟩
        · exact Or.inr ⟨c, mem_cons_of_mem _ hc, rest⟩

/-- What a change keeps of an element, a list changed at an index keeps. -/
theorem map_modify_of_keeps (f : α → α) (g : α → β) (keeps : ∀ a, g (f a) = g a) (i : ℕ) :
    (l.modify i f).map g = l.map g := by
  refine ext_getElem (by simp) fun n _ _ => ?_
  simp only [getElem_map, getElem_modify]
  split_ifs <;> simp [keeps]

end List

import Mathlib.Data.Finset.Basic
import Mathlib.Order.Antichain

/-!
# Antichains

A finite set of elements none of which lies below another one stands for all that lies above its
elements, and is the only such set that does. An element is inserted by leaving out what lies
above it, unless it lies above an element already.

Where what lies below an element is a chain, as the prefixes of a list are, what lies above some
element of each of several sets lies above an element of one of them that does so itself. It need
not be one of the first.

## Main definitions

* `Antichain.Covers` — an element lies above an element of a set
* `Antichain.insertLeast` — insertion of an element

## Main results

* `Antichain.eq_of_covers_iff` — antichains that cover the same elements are the same
* `Antichain.foldl_insertLeast_eq` — the order of insertions does not matter
* `Antichain.exists_meet_iff` — when the elements of the first of several sets are enough
-/

namespace Antichain

variable {α : Type*} [PartialOrder α] {s t : Finset α} {a b : α} {l l' : List α}

/-- An element lies above an element of a set, or is one. -/
def Covers (s : Finset α) (a : α) : Prop := ∃ m ∈ s, m ≤ a

theorem covers_of_mem (mem : a ∈ s) : Covers s a := ⟨a, mem, le_rfl⟩

theorem Covers.mono (covers : Covers s a) (le : a ≤ b) : Covers s b := by
  obtain ⟨m, mem, below⟩ := covers
  exact ⟨m, mem, below.trans le⟩

/-- Antichains that cover the same elements are the same. -/
theorem eq_of_covers_iff (anti : IsAntichain (· ≤ ·) (s : Set α))
    (anti' : IsAntichain (· ≤ ·) (t : Set α))
    (same : ∀ a, Covers s a ↔ Covers t a) : s = t := by
  have half {s t : Finset α} (anti : IsAntichain (· ≤ ·) (s : Set α))
      (same : ∀ a, Covers s a ↔ Covers t a) :
      s ⊆ t := by
    intro a mem
    obtain ⟨m, mem', le⟩ := (same a).mp (covers_of_mem mem)
    obtain ⟨m', mem'', le'⟩ := (same m).mpr (covers_of_mem mem')
    -- what covers the cover of an element of an antichain is the element
    obtain rfl := anti.eq mem'' mem (le'.trans le)
    exact le_antisymm le le' ▸ mem'
  exact (half anti same).antisymm (half anti' fun a => (same a).symm)

section Insert

variable [DecidableEq α] [DecidableLE α]

instance (s : Finset α) (a : α) : Decidable (Covers s a) :=
  inferInstanceAs (Decidable (∃ m ∈ s, m ≤ a))

/-- Insert an element, unless it is covered. What it covers is left out. -/
def insertLeast (s : Finset α) (a : α) : Finset α :=
  if Covers s a then s else insert a (s.filter (¬a ≤ ·))

theorem covers_insertLeast : Covers (insertLeast s a) b ↔ Covers s b ∨ a ≤ b := by
  rw [insertLeast]
  split_ifs with covered
  · constructor
    · exact Or.inl
    · rintro (covers | le)
      · exact covers
      · exact covered.mono le
  · constructor
    · rintro ⟨m, mem, le⟩
      rcases Finset.mem_insert.mp mem with rfl | mem
      · exact Or.inr le
      · exact Or.inl ⟨m, (Finset.mem_filter.mp mem).1, le⟩
    · rintro (⟨m, mem, le⟩ | le)
      · by_cases above : a ≤ m
        · exact ⟨a, Finset.mem_insert_self .., above.trans le⟩
        · exact ⟨m, Finset.mem_insert_of_mem (Finset.mem_filter.mpr ⟨mem, above⟩), le⟩
      · exact ⟨a, Finset.mem_insert_self .., le⟩

theorem isAntichain_insertLeast (anti : IsAntichain (· ≤ ·) (s : Set α)) :
    IsAntichain (· ≤ ·) (insertLeast s a : Set α) := by
  rw [insertLeast]
  split_ifs with covered
  · exact anti
  · intro x mem y mem' differ le
    apply differ
    rcases Finset.mem_insert.mp mem with rfl | mem
    · rcases Finset.mem_insert.mp mem' with rfl | mem'
      · rfl
      · exact absurd le (Finset.mem_filter.mp mem').2
    · have listed := (Finset.mem_filter.mp mem).1
      rcases Finset.mem_insert.mp mem' with rfl | mem'
      · exact absurd ⟨x, listed, le⟩ covered
      · exact anti.eq listed (Finset.mem_filter.mp mem').1 le

theorem isAntichain_foldl (anti : IsAntichain (· ≤ ·) (s : Set α)) (l : List α) :
    IsAntichain (· ≤ ·) (↑(l.foldl insertLeast s) : Set α) := by
  induction l generalizing s with
  | nil => exact anti
  | cons a l ih => exact ih (isAntichain_insertLeast anti)

theorem covers_foldl_insertLeast :
    Covers (l.foldl insertLeast s) b ↔ Covers s b ∨ ∃ a ∈ l, a ≤ b := by
  induction l generalizing s with
  | nil => simp
  | cons a l ih =>
    rw [List.foldl_cons, ih, covers_insertLeast, or_assoc]
    simp only [List.mem_cons, exists_eq_or_imp]

/-- The order of insertions does not matter. -/
theorem foldl_insertLeast_eq (anti : IsAntichain (· ≤ ·) (s : Set α)) (same : ∀ a, a ∈ l ↔ a ∈ l') :
    l.foldl insertLeast s = l'.foldl insertLeast s := by
  apply eq_of_covers_iff (isAntichain_foldl anti l) (isAntichain_foldl anti l')
  intro b
  simp only [covers_foldl_insertLeast, same]

/-- An antichain is made of its elements. -/
theorem foldl_insertLeast_empty (anti : IsAntichain (· ≤ ·) (s : Set α))
    (listed : ∀ a, a ∈ l ↔ a ∈ s) : l.foldl insertLeast ∅ = s := by
  apply eq_of_covers_iff (isAntichain_foldl (by simp) l) anti
  intro b
  rw [covers_foldl_insertLeast]
  simp [Covers, listed]

end Insert

/-! ### What several sets cover -/

section Meet

variable {first : Finset α} {rest : List (Finset α)} {f : α}

/-- What is covered by all of several sets lies above an element of one that is so, too, unless it
lies above an element that they all cover. -/
theorem exists_deepest (chain : ∀ {a b c : α}, a ≤ c → b ≤ c → a ≤ b ∨ b ≤ a) (le : f ≤ a)
    (covered : ∀ s ∈ rest, Covers s a) :
    (∀ s ∈ rest, Covers s f) ∨
      ∃ s ∈ rest, ∃ m ∈ s, f < m ∧ m ≤ a ∧ ∀ t ∈ rest, Covers t m := by
  induction rest with
  | nil => exact Or.inl fun s mem => absurd mem List.not_mem_nil
  | cons s rest ih =>
    obtain ⟨⟨m, mem, below⟩, others⟩ := List.forall_mem_cons.mp covered
    rcases ih others with all | ⟨t, listed, m', mem', less, below', all⟩
    · by_cases under : m ≤ f
      · exact Or.inl (List.forall_mem_cons.mpr ⟨⟨m, mem, under⟩, all⟩)
      · have less : f < m := lt_of_le_not_ge ((chain le below).resolve_right under) under
        refine Or.inr ⟨s, List.mem_cons_self, m, mem, less, below, ?_⟩
        exact List.forall_mem_cons.mpr
          ⟨covers_of_mem mem, fun t listed => (all t listed).mono less.le⟩
    · rcases chain below below' with under | above
      · refine Or.inr ⟨t, List.mem_cons_of_mem s listed, m', mem', less, below', ?_⟩
        exact List.forall_mem_cons.mpr ⟨⟨m, mem, under⟩, all⟩
      · refine Or.inr ⟨s, List.mem_cons_self, m, mem, less.trans_le above, below, ?_⟩
        exact List.forall_mem_cons.mpr
          ⟨covers_of_mem mem, fun t listed => (all t listed).mono above⟩

/-- All that several antichains cover lies above the elements of the first that the others cover
exactly if no other has an element that they all cover inside an element of the first. -/
theorem exists_meet_iff (chain : ∀ {a b c : α}, a ≤ c → b ≤ c → a ≤ b ∨ b ≤ a)
    (anti : IsAntichain (· ≤ ·) (first : Set α))
    (antis : ∀ s ∈ rest, IsAntichain (· ≤ ·) (s : Set α)) {old : α → Prop}
    (fresh : ∀ s ∈ rest, ∀ m ∈ s, ¬old m) :
    (∀ a, ¬old a → Covers first a → (∀ s ∈ rest, Covers s a) →
      ∃ f ∈ first, f ≤ a ∧ ∀ s ∈ rest, Covers s f) ↔
    ∀ s ∈ rest, ∀ m ∈ s, (∀ t ∈ rest, Covers t m) → ∀ f ∈ first, ¬f < m := by
  constructor
  · intro enough s listed m mem all f mem' less
    obtain ⟨f', mem'', le, covered⟩ := enough m (fresh s listed m mem) ⟨f, mem', less.le⟩ all
    have same : f' = f := by
      rcases chain le less.le with under | above
      · exact anti.eq mem'' mem' under
      · exact (anti.eq mem' mem'' above).symm
    obtain ⟨h, mem''', under⟩ := same ▸ covered s listed
    obtain rfl := (antis s listed).eq mem''' mem (under.trans less.le)
    exact under.not_gt less
  · intro none a _ ⟨f, mem, le⟩ covered
    rcases exists_deepest chain le covered with all | ⟨s, listed, m, mem', less, _, all⟩
    · exact ⟨f, mem, le, all⟩
    · exact absurd less (none s listed m mem' all f mem)

end Meet

end Antichain

import Mathlib.Data.List.Sort
import Mathlib.Data.List.Dedup
import Mathlib.Order.Lex

/-!
# Sorting by a key

A list sorted by a key is a canonical form of the multiset of its elements, as
soon as the key tells the elements apart. The sort is stable insertion sort, so
elements with equal keys keep their order.

## Main definitions

* `sortOn` — stable sort by the value of a key
* `sortedSet` — the elements of a list, each once, in increasing order

## Main results

* `sortOn_eq_of_perm` — rearrangements of a list are sorted alike, for a key injective on the
  elements
* `lookup_perm` — a lookup among distinct keys does not depend on the order
-/

namespace SortOn

variable {α β : Type*} [LinearOrder β]

/-- The list in increasing order of `key`, equal keys in their old order. -/
def sortOn (key : α → β) (l : List α) : List α :=
  l.insertionSort fun a b => key a ≤ key b

variable (key : α → β)

theorem sortOn_perm (l : List α) : (sortOn key l).Perm l :=
  List.perm_insertionSort _ l

@[simp] theorem mem_sortOn {l : List α} {a : α} : a ∈ sortOn key l ↔ a ∈ l :=
  (sortOn_perm key l).mem_iff

@[simp] theorem sortOn_nil : sortOn key ([] : List α) = [] := rfl

theorem pairwise_sortOn (l : List α) : (sortOn key l).Pairwise fun a b => key a ≤ key b := by
  have total : Std.Total fun a b : α => key a ≤ key b := ⟨fun a b => le_total (key a) (key b)⟩
  have trans : IsTrans α fun a b => key a ≤ key b := ⟨fun _ _ _ => le_trans⟩
  exact List.pairwise_insertionSort _ l

/-- Rearranged lists sort alike when the key separates their elements. -/
theorem sortOn_eq_of_perm {l l' : List α}
    (separates : ∀ a ∈ l, ∀ b ∈ l, key a = key b → a = b) (h : l.Perm l') :
    sortOn key l = sortOn key l' := by
  refine List.Perm.eq_of_pairwise ?_ (pairwise_sortOn key l) (pairwise_sortOn key l')
    (((sortOn_perm key l).trans h).trans (sortOn_perm key l').symm)
  intro a b ha hb hab hba
  have hb' : b ∈ l := h.mem_iff.mpr ((mem_sortOn key).mp hb)
  exact separates a ((mem_sortOn key).mp ha) b hb' (le_antisymm hab hba)

theorem sortOn_eq_self {l : List α} (sorted : l.Pairwise fun a b => key a ≤ key b) :
    sortOn key l = l :=
  sorted.insertionSort_eq

@[simp] theorem sortOn_sortOn (l : List α) : sortOn key (sortOn key l) = sortOn key l :=
  sortOn_eq_self key (pairwise_sortOn key l)

/-- Lists that are related element by element, with the same keys, are so in order. -/
theorem forall₂_sortOn {α' : Type*} {key : α → β} {key' : α' → β} {R : α → α' → Prop}
    (keys : ∀ a a', R a a' → key a = key' a') {l : List α} {l' : List α'}
    (related : List.Forall₂ R l l') : List.Forall₂ R (sortOn key l) (sortOn key' l') := by
  induction related with
  | nil => exact .nil
  | @cons a a' l l' head _ ih =>
    change List.Forall₂ R (List.orderedInsert _ a (sortOn key l))
      (List.orderedInsert _ a' (sortOn key' l'))
    generalize sortOn key l = sorted at ih
    generalize sortOn key' l' = sorted' at ih
    induction ih with
    | nil => exact .cons head .nil
    | @cons b b' m m' first rest ih =>
      simp only [List.orderedInsert_cons, keys a a' head, keys b b' first]
      split_ifs
      · exact .cons head (.cons first rest)
      · exact .cons first ih

section Lookup

variable {κ ν : Type*} {l l' : List (κ × ν)}

/-- With distinct keys, what is looked up is listed. -/
theorem lookup_eq_some_iff [DecidableEq κ] (distinct : (l.map Prod.fst).Nodup) {k : κ} {v : ν} :
    l.lookup k = some v ↔ (k, v) ∈ l := by
  induction l with
  | nil => simp
  | cons e l ih =>
    obtain ⟨j, w⟩ := e
    obtain ⟨fresh, distinct⟩ := List.nodup_cons.mp distinct
    by_cases same : k = j
    · subst same
      have other : (k, v) ∉ l := fun mem => fresh (List.mem_map.mpr ⟨_, mem, rfl⟩)
      simp [other, eq_comm]
    · have other : (k == j) = false := beq_false_of_ne same
      simp [List.lookup_cons, other, same, ih distinct]

/-- With distinct keys, a lookup does not depend on the order. -/
theorem lookup_perm [DecidableEq κ] (distinct : (l.map Prod.fst).Nodup) (h : l.Perm l') (k : κ) :
    l.lookup k = l'.lookup k := by
  have distinct' := (h.map Prod.fst).nodup_iff.mp distinct
  ext v
  rw [lookup_eq_some_iff distinct, lookup_eq_some_iff distinct', h.mem_iff]

/-- With distinct keys, the sorted keys increase. -/
theorem pairwise_lt_sortOn [LinearOrder κ] (distinct : (l.map Prod.fst).Nodup) :
    ((sortOn Prod.fst l).map Prod.fst).Pairwise (· < ·) := by
  have distinct' := ((sortOn_perm Prod.fst l).map Prod.fst).nodup_iff.mpr distinct
  exact List.Pairwise.imp₂ (fun _ _ le ne => lt_of_le_of_ne le ne)
    (List.pairwise_map.mpr (pairwise_sortOn Prod.fst l)) distinct'

end Lookup

section SortedSet

variable {α : Type*} [LinearOrder α]

/-- The elements of a list as an ordered set: each once, in increasing order. -/
def sortedSet (l : List α) : List α := sortOn id l.dedup

@[simp] theorem mem_sortedSet {l : List α} {a : α} : a ∈ sortedSet l ↔ a ∈ l := by
  simp [sortedSet]

theorem nodup_sortedSet (l : List α) : (sortedSet l).Nodup :=
  (sortOn_perm id l.dedup).nodup_iff.mpr (List.nodup_dedup l)

theorem sortedSet_eq_of_mem_iff {l l' : List α} (h : ∀ a, a ∈ l ↔ a ∈ l') :
    sortedSet l = sortedSet l' := by
  refine sortOn_eq_of_perm id (fun _ _ _ _ => id) ?_
  exact (List.perm_ext_iff_of_nodup (List.nodup_dedup l) (List.nodup_dedup l')).mpr
    fun a => by simp [h a]

end SortedSet

end SortOn

import Mathlib.Data.List.Nodup

/-!
# Lists of owned elements

A list whose elements each have an owner is read owner by owner: the elements of
one owner are a filter of the list. Replacing the elements of one owner changes what
is read for that owner only.

## Main definitions

* `replaceOwned` — drop the elements of one owner and append others

## Main results

* `filter_replaceOwned_self`, `filter_replaceOwned_of_ne` — what is read after replacing
* `perm_of_filter_perm` — what all owners read determines a list
* `take_filter_of_nodup` — where no owner has two elements, the first is all there is
-/

namespace Owned

variable {α κ : Type*} [BEq κ] [LawfulBEq κ] (owner : α → κ) {k j : κ} {l new : List α}

/-- Drop the elements of one owner and append others. -/
def replaceOwned (k : κ) (l new : List α) : List α := l.filter (owner · != k) ++ new

theorem filter_replaceOwned_self (owned : ∀ a ∈ new, owner a = k) :
    (replaceOwned owner k l new).filter (owner · == k) = new := by
  have dropped : (l.filter (owner · != k)).filter (owner · == k) = [] := by
    simp [List.filter_filter]
  have kept : new.filter (owner · == k) = new :=
    List.filter_eq_self.mpr fun a ha => by simpa using owned a ha
  rw [replaceOwned, List.filter_append, dropped, kept, List.nil_append]

theorem filter_replaceOwned_of_ne (owned : ∀ a ∈ new, owner a = k) (differs : k ≠ j) :
    (replaceOwned owner k l new).filter (owner · == j) = l.filter (owner · == j) := by
  have kept : (l.filter (owner · != k)).filter (owner · == j) = l.filter (owner · == j) := by
    rw [List.filter_filter]
    refine List.filter_congr fun a _ => ?_
    by_cases h : owner a = j <;> simp [h, Ne.symm differs]
  have none_new : new.filter (owner · == j) = [] :=
    List.filter_eq_nil_iff.mpr fun a ha => by simpa [owned a ha] using differs
  rw [replaceOwned, List.filter_append, kept, none_new, List.append_nil]

theorem nodup_replaceOwned (distinct : (l.map owner).Nodup) (owned : ∀ a ∈ new, owner a = k)
    (single : (new.map owner).Nodup) : ((replaceOwned owner k l new).map owner).Nodup := by
  rw [replaceOwned, List.map_append, List.nodup_append]
  refine ⟨distinct.sublist (List.filter_sublist.map owner), single, ?_⟩
  intro a ha b hb same
  obtain ⟨x, hx, rfl⟩ := List.mem_map.mp ha
  obtain ⟨y, hy, rfl⟩ := List.mem_map.mp hb
  have other : owner x ≠ k := by simpa using (List.mem_filter.mp hx).2
  exact other (same.trans (owned y hy))

/-- Lists which every owner reads alike are permutations of each other. -/
theorem perm_of_filter_perm [DecidableEq α] {l' : List α}
    (alike : ∀ k, (l.filter (owner · == k)).Perm (l'.filter (owner · == k))) : l.Perm l' := by
  refine List.perm_iff_count.mpr fun a => ?_
  have counts := List.perm_iff_count.mp (alike (owner a)) a
  rwa [List.count_filter (by simp), List.count_filter (by simp)] at counts

/-- Where every owner has one element at most, an element is the first of its owner. -/
theorem find?_eq_some_iff_mem (distinct : (l.map owner).Nodup) (a : α) :
    l.find? (owner · == owner a) = some a ↔ a ∈ l := by
  constructor
  · exact fun found => List.mem_of_find?_eq_some found
  · intro ha
    obtain ⟨b, found⟩ : ∃ b, l.find? (owner · == owner a) = some b := by
      refine Option.isSome_iff_exists.mp (List.find?_isSome.mpr ⟨a, ha, by simp⟩)
    have same : owner b = owner a := by simpa using List.find?_some found
    rw [found, List.inj_on_of_nodup_map distinct (List.mem_of_find?_eq_some found) ha same]

/-- Where every owner has one element at most, the first element of an owner is its element. -/
theorem find?_eq_some_iff (distinct : (l.map owner).Nodup) {a : α} :
    l.find? (owner · == k) = some a ↔ a ∈ l ∧ owner a = k := by
  constructor
  · exact fun found => ⟨List.mem_of_find?_eq_some found, by simpa using List.find?_some found⟩
  · rintro ⟨listed, rfl⟩
    exact (find?_eq_some_iff_mem owner distinct a).mpr listed

/-- Where every owner has one element at most, the first one is all there is. -/
theorem take_filter_of_nodup (distinct : (l.map owner).Nodup) :
    (l.filter (owner · == k)).take 1 = l.filter (owner · == k) := by
  refine List.take_of_length_le ?_
  have single : ((l.filter (owner · == k)).map owner).Nodup :=
    distinct.sublist (List.filter_sublist.map owner)
  have same : (l.filter (owner · == k)).map owner =
      List.replicate (l.filter (owner · == k)).length k := by
    refine List.eq_replicate_iff.mpr ⟨List.length_map .., fun j mem => ?_⟩
    obtain ⟨a, listed, rfl⟩ := List.mem_map.mp mem
    exact eq_of_beq (List.mem_filter.mp listed).2
  rw [same] at single
  exact List.nodup_replicate.mp single

end Owned

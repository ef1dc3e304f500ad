import Mathlib.Order.Basic
import Mathlib.Data.List.Basic
import Mathlib.Order.Lattice

/-!
# Ordered maps

A finite map kept as the list of its entries in increasing order of key. The
order is carried by the value, so two maps with the same bindings are equal.

## Main definitions

* `SortedMap` — entries with strictly increasing keys
* `SortedMap.insert`, `SortedMap.erase`, `SortedMap.get?`, `SortedMap.contains`

## Main results

* `SortedMap.pairwise_insertEntry` — insertion keeps the entries in order
* `SortedMap.foldl_insert_entries` — a map is made of its entries
-/

/-- A finite map: its entries, with strictly increasing keys. -/
structure SortedMap (κ ν : Type*) [LinearOrder κ] where
  entries : List (κ × ν)
  sorted : entries.Pairwise fun a b => a.1 < b.1

namespace SortedMap

variable {κ ν : Type*} [LinearOrder κ] {m m' : SortedMap κ ν} {k j : κ} {v : ν}

@[ext] theorem ext (h : m.entries = m'.entries) : m = m' := by
  cases m; cases m'; congr

instance [DecidableEq ν] : DecidableEq (SortedMap κ ν) := fun m m' =>
  decidable_of_iff (m.entries = m'.entries) ⟨ext, fun h => h ▸ rfl⟩

/-- The map with no entries. -/
def empty : SortedMap κ ν := ⟨[], List.Pairwise.nil⟩

instance : EmptyCollection (SortedMap κ ν) := ⟨empty⟩
instance : Inhabited (SortedMap κ ν) := ⟨empty⟩

/-- The value bound to a key. -/
def get? (m : SortedMap κ ν) (k : κ) : Option ν := m.entries.lookup k

/-- Whether a key is bound. -/
def contains (m : SortedMap κ ν) (k : κ) : Bool := (m.get? k).isSome

/-- Insertion into a list of entries ordered by key. -/
def insertEntry (k : κ) (v : ν) : List (κ × ν) → List (κ × ν)
  | [] => [(k, v)]
  | e :: rest =>
    if k < e.1 then (k, v) :: e :: rest
    else if k = e.1 then (k, v) :: rest
    else e :: insertEntry k v rest

theorem mem_insertEntry {l : List (κ × ν)} {e : κ × ν} (h : e ∈ insertEntry k v l) :
    e = (k, v) ∨ e ∈ l := by
  induction l with
  | nil => simpa [insertEntry] using h
  | cons e' rest ih =>
    simp only [insertEntry] at h
    split_ifs at h with hlt heq
    · simpa using h
    · rcases List.mem_cons.mp h with h | h
      · exact Or.inl h
      · exact Or.inr (List.mem_cons_of_mem _ h)
    · rcases List.mem_cons.mp h with h | h
      · exact Or.inr (h ▸ List.mem_cons_self)
      · exact (ih h).imp_right (List.mem_cons_of_mem _)

theorem pairwise_insertEntry {l : List (κ × ν)} (sorted : l.Pairwise fun a b => a.1 < b.1) :
    (insertEntry k v l).Pairwise fun a b => a.1 < b.1 := by
  induction l with
  | nil => simp [insertEntry]
  | cons e rest ih =>
    obtain ⟨below, sorted'⟩ := List.pairwise_cons.mp sorted
    simp only [insertEntry]
    split_ifs with hlt heq
    · refine List.pairwise_cons.mpr ⟨?_, sorted⟩
      intro b hb
      rcases List.mem_cons.mp hb with rfl | hb
      · exact hlt
      · exact hlt.trans (below b hb)
    · exact List.pairwise_cons.mpr ⟨fun b hb => by simpa [heq] using below b hb, sorted'⟩
    · refine List.pairwise_cons.mpr ⟨?_, ih sorted'⟩
      intro b hb
      rcases mem_insertEntry hb with rfl | hb
      · exact lt_of_le_of_ne (not_lt.mp hlt) (Ne.symm heq)
      · exact below b hb

/-- Bind a key, replacing the value it had. -/
def insert (m : SortedMap κ ν) (k : κ) (v : ν) : SortedMap κ ν :=
  ⟨insertEntry k v m.entries, pairwise_insertEntry m.sorted⟩

/-- Unbind a key. -/
def erase (m : SortedMap κ ν) (k : κ) : SortedMap κ ν :=
  ⟨m.entries.filter fun e => e.1 ≠ k, m.sorted.filter _⟩

/-- A key beyond all others is bound last. -/
theorem insertEntry_of_forall_lt {l : List (κ × ν)} (below : ∀ e ∈ l, e.1 < k) :
    insertEntry k v l = l ++ [(k, v)] := by
  induction l with
  | nil => rfl
  | cons e rest ih =>
    have before := below e List.mem_cons_self
    rw [insertEntry, if_neg (not_lt_of_gt before), if_neg (ne_of_gt before),
      ih fun e he => below e (List.mem_cons_of_mem _ he), List.cons_append]

/-- Binding the entries of an ordered list beyond those of a map appends them. -/
theorem entries_foldl_insert {l : List (κ × ν)}
    (sorted : (m.entries ++ l).Pairwise fun a b => a.1 < b.1) :
    (l.foldl (fun m e => m.insert e.1 e.2) m).entries = m.entries ++ l := by
  induction l generalizing m with
  | nil => simp
  | cons e l ih =>
    have below : ∀ b ∈ m.entries, b.1 < e.1 := fun b hb =>
      (List.pairwise_append.mp sorted).2.2 b hb e List.mem_cons_self
    have appended : (m.insert e.1 e.2).entries = m.entries ++ [e] := insertEntry_of_forall_lt below
    have step := @ih (m.insert e.1 e.2) (by simpa [appended] using sorted)
    rw [List.foldl_cons, step, appended, List.append_assoc, List.singleton_append]

/-- The entries of a map make the map. -/
theorem foldl_insert_entries (m : SortedMap κ ν) :
    m.entries.foldl (fun m e => m.insert e.1 e.2) ∅ = m := by
  refine ext ((entries_foldl_insert ?_).trans (List.nil_append _))
  exact m.sorted

end SortedMap

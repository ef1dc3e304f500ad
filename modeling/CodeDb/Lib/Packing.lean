import Mathlib.Algebra.BigOperators.Group.List.Basic
import Mathlib.Data.Finset.Card
import Mathlib.Data.Finset.Range
import Mathlib.Data.List.Pairwise
import Mathlib.Algebra.Ring.Nat

/-!
# Packing

Extents of some width on a line. Extents that do not overlap and lie between two bounds have
no more width together than there is between the bounds. Conversely extents that are put one
after the other do not overlap, are aligned if their widths are, and end where their widths
add up to. What lies upwards from an origin may also be laid downwards from it.

## Main definitions

* `Extent` — a start and a width
* `pack` — extents of given widths, one after the other
* `Extent.reflect` — an extent as far below the origin as it was above

## Main results

* `Extent.sum_width_le` — extents that are apart do not have more room than there is
* `pairwise_apart_pack`, `dvd_start_of_mem_pack`, `within_of_mem_pack` — packed extents
-/

namespace Packing

structure Extent where
  start : Int
  width : Nat
  deriving DecidableEq, Repr

namespace Extent

variable {a b : Extent} {low high : Int}

/-- Where an extent ends. -/
def stop (a : Extent) : Int := a.start + a.width

/-- One of two extents ends before the other one starts. -/
def Apart (a b : Extent) : Prop := a.stop ≤ b.start ∨ b.stop ≤ a.start

/-- An extent between two bounds. -/
def Within (low high : Int) (a : Extent) : Prop := low ≤ a.start ∧ a.stop ≤ high

instance : Decidable (a.Apart b) := inferInstanceAs (Decidable (_ ∨ _))

instance : Decidable (a.Within low high) := inferInstanceAs (Decidable (_ ∧ _))

/-- The places of an extent. -/
def places (a : Extent) : Finset Int :=
  (Finset.range a.width).image fun i : Nat => a.start + i

theorem mem_places {place : Int} : place ∈ a.places ↔ a.start ≤ place ∧ place < a.stop := by
  rw [places, Finset.mem_image, stop]
  constructor
  · rintro ⟨i, inside, rfl⟩
    rw [Finset.mem_range] at inside
    omega
  · intro inside
    refine ⟨(place - a.start).toNat, ?_, ?_⟩
    · rw [Finset.mem_range]
      omega
    · omega

theorem card_places (a : Extent) : a.places.card = a.width := by
  have injective : Function.Injective fun i : Nat => a.start + i := by
    intro i j same
    simp only at same
    omega
  rw [places, Finset.card_image_of_injective _ injective, Finset.card_range]

theorem Apart.disjoint (apart : a.Apart b) : Disjoint a.places b.places := by
  rw [Finset.disjoint_left]
  intro place left right
  rw [mem_places] at left right
  rcases apart with before | after
  · omega
  · omega

/-- All that lies between two bounds. -/
def room (low high : Int) : Extent := ⟨low, (high - low).toNat⟩

theorem Within.places_subset (within : a.Within low high) : a.places ⊆ (room low high).places := by
  intro place listed
  rw [mem_places] at listed ⊢
  obtain ⟨least, last⟩ := within
  change low ≤ place ∧ place < low + (high - low).toNat
  omega

/-- The places of some extents. -/
def covered (l : List Extent) : Finset Int := l.foldr (fun a places => a.places ∪ places) ∅

theorem disjoint_covered {l : List Extent} (apart : ∀ b ∈ l, a.Apart b) :
    Disjoint a.places (covered l) := by
  induction l with
  | nil => exact Finset.disjoint_empty_right _
  | cons b l ih =>
    obtain ⟨head, tail⟩ := List.forall_mem_cons.mp apart
    exact Finset.disjoint_union_right.mpr ⟨head.disjoint, ih tail⟩

theorem card_covered {l : List Extent} (apart : l.Pairwise Apart) :
    (covered l).card = (l.map width).sum := by
  induction l with
  | nil => rfl
  | cons a l ih =>
    obtain ⟨head, tail⟩ := List.pairwise_cons.mp apart
    rw [covered, List.foldr_cons, ← covered, Finset.card_union_of_disjoint (disjoint_covered head),
      card_places, ih tail, List.map_cons, List.sum_cons]

theorem covered_subset {l : List Extent} (within : ∀ a ∈ l, a.Within low high) :
    covered l ⊆ (room low high).places := by
  induction l with
  | nil => exact Finset.empty_subset _
  | cons a l ih =>
    obtain ⟨head, tail⟩ := List.forall_mem_cons.mp within
    exact Finset.union_subset head.places_subset (ih tail)

/-- Extents that do not overlap have no more width together than there is room for. -/
theorem sum_width_le {l : List Extent} (apart : l.Pairwise Apart)
    (within : ∀ a ∈ l, a.Within low high) : (l.map width).sum ≤ (high - low).toNat := by
  rw [← card_covered apart]
  exact (Finset.card_le_card (covered_subset within)).trans_eq (card_places _)

/-- An extent as far below the origin as it was above. -/
def reflect (a : Extent) : Extent := ⟨-a.stop, a.width⟩

@[simp] theorem width_reflect (a : Extent) : a.reflect.width = a.width := rfl

@[simp] theorem start_reflect (a : Extent) : a.reflect.start = -a.stop := rfl

@[simp] theorem stop_reflect (a : Extent) : a.reflect.stop = -a.start := by
  rw [stop, start_reflect, width_reflect, stop]
  omega

theorem Apart.reflect (apart : a.Apart b) : a.reflect.Apart b.reflect := by
  rw [Apart] at apart ⊢
  rw [stop_reflect, stop_reflect, start_reflect, start_reflect]
  omega

theorem Within.reflect (within : a.Within low high) : a.reflect.Within (-high) (-low) := by
  rw [Within] at within ⊢
  rw [stop_reflect, start_reflect]
  omega

end Extent

/-- Extents of given widths, one after the other. -/
def pack : Nat → List Nat → List Extent
  | _, [] => []
  | place, width :: widths => ⟨place, width⟩ :: pack (place + width) widths

variable {place n : Nat} {widths : List Nat}

theorem map_width_pack (place : Nat) (widths : List Nat) :
    (pack place widths).map Extent.width = widths := by
  induction widths generalizing place with
  | nil => rfl
  | cons width widths ih => rw [pack, List.map_cons, ih]

theorem width_mem_of_mem_pack {a : Extent} (listed : a ∈ pack place widths) :
    a.width ∈ widths := by
  rw [← map_width_pack place widths]
  exact List.mem_map_of_mem listed

theorem pack_append (place : Nat) (widths others : List Nat) :
    pack place (widths ++ others) = pack place widths ++ pack (place + widths.sum) others := by
  induction widths generalizing place with
  | nil => rfl
  | cons width widths ih =>
    rw [List.cons_append, pack, pack, ih, List.sum_cons, List.cons_append, Nat.add_assoc]

theorem within_of_mem_pack {a : Extent} (listed : a ∈ pack place widths) :
    a.Within place (place + widths.sum : Nat) := by
  induction widths generalizing place with
  | nil => cases listed
  | cons width widths ih =>
    rw [List.sum_cons]
    rcases List.mem_cons.mp listed with rfl | later
    · have within : place + width ≤ place + (width + widths.sum) := by omega
      exact ⟨Int.le_refl _, Int.ofNat_le.mpr within⟩
    · obtain ⟨least, last⟩ := ih later
      exact ⟨(Int.ofNat_le.mpr (Nat.le_add_right ..)).trans least,
        last.trans (Int.ofNat_le.mpr (by omega))⟩

theorem pairwise_apart_pack (place : Nat) (widths : List Nat) :
    (pack place widths).Pairwise Extent.Apart := by
  induction widths generalizing place with
  | nil => exact List.Pairwise.nil
  | cons width widths ih =>
    refine List.pairwise_cons.mpr ⟨?_, ih _⟩
    intro later listed
    have within := (within_of_mem_pack listed).1
    left
    rw [Extent.stop]
    push_cast at within
    exact within

/-- Extents of aligned widths are aligned. -/
theorem dvd_start_of_mem_pack (start : n ∣ place) (aligned : ∀ width ∈ widths, n ∣ width)
    {a : Extent} (listed : a ∈ pack place widths) : (n : Int) ∣ a.start := by
  induction widths generalizing place with
  | nil => cases listed
  | cons width widths ih =>
    obtain ⟨head, tail⟩ := List.forall_mem_cons.mp aligned
    rcases List.mem_cons.mp listed with rfl | later
    · exact Int.natCast_dvd_natCast.mpr start
    · exact ih (Nat.dvd_add start head) tail later

end Packing

import Mathlib.Algebra.Order.Group.Nat
import Mathlib.Data.List.Basic

/-!
# Alignment

Places that are multiples of an alignment, and parts that are put one after the other, each
at the first place that is aligned for it.

## Main definitions

* `roundUp` — the first multiple of an alignment from some place on
* `packedEnd` — where parts of given sizes and alignments end

## Main results

* `le_roundUp`, `dvd_roundUp` — it is aligned, and not before the place
* `packedEnd_append_singleton` — one more part
-/

namespace Alignment

variable {place align : Nat}

/-- The first multiple of an alignment from a place on. -/
def roundUp (place align : Nat) : Nat := (place + (align - 1)) / align * align

theorem dvd_roundUp (place align : Nat) : align ∣ roundUp place align := Nat.dvd_mul_left ..

/-- Rounding goes up by less than the alignment. -/
theorem roundUp_le_add (place align : Nat) : roundUp place align ≤ place + (align - 1) :=
  Nat.div_mul_le_self ..

theorem le_roundUp (positive : 0 < align) : place ≤ roundUp place align := by
  have split := Nat.div_add_mod' (place + (align - 1)) align
  have rest := Nat.mod_lt (place + (align - 1)) positive
  rw [roundUp]
  omega

/-- Where parts of given sizes and alignments end, one after the other. -/
def packedEnd (parts : List (Nat × Nat)) : Nat :=
  parts.foldl (fun last part => roundUp last part.2 + part.1) 0

theorem packedEnd_append_singleton (parts : List (Nat × Nat)) (size align : Nat) :
    packedEnd (parts ++ [(size, align)]) = roundUp (packedEnd parts) align + size := by
  simp [packedEnd, List.foldl_append]

end Alignment

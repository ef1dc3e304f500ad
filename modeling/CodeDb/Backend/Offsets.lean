import CodeDb.Backend.StackLayout
import CodeDb.Lib.Alignment
import CodeDb.Lib.Packing

/-!
# Arithmetic of offsets

Offsets are calculated in 32 bits. They wrap, so an offset is the number that it should be
only if the slot ends below the limit of the target. A slot that is laid out upwards on one
target is laid out downwards on the other.

## Main definitions

* `NativeTarget.laid` — an extent, where a target computes it to be
* `NativeTarget.orient` — where it should be

## Main results

* `NativeTarget.laid_eq_orient`, `NativeTarget.number_roundFrame` — below the limit they agree
* `NativeTarget.dvd_number_roundFrame`, `NativeTarget.number_lt` — what holds of every size
-/

namespace CodeDb

open Alignment Packing

namespace NativeTarget

variable {target : NativeTarget}

theorem sizeFrom_eq_ok {size : UInt64} {word : Word32} (fits : target.sizeFrom size = .ok word) :
    size.toNat < target.sizeLimit ∧ word = .ofNat 32 size.toNat := by
  rw [sizeFrom] at fits
  split at fits
  next small => exact ⟨small, (Except.ok.inj fits).symm⟩
  next => cases fits

theorem toNat_ofNat_small {n : Nat} (small : n < 2 ^ 32) : (BitVec.ofNat 32 n).toNat = n := by
  rw [BitVec.toNat_ofNat, Nat.mod_eq_of_lt small]

theorem toInt_ofNat_small {n : Nat} (small : n < 2 ^ 31) : (BitVec.ofNat 32 n).toInt = n := by
  have same := @toNat_ofNat_small n (by omega)
  rw [BitVec.toInt_eq_toNat_of_lt (by omega), same]

/-- Numbers without a sign are divided as such. -/
theorem sdiv_ofNat {m n : Nat} (left : m < 2 ^ 31) (right : n < 2 ^ 31) :
    (BitVec.ofNat 32 m).sdiv (.ofNat 32 n) = .ofNat 32 (m / n) := by
  have positive {k : Nat} (small : k < 2 ^ 31) : (BitVec.ofNat 32 k).msb = false := by
    rw [BitVec.msb_eq_false_iff_two_mul_lt, toNat_ofNat_small (by omega)]
    omega
  have bound : m / n ≤ m := Nat.div_le_self ..
  apply BitVec.eq_of_toNat_eq
  rw [BitVec.sdiv_eq, positive left, positive right]
  change (BitVec.ofNat 32 m / .ofNat 32 n).toNat = _
  rw [BitVec.toNat_udiv, toNat_ofNat_small (by omega), toNat_ofNat_small (by omega),
    toNat_ofNat_small (by omega)]

/-- The size of a slot wraps at 64 bits, which is not seen in 32. -/
theorem ofNat_nativeStackSlotSizeBytes (size : UInt64) :
    BitVec.ofNat 32 (nativeStackSlotSizeBytes size).toNat =
      BitVec.ofNat 32 (roundUp (max size.toNat 1) 8) := by
  have least : (max size 1).toNat = max size.toNat 1 := by
    change (if size ≤ 1 then 1 else size).toNat = _
    rw [max_def]
    have : size ≤ 1 ↔ size.toNat ≤ 1 := UInt64.le_iff_toNat_le
    simp only [this]
    split <;> rfl
  have eighths : (nativeStackSlotSizeBytes size).toNat = roundUp (max size.toNat 1) 8 % 2 ^ 64 := by
    rw [nativeStackSlotSizeBytes, roundUp]
    simp only [UInt64.toNat_mul, UInt64.toNat_add, UInt64.toNat_div, least]
    split
    next rest => 
      have rest : 0 < max size.toNat 1 % 8 := by
        have := UInt64.lt_iff_toNat_lt.mp rest
        rwa [UInt64.toNat_mod, least] at this
      simp
      omega
    next rest =>
      have rest : ¬ 0 < max size.toNat 1 % 8 := by
        intro h
        apply rest
        rw [UInt64.lt_iff_toNat_lt, UInt64.toNat_mod, least]
        exact h
      simp
      omega
  rw [eighths]
  apply BitVec.eq_of_toNat_eq
  rw [BitVec.toNat_ofNat, BitVec.toNat_ofNat]
  omega

/-- A local that is a multiple of eight is not rounded. -/
theorem roundLocal_ofNat {size : Nat} (aligned : 8 ∣ size) (small : size < target.sizeLimit) :
    target.roundLocal (.ofNat 32 size) = .ofNat 32 size := by
  obtain ⟨n, rfl⟩ := aligned
  cases target with
  | x86_64 =>
    rw [sizeLimit] at small
    apply BitVec.eq_of_toNat_eq
    have rounded : (BitVec.ofNat 32 (8 * n) + 7).sdiv 8 = .ofNat 32 ((8 * n + 7) / 8) := by
      rw [← sdiv_ofNat (by omega) (by decide), BitVec.ofNat_add]
      rfl
    rw [roundLocal, rounded]
    simp
    omega
  | arm64 =>
    rw [sizeLimit] at small
    apply BitVec.eq_of_toNat_eq
    have whole : ¬ 0 < BitVec.ofNat 32 (8 * n) % 8 := by
      rw [BitVec.lt_def]
      simp
    rw [roundLocal, if_neg whole]
    simp
    omega

/-- A frame is rounded to sixteens, if there is room for that. -/
theorem number_roundFrame {size : Nat} (aligned : 8 ∣ size)
    (small : roundUp size 16 < target.sizeLimit) :
    target.number (target.roundFrame (.ofNat 32 size)) = roundUp size 16 := by
  obtain ⟨n, rfl⟩ := aligned
  rw [roundUp] at small
  -- x86-64 divides as signed numbers are, arm64 as unsigned ones are
  cases target with
  | x86_64 =>
    rw [sizeLimit] at small
    rw [roundFrame, number, roundUp]
    split
    next empty =>
      have := congrArg BitVec.toNat empty
      simp at this
      simp
      omega
    next =>
      have rounded : (BitVec.ofNat 32 (8 * n) + 15).sdiv 16 * 16 =
          BitVec.ofNat 32 ((8 * n + 15) / 16 * 16) := by
        rw [BitVec.ofNat_mul ((8 * n + 15) / 16), ← sdiv_ofNat (by omega) (by decide),
          BitVec.ofNat_add (8 * n)]
        rfl
      rw [rounded, toInt_ofNat_small small]
  | arm64 =>
    rw [sizeLimit] at small
    rw [roundFrame, number, roundUp]
    split
    next empty =>
      have := congrArg BitVec.toNat empty
      simp at this
      simp
      omega
    next =>
      congr 1
      split
      next rest =>
        rw [BitVec.lt_def] at rest
        simp at rest ⊢
        omega
      next rest =>
        rw [BitVec.lt_def] at rest
        simp at rest ⊢
        omega

theorem dvd_number_roundFrame (word : Word32) : 16 ∣ target.number (target.roundFrame word) := by
  cases target with
  | x86_64 =>
    rw [roundFrame, number]
    split
    · exact Int.dvd_zero _
    · rw [BitVec.toInt_mul, Int.bmod_def]
      simp
      split <;> omega
  | arm64 =>
    rw [roundFrame, number]
    split
    · exact Int.dvd_zero _
    · rw [BitVec.toNat_mul]
      simp
      omega

theorem number_lt (word : Word32) : target.number word < target.sizeLimit := by
  cases target with
  | x86_64 => 
    have := word.toInt_lt
    simp [number, sizeLimit] at this ⊢
    omega
  | arm64 => exact Int.ofNat_lt.mpr word.isLt

/-- An extent above the origin, where a target lays it. -/
def orient : NativeTarget → Extent → Extent
  | x86_64, slot => slot.reflect
  | arm64, slot => slot

/-- An extent, where a target computes it to be. -/
def laid (target : NativeTarget) (slot : Extent) : Extent :=
  ⟨target.number (target.offset (.ofNat 32 slot.start.toNat) (.ofNat 32 slot.width)), slot.width⟩

/-- It is where it should be, if it ends below the limit. -/
theorem laid_eq_orient {slot : Extent} {size : Nat} (within : slot.Within 0 size)
    (small : size < target.sizeLimit) : target.laid slot = target.orient slot := by
  obtain ⟨start, width⟩ := slot
  obtain ⟨least, last⟩ := within
  obtain ⟨n, rfl⟩ := Int.eq_ofNat_of_zero_le least
  have last : n + width ≤ size := Int.ofNat_le.mp last
  cases target with
  | x86_64 =>
    have below : n + width < 2 ^ 31 := last.trans_lt small
    have negated : (-(BitVec.ofNat 32 n + BitVec.ofNat 32 width)).toInt =
        -((n + width : Nat) : Int) := by
      rw [← BitVec.ofNat_add, BitVec.toInt_neg, toInt_ofNat_small below]
      exact Int.bmod_eq_of_le (by omega) (by omega)
    exact congrArg (Extent.mk · width) negated
  | arm64 =>
    have below : n < 2 ^ 32 := (Nat.le_add_right n width).trans_lt (last.trans_lt small)
    exact congrArg (Extent.mk · width) (congrArg Int.ofNat (toNat_ofNat_small below))

end NativeTarget

end CodeDb

import CodeDb.SelfHosted.Platform
import CodeDb.Store.Hashing

/-!
# Numbers as text

The standard library of the language formats a number by pushing its digits onto a string. It
works with negative numbers throughout, since the least number has no positive counterpart.

## Main definitions

* `i64ToString` — the text of a number

## Main results

* `pushNegDigits_eq` — the digits of a number are pushed
* `i64ToString_eq` — a number that is not negative is formatted in decimal
-/

namespace CodeDb

namespace SelfHosted

def zeroByte : UInt8 := 0x30

def minusByte : UInt8 := 0x2d

def digitByte (d : I64) : UInt8 := toU8 (toI64 zeroByte + d)

theorem sle_neg_ten (n : I64) : n.sle (0 - 10) = decide (n.toInt ≤ -10) := by
  have bound : (0 - 10 : I64).toInt = -10 := by decide
  rw [BitVec.sle_eq_decide, bound]

theorem toInt_sdiv_ten (n : I64) : (n.sdiv 10).toInt = n.toInt.tdiv 10 := by
  have ten : (10 : I64).toInt = 10 := by decide
  rw [BitVec.toInt_sdiv_of_ne_or_ne _ _ (.inr (by decide)), ten]

def pushNegDigits (s : Buffer) (n : I64) : Run Buffer := do
  let next ← if more : n.sle (0 - 10) then
      have _smaller : (n.sdiv 10).toInt.natAbs < n.toInt.natAbs := by
        rw [sle_neg_ten, decide_eq_true_eq] at more
        rw [toInt_sdiv_ten, Int.natAbs_tdiv]
        change n.toInt.natAbs / 10 < n.toInt.natAbs
        omega
      pushNegDigits s (n.sdiv 10)
    else pure s
  next.push (digitByte (0 - n.srem 10))
termination_by n.toInt.natAbs

def i64ToString (n : I64) : Run Buffer :=
  if n == 0 then do
    let s ← Buffer.withCapacity 1
    s.push zeroByte
  else if n.slt 0 then do
    let s ← Buffer.withCapacity 20
    let s ← s.push minusByte
    pushNegDigits s n
  else do
    let s ← Buffer.withCapacity 20
    pushNegDigits s (0 - n)

/-- The last digit of a number. -/
theorem digitByte_srem {n : I64} {k : Nat} (value : n.toInt = -k) :
    [digitByte (0 - n.srem 10)] = utf8 (.singleton (k % 10).digitChar) := by
  have digits : ∀ d : Nat, d < 10 → [digitByte (0 - BitVec.ofInt 64 (-(d : Int)))] =
      utf8 (.singleton d.digitChar) := by decide
  have ten : (10 : I64).toInt = 10 := by decide
  have last : n.srem 10 = BitVec.ofInt 64 (-((k % 10 : Nat) : Int)) := by
    apply BitVec.eq_of_toInt_eq
    have small : k % 10 < 10 := Nat.mod_lt k (by decide)
    rw [BitVec.toInt_srem, ten, value, Int.neg_tmod, BitVec.toInt_ofInt,
      Int.bmod_eq_of_le (by omega) (by omega)]
    rfl
  rw [last]
  exact digits _ (Nat.mod_lt k (by decide))

/-- The digits of a number are pushed, or there is no room for them. -/
theorem pushNegDigits_eq (s : Buffer) (k : Nat) {n : I64} (value : n.toInt = -k) :
    pushNegDigits s n = s.append (utf8 k.repr) := by
  induction k using Nat.strongRecOn generalizing n with
  | ind k ih =>
    have last := digitByte_srem value
    rw [pushNegDigits]
    by_cases more : 10 ≤ k
    · have many : n.sle (0 - 10) = true := by
        rw [sle_neg_ten, decide_eq_true_eq]
        omega
      have rest : (n.sdiv 10).toInt = -((k / 10 : Nat) : Int) := by
        rw [toInt_sdiv_ten, value, Int.neg_tdiv]
        rfl
      rw [dif_pos many, ih (k / 10) (by omega) rest, Nat.repr_of_ge more, utf8_append, ← last]
      exact s.append_append _ _
    · have few : ¬ n.sle (0 - 10) = true := by
        rw [sle_neg_ten, decide_eq_true_eq]
        omega
      rw [dif_neg few, pure_bind]
      change s.append [digitByte (0 - n.srem 10)] = _
      rw [last, Nat.mod_eq_of_lt (by omega), Nat.repr_of_lt (by omega)]

/-- Digits take a byte each. -/
theorem length_utf8_repr (k : Nat) : (utf8 k.repr).length = k.repr.length := by
  have ascii : ∀ c ∈ Nat.toDigits 10 k, c.toNat < 128 := by
    intro c listed
    have digit := Nat.isDigit_of_mem_toDigits (by decide) (by decide) listed
    rw [Char.isDigit_iff_toNat] at digit
    exact Nat.lt_of_le_of_lt digit.2 (by decide)
  rw [Nat.repr_eq_ofList_toDigits, utf8_ofList, Utf8.encode_ascii ascii, List.length_map,
    String.length_ofList]

/-- A number that is not negative is formatted in decimal. -/
theorem i64ToString_eq {k : Nat} (small : k < 2 ^ 63) :
    ∃ s : Buffer, i64ToString (BitVec.ofNat 64 k) = .ok s ∧ s.bytes = utf8 (toString k) ∧
      s.bytes.length ≤ 20 := by
  have digits := length_utf8_repr k
  have few : k.repr.length ≤ 20 := by
    rw [Nat.length_repr_le_iff (by decide)]
    omega
  rw [i64ToString]
  by_cases zero : k = 0
  · subst zero
    exact ⟨{ bytes := [0x30], capacity := 1, fits := by decide, sized := by decide }, rfl,
      by decide, by decide⟩
  · have other : (BitVec.ofNat 64 k == 0) = false := by
      rw [beq_eq_false_iff_ne]
      intro same
      have same := congrArg BitVec.toNat same
      rw [toNat_ofNat small] at same
      exact zero same
    have positive : (BitVec.ofNat 64 k).slt 0 = false :=
      (slt_ofNat small (by decide)).trans (decide_eq_false (Nat.not_lt_zero k))
    have value : (0 - BitVec.ofNat 64 k).toInt = -k := by
      have none : (0 : I64).toInt = 0 := by decide
      rw [BitVec.toInt_sub, none, toInt_ofNat small, Int.bmod_eq_of_le (by omega) (by omega),
        Int.zero_sub]
    let start : Buffer := { bytes := [], capacity := 20, fits := by decide, sized := by decide }
    have created : Buffer.withCapacity 20 = .ok start := rfl
    obtain ⟨s, appended, bytes, -⟩ := start.append_ok (l := utf8 k.repr) (by
      rw [digits]
      exact Nat.le_trans (Nat.le_of_eq (Nat.zero_add _)) few)
    have text : s.bytes = utf8 k.repr := bytes
    refine ⟨s, ?_, text, by rw [text, digits]; exact few⟩
    rw [other, positive, created]
    exact (pushNegDigits_eq start k value).trans appended

end SelfHosted

end CodeDb

import Mathlib.Tactic.Ring
import CodeDb.SelfHosted.Format

/-!
# Numbers from text

The standard library reads a number digit by digit into an accumulator that stays negative.
A byte that is no digit turns the accumulator positive, and the caller takes a positive
accumulator for no number at all. So would be a magnitude that does not fit, if it wrapped to
a positive number: but it may also wrap around again, to a number that is negative or zero.

## Main definitions

* `parseNegFrom`, `stringToI64` — the number of a text
* `spelled` — the number that a text spells
* `Unnoticed` — a magnitude that does not fit, and wraps to a negative number

## Main results

* `parseNegFrom_eq` — what the accumulator is in the end
* `i64ToString_text` — every number is formatted in decimal
* `stringToI64_eq_spelled_iff` — numbers are read back, and every text that is not unnoticed
  is read as what it spells
-/

namespace CodeDb

namespace SelfHosted

def digitValue (b : UInt8) : I64 := toI64 b - toI64 zeroByte

def parseNegFrom (s : Buffer) (i n acc : I64) : Run I64 :=
  if last : n.sle i then pure acc
  else do
    let d := digitValue (← s.get i)
    if d.slt 0 || (9 : I64).slt d then pure 1
    else parseNegFrom s (i + 1) n (acc * 10 - d)
termination_by (n.toInt - i.toInt).toNat
decreasing_by exact toInt_sub_succ_lt (by simpa [BitVec.sle_eq_not_slt] using last)

def stringToI64 (s : Buffer) : Run I64 := do
  let n := s.len
  if n == 0 then return 0
  else if (← s.get 0) == minusByte then
    let r ← parseNegFrom s 1 n 0
    return if (0 : I64).slt r then 0 else r
  else
    let r ← parseNegFrom s 0 n 0
    return if (0 : I64).slt r then 0 else 0 - r

/-! ### What a text spells -/

def IsDigit (b : UInt8) : Prop := 0x30 ≤ b.toNat ∧ b.toNat ≤ 0x39

instance (b : UInt8) : Decidable (IsDigit b) := inferInstanceAs (Decidable (_ ∧ _))

def AllDigits (bytes : List UInt8) : Prop := ∀ b ∈ bytes, IsDigit b

instance (bytes : List UInt8) : Decidable (AllDigits bytes) := List.decidableBAll IsDigit bytes

theorem allDigits_cons {b : UInt8} {bytes : List UInt8} :
    AllDigits (b :: bytes) ↔ IsDigit b ∧ AllDigits bytes := List.forall_mem_cons

/-- The number of digits after others, the most significant ones first. -/
def magnitudeFrom (m : Nat) (digits : List UInt8) : Nat :=
  digits.foldl (fun m b => 10 * m + (b.toNat - 0x30)) m

theorem magnitudeFrom_concat (m : Nat) (digits : List UInt8) (b : UInt8) :
    magnitudeFrom m (digits ++ [b]) = 10 * magnitudeFrom m digits + (b.toNat - 0x30) := by
  rw [magnitudeFrom, List.foldl_append]
  rfl

/-- The magnitude that digits stand for. -/
def magnitude (digits : List UInt8) : Option Nat :=
  if digits ≠ [] ∧ AllDigits digits then some (magnitudeFrom 0 digits) else none

/-- The integer of a text: digits, with a sign before them or not. -/
def integer : List UInt8 → Option Int
  | [] => none
  | b :: rest =>
    if b = minusByte then (magnitude rest).map fun m : Nat => -(m : Int)
    else (magnitude (b :: rest)).map fun m : Nat => (m : Int)

/-- An integer that can be written in 64 bits. -/
def Fits (v : Int) : Prop := -2 ^ 63 ≤ v ∧ v < 2 ^ 63

instance (v : Int) : Decidable (Fits v) := inferInstanceAs (Decidable (_ ∧ _))

/-- The number that a text spells: its integer where there is one that fits, and zero where
there is none. -/
def spelled (s : List UInt8) : I64 :=
  match integer s with
  | some v => if Fits v then BitVec.ofInt 64 v else 0
  | none => 0

/-- The integer of a text does not fit, and its magnitude is, up to multiples of `2 ^ 64`,
that of a negative number. -/
def Unnoticed (s : List UInt8) : Prop :=
  ∃ v, integer s = some v ∧ ¬ Fits v ∧ 0 < v.natAbs % 2 ^ 64 ∧ v.natAbs % 2 ^ 64 ≤ 2 ^ 63

/-! ### The accumulator -/

theorem toInt_digitValue (b : UInt8) : (digitValue b).toInt = b.toNat - 0x30 := by
  have small := b.toNat_lt
  have byte : (toI64 b).toInt = b.toNat := by
    have same : (toI64 b).toNat = b.toNat := by
      rw [toI64, BitVec.toNat_setWidth]
      exact Nat.mod_eq_of_lt (by change b.toNat < _; omega)
    rw [BitVec.toInt_eq_toNat_of_lt (by omega), same]
  have zero : (toI64 zeroByte).toInt = 0x30 := by decide
  rw [digitValue, BitVec.toInt_sub, byte, zero, Int.bmod_eq_of_le (by omega) (by omega)]

/-- A byte is refused if it is not a digit. -/
theorem digitValue_refused (b : UInt8) :
    ((digitValue b).slt 0 || (9 : I64).slt (digitValue b)) = decide (¬ IsDigit b) := by
  have zero : (0 : I64).toInt = 0 := by decide
  have nine : (9 : I64).toInt = 9 := by decide
  rw [BitVec.slt_eq_decide, BitVec.slt_eq_decide, toInt_digitValue, zero, nine, ← Bool.decide_or]
  simp only [IsDigit]
  congr 1
  apply propext
  omega

/-- A digit is added to the accumulator. -/
theorem ofInt_step {m : Nat} {b : UInt8} (digit : IsDigit b) :
    BitVec.ofInt 64 (-(m : Int)) * 10 - digitValue b =
      BitVec.ofInt 64 (-((10 * m + (b.toNat - 0x30) : Nat) : Int)) := by
  have value : digitValue b = BitVec.ofInt 64 (b.toNat - 0x30) := by
    rw [← toInt_digitValue, BitVec.ofInt_toInt]
  have ten : (10 : I64) = BitVec.ofInt 64 10 := by decide
  rw [value, ten, ← BitVec.ofInt_mul, BitVec.sub_eq_add_neg, ← BitVec.ofInt_neg, ← BitVec.ofInt_add]
  congr 1
  have least := digit.1
  push_cast [Nat.cast_sub least]
  ring

/-- The accumulator after digits, or the sign that there was another byte. -/
def accumulated (m : Nat) (bytes : List UInt8) : I64 :=
  if AllDigits bytes then BitVec.ofInt 64 (-(magnitudeFrom m bytes : Int)) else 1

theorem parseNegFrom_eq (s : Buffer) {i : Nat} {rest : List UInt8} (inside : i ≤ s.bytes.length)
    (follows : s.bytes.drop i = rest) (m : Nat) :
    parseNegFrom s (BitVec.ofNat 64 i) s.len (BitVec.ofInt 64 (-(m : Int))) =
      .ok (accumulated m rest) := by
  induction rest generalizing i m with
  | nil =>
    have done : s.bytes.length ≤ i := List.drop_eq_nil_iff.mp follows
    rw [parseNegFrom, dif_pos (by rw [s.len_sle inside, decide_eq_true done])]
    rfl
  | cons b rest ih =>
    have before := Buffer.lt_length follows
    rw [parseNegFrom, dif_neg (by rw [s.len_sle inside, decide_eq_true_eq]; omega),
      Buffer.get_drop follows, pure_bind]
    simp only
    rw [digitValue_refused]
    by_cases digit : IsDigit b
    · have next : s.bytes.drop (i + 1) = rest := by
        rw [← List.drop_drop, follows]
        rfl
      rw [if_neg (by simpa using digit), ofInt_step digit, ofNat_succ, ih before next]
      simp only [accumulated, allDigits_cons, digit, true_and, magnitudeFrom,
        List.foldl_cons]
    · rw [if_pos (by simpa using digit), accumulated, if_neg (by simp [allDigits_cons, digit])]
      rfl

/-- Where the sign of the accumulator tells that a magnitude does not fit. -/
theorem slt_ofInt_neg (m : Nat) :
    (0 : I64).slt (BitVec.ofInt 64 (-(m : Int))) = decide (2 ^ 63 < m % 2 ^ 64) := by
  have zero : (0 : I64).toInt = 0 := by decide
  rw [BitVec.slt_eq_decide, BitVec.toInt_ofInt, zero, Int.bmod_def]
  congr 1
  apply propext
  split <;> omega

/-- The number that an integer is read as. -/
def readAs (v : Int) : I64 :=
  if (0 : I64).slt (BitVec.ofInt 64 (-(v.natAbs : Int))) then 0 else BitVec.ofInt 64 v

/-- Bytes after a sign. -/
theorem negative_accumulated (bytes : List UInt8) :
    (if (0 : I64).slt (accumulated 0 bytes) then 0 else accumulated 0 bytes) =
      match (magnitude bytes).map fun m : Nat => -(m : Int) with
      | some v => readAs v
      | none => 0 := by
  by_cases digits : AllDigits bytes
  · by_cases empty : bytes = []
    · subst empty
      rfl
    · have value : magnitude bytes = some (magnitudeFrom 0 bytes) := if_pos ⟨empty, digits⟩
      rw [value, accumulated, if_pos digits]
      simp only [Option.map_some, readAs, Int.natAbs_neg, Int.natAbs_natCast]
  · have none : magnitude bytes = none := if_neg fun both => digits both.2
    rw [none, accumulated, if_neg digits]
    rfl

/-- Bytes without a sign. -/
theorem positive_accumulated {bytes : List UInt8} (nonempty : bytes ≠ []) :
    (if (0 : I64).slt (accumulated 0 bytes) then 0 else 0 - accumulated 0 bytes) =
      match (magnitude bytes).map fun m : Nat => (m : Int) with
      | some v => readAs v
      | none => 0 := by
  by_cases digits : AllDigits bytes
  · have value : magnitude bytes = some (magnitudeFrom 0 bytes) := if_pos ⟨nonempty, digits⟩
    have back : 0 - BitVec.ofInt 64 (-(magnitudeFrom 0 bytes : Int)) =
        BitVec.ofInt 64 (magnitudeFrom 0 bytes) := by
      rw [BitVec.ofInt_neg]
      simp
    rw [value, accumulated, if_pos digits, back]
    simp only [Option.map_some, readAs, Int.natAbs_natCast]
  · have none : magnitude bytes = none := if_neg fun both => digits both.2
    rw [none, accumulated, if_neg digits]
    rfl

/-- A text is read as its integer, and a text that has none as zero. -/
theorem stringToI64_eq (s : Buffer) :
    stringToI64 s = .ok (match integer s.bytes with | some v => readAs v | none => 0) := by
  cases bytes : s.bytes with
  | nil =>
    have empty : (s.len == 0) = true := by
      rw [Buffer.len, bytes]
      rfl
    rw [stringToI64, if_pos empty]
    rfl
  | cons b rest =>
    have nonempty : (s.len == 0) = false := by
      rw [beq_eq_false_iff_ne]
      intro same
      have same := congrArg BitVec.toNat same
      rw [Buffer.len, toNat_ofNat s.length_small, bytes] at same
      exact absurd same (Nat.succ_ne_zero _)
    have first : s.get 0 = pure b := s.get_eq (by rw [bytes]; rfl)
    simp only [stringToI64, nonempty, first, pure_bind, Bool.false_eq_true, if_false, integer,
      beq_iff_eq]
    by_cases sign : b = minusByte
    · have parsed := parseNegFrom_eq s (i := 1) (by simp [bytes])
        (by rw [bytes, List.drop_one, List.tail_cons]) 0
      rw [if_pos sign, if_pos sign, ← negative_accumulated]
      exact congrArg (fun r => r >>= fun r => (pure (if (0 : I64).slt r then 0 else r) : Run I64))
        parsed
    · have parsed := parseNegFrom_eq s (i := 0) (Nat.zero_le _) bytes 0
      rw [if_neg sign, if_neg sign, ← positive_accumulated (List.cons_ne_nil _ _)]
      exact congrArg (fun r => r >>= fun r =>
        (pure (if (0 : I64).slt r then 0 else 0 - r) : Run I64)) parsed

/-- Whether an integer is read as it is. -/
theorem readAs_eq_iff (v : Int) : readAs v = (if Fits v then BitVec.ofInt 64 v else 0) ↔
    ¬ (¬ Fits v ∧ 0 < v.natAbs % 2 ^ 64 ∧ v.natAbs % 2 ^ 64 ≤ 2 ^ 63) := by
  have zero : BitVec.ofInt 64 v = 0 ↔ v.natAbs % 2 ^ 64 = 0 := by
    rw [← BitVec.toNat_inj, BitVec.toNat_ofInt]
    change (v % 2 ^ 64).toNat = 0 ↔ _
    omega
  rw [readAs, slt_ofInt_neg]
  by_cases fits : Fits v
  · have small : ¬ 2 ^ 63 < v.natAbs % 2 ^ 64 := by
      have := fits
      simp only [Fits] at this
      omega
    rw [if_neg (by rwa [decide_eq_true_eq]), if_pos fits]
    exact iff_of_true rfl fun unnoticed => unnoticed.1 fits
  · simp only [fits, if_false, not_false_iff, true_and, decide_eq_true_eq]
    split
    · simp
      omega
    · rw [zero]
      omega

/-! ### Numbers that were formatted -/

theorem digitChar_utf8 {d : Nat} (digit : d < 10) :
    utf8 (.singleton d.digitChar) = [UInt8.ofNat (0x30 + d)] := by
  revert d
  decide

/-- The digits of a number spell it. -/
theorem magnitude_repr (k : Nat) : magnitude (utf8 k.repr) = some k := by
  have spells : (utf8 k.repr ≠ [] ∧ AllDigits (utf8 k.repr)) ∧
      magnitudeFrom 0 (utf8 k.repr) = k := by
    have digit : ∀ d < 10, IsDigit (UInt8.ofNat (0x30 + d)) ∧
        (UInt8.ofNat (0x30 + d)).toNat - 0x30 = d := by decide
    induction k using Nat.strongRecOn with
    | ind k ih =>
      by_cases more : 10 ≤ k
      · obtain ⟨⟨nonempty, digits⟩, value⟩ := ih (k / 10) (by omega)
        have last := digit (k % 10) (Nat.mod_lt k (by decide))
        rw [Nat.repr_of_ge more, utf8_append, digitChar_utf8 (Nat.mod_lt k (by decide))]
        refine ⟨⟨by simp, ?_⟩, ?_⟩
        · intro b listed
          rcases List.mem_append.mp listed with before | here
          · exact digits b before
          · obtain rfl := List.mem_singleton.mp here
            exact last.1
        · rw [magnitudeFrom_concat, value, last.2]
          omega
      · have only := digit k (by omega)
        rw [Nat.repr_of_lt (by omega), digitChar_utf8 (by omega)]
        refine ⟨⟨by simp, ?_⟩, ?_⟩
        · intro b listed
          obtain rfl := List.mem_singleton.mp listed
          exact only.1
        · rw [magnitudeFrom, List.foldl_cons, List.foldl_nil, only.2]
          omega
  rw [magnitude, if_pos spells.1, spells.2]

/-- A formatted number spells it. -/
theorem integer_repr (v : Int) : integer (utf8 v.repr) = some v := by
  cases v with
  | ofNat k =>
    have digits := magnitude_repr k
    have text : utf8 (Int.repr (.ofNat k)) = utf8 k.repr := rfl
    rw [text]
    cases bytes : utf8 k.repr with
    | nil =>
      rw [bytes] at digits
      contradiction
    | cons b rest =>
      rw [bytes] at digits
      have unsigned : b ≠ minusByte := by
        rintro rfl
        rw [magnitude,
          if_neg fun both => absurd (both.2 _ List.mem_cons_self) (by decide)] at digits
        contradiction
      rw [integer, if_neg unsigned, digits]
      rfl
  | negSucc k =>
    have text : utf8 (Int.repr (.negSucc k)) = minusByte :: utf8 (k + 1).repr := by
      rw [Int.repr, utf8_append]
      rfl
    rw [text, integer, if_pos rfl, magnitude_repr]
    rfl

/-- Every number is formatted in decimal, within the capacity. -/
theorem i64ToString_text (n : I64) : ∃ s, i64ToString n = .ok s ∧ s.bytes = utf8 n.toInt.repr := by
  have least := n.le_toInt
  have most := n.toInt_lt
  cases value : n.toInt with
  | ofNat k =>
    have same : n = BitVec.ofNat 64 k := by
      rw [← BitVec.ofInt_toInt (x := n), value]
      rfl
    have small : k < 2 ^ 63 := by
      rw [value, Int.ofNat_eq_natCast] at most
      omega
    obtain ⟨s, formatted, text, -⟩ := i64ToString_eq small
    exact ⟨s, by rw [same, formatted], text⟩
  | negSucc k =>
    have other : (n == 0) = false := by
      rw [beq_eq_false_iff_ne]
      rintro rfl
      contradiction
    have negative : n.slt 0 = true := by
      have zero : (0 : I64).toInt = 0 := by decide
      rw [BitVec.slt_eq_decide, value, zero, decide_eq_true (Int.negSucc_lt_zero k)]
    -- the least number has nineteen digits, so a sign and the digits fit in twenty bytes
    have few : (k + 1).repr.length ≤ 19 := by
      rw [Nat.length_repr_le_iff (by decide)]
      rw [value, Int.negSucc_eq] at least
      omega
    let start : Buffer := { bytes := [], capacity := 20, fits := by decide, sized := by decide }
    have created : Buffer.withCapacity 20 = .ok start := rfl
    obtain ⟨s, appended, bytes, -⟩ := start.append_ok (l := minusByte :: utf8 (k + 1).repr) (by
      rw [List.length_cons, length_utf8_repr]
      change 0 + _ ≤ 20
      omega)
    refine ⟨s, ?_, ?_⟩
    · have digits (c : Buffer) : pushNegDigits c n = c.append (utf8 (k + 1).repr) :=
        pushNegDigits_eq c (k + 1) (value.trans (Int.negSucc_eq k))
      rw [← Buffer.push_bind_append] at appended
      simp only [i64ToString, other, negative, created, Run.ok_bind, digits, Bool.false_eq_true,
        if_false, if_true]
      exact appended
    · rw [bytes, Int.repr, utf8_append]
      rfl

theorem fits_toInt (n : I64) : Fits n.toInt := ⟨n.le_toInt, n.toInt_lt⟩

/-- Numbers are formatted within the capacity and read back; and a text is read as the number
that it spells if and only if its magnitude does not go unnoticed. -/
theorem stringToI64_eq_spelled_iff (n : I64) (s : Buffer) :
    (∃ text, i64ToString n = .ok text ∧ stringToI64 text = .ok n) ∧
      (stringToI64 s = .ok (spelled s.bytes) ↔ ¬ Unnoticed s.bytes) := by
  constructor
  · obtain ⟨text, formatted, bytes⟩ := i64ToString_text n
    refine ⟨text, formatted, ?_⟩
    have noticed := (readAs_eq_iff n.toInt).mpr fun unnoticed => unnoticed.1 (fits_toInt n)
    rw [stringToI64_eq, bytes, integer_repr]
    simp only
    rw [noticed, if_pos (fits_toInt n), BitVec.ofInt_toInt]
  · rw [stringToI64_eq, spelled, Unnoticed, Except.ok.injEq]
    cases integer s.bytes with
    | none => simp
    | some v => simp only [readAs_eq_iff, Option.some.injEq, exists_eq_left']

/-- The digits of `2 ^ 64 + 1`. -/
def overlong : Buffer where
  bytes := utf8 "18446744073709551617"
  capacity := 20
  fits := by decide
  sized := by decide

/-- They are read as one. -/
theorem stringToI64_overlong : integer overlong.bytes = some (2 ^ 64 + 1) ∧
    stringToI64 overlong = .ok 1 ∧ spelled overlong.bytes = 0 := by
  have value : integer overlong.bytes = some (2 ^ 64 + 1) := by decide
  refine ⟨value, ?_, ?_⟩
  · rw [stringToI64_eq, value]
    rfl
  · rw [spelled, value]
    rfl

end SelfHosted

end CodeDb

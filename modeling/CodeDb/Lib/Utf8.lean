import Mathlib.Data.List.Basic

/-!
# UTF-8, byte by byte

A character below 128 is one byte, its code. Every byte of another character is at least 128, so
a byte below that is always a character of its own.

## Main definitions

* `Utf8.encode` — the bytes of characters
* `Utf8.Agrees` — predicates of bytes and of characters that stop at the same places

## Main results

* `Utf8.encodeChar_ascii`, `Utf8.high` — the bytes of a character
* `Utf8.mem_encode` — a byte below 128 is there only if its character is
* `Utf8.Agrees.takeWhile` — a scan over bytes takes what a scan over characters takes
-/

namespace Utf8

variable {c : Char} {b : UInt8}

/-- The bytes of characters. -/
def encode (l : List Char) : List UInt8 := l.flatMap String.utf8EncodeChar

@[simp] theorem encode_nil : encode [] = [] := rfl

theorem encode_cons (c : Char) (l : List Char) :
    encode (c :: l) = String.utf8EncodeChar c ++ encode l := List.flatMap_cons

theorem encode_append (l l' : List Char) : encode (l ++ l') = encode l ++ encode l' :=
  List.flatMap_append

/-- A character below 128 is one byte. -/
theorem encodeChar_ascii (ascii : c.toNat < 128) :
    String.utf8EncodeChar c = [UInt8.ofNat c.toNat] := by
  change c.val.toNat < 128 at ascii
  rw [String.utf8EncodeChar, if_pos (show c.val.toNat ≤ 0x7f by omega)]
  rfl

/-- Every byte of another character is at least 128. -/
theorem high (beyond : 128 ≤ c.toNat) (part : b ∈ String.utf8EncodeChar c) : 128 ≤ b.toNat := by
  change 128 ≤ c.val.toNat at beyond
  have small := c.val.toNat_lt
  have marked (n : Nat) (hn : 128 ≤ n) (hn' : n < 256) : 128 ≤ (UInt8.ofNat n).toNat := by
    rw [UInt8.toNat_ofNat_of_lt' hn']
    exact hn
  rw [String.utf8EncodeChar, if_neg (show ¬ c.val.toNat ≤ 0x7f by omega)] at part
  split at part
  · simp only [List.mem_cons, List.not_mem_nil, or_false] at part
    rcases part with rfl | rfl
    · exact marked _ (by omega) (by omega)
    · exact marked _ (by omega) (by omega)
  · split at part
    · simp only [List.mem_cons, List.not_mem_nil, or_false] at part
      rcases part with rfl | rfl | rfl
      · exact marked _ (by omega) (by omega)
      · exact marked _ (by omega) (by omega)
      · exact marked _ (by omega) (by omega)
    · simp only [List.mem_cons, List.not_mem_nil, or_false] at part
      rcases part with rfl | rfl | rfl | rfl
      · exact marked _ (by omega) (by omega)
      · exact marked _ (by omega) (by omega)
      · exact marked _ (by omega) (by omega)
      · exact marked _ (by omega) (by omega)

/-- What holds of the characters below 128 one by one. -/
theorem ascii_all {P : Char → Prop} (all : ∀ n < 128, P (Char.ofNat n)) (ascii : c.toNat < 128) :
    P c := by
  rw [← Char.ofNat_toNat c]
  exact all _ ascii

/-- A byte below 128 is there only if its character is. -/
theorem mem_encode {l : List Char} (low : b.toNat < 128) (part : b ∈ encode l) :
    Char.ofNat b.toNat ∈ l := by
  obtain ⟨c, listed, part⟩ := List.mem_flatMap.mp part
  by_cases ascii : c.toNat < 128
  · rw [encodeChar_ascii ascii, List.mem_singleton] at part
    rw [part, UInt8.toNat_ofNat_of_lt' (Nat.lt_trans ascii (by decide)), Char.ofNat_toNat]
    exact listed
  · have := high (Nat.le_of_not_lt ascii) part
    omega

/-- Characters below 128 are their codes. -/
theorem encode_ascii {l : List Char} (ascii : ∀ c ∈ l, c.toNat < 128) :
    encode l = l.map fun c => UInt8.ofNat c.toNat := by
  induction l with
  | nil => rfl
  | cons c l ih =>
    rw [encode_cons, encodeChar_ascii (ascii c List.mem_cons_self),
      ih fun d listed => ascii d (List.mem_cons_of_mem _ listed)]
    rfl

/-! ### Scans -/

/-- A predicate of bytes goes on through the characters that a predicate of characters holds of,
and no further. -/
structure Agrees (p : UInt8 → Bool) (q : Char → Bool) : Prop where
  through : ∀ c, q c = true → ∀ b ∈ String.utf8EncodeChar c, p b = true
  stops : ∀ c, q c = false → ∃ b rest, String.utf8EncodeChar c = b :: rest ∧ p b = false

section Scans

variable {p : UInt8 → Bool} {q : Char → Bool}

/-- Predicates that only hold below 128, and hold of the same there. -/
theorem Agrees.of_ascii (same : ∀ n < 128, p (UInt8.ofNat n) = q (Char.ofNat n))
    (chars : ∀ c, 128 ≤ c.toNat → q c = false) (bytes : ∀ b : UInt8, 128 ≤ b.toNat → p b = false) :
    Agrees p q where
  through c holds b part := by
    have ascii : c.toNat < 128 := by
      by_contra beyond
      rw [chars c (Nat.le_of_not_lt beyond)] at holds
      contradiction
    rw [encodeChar_ascii ascii, List.mem_singleton] at part
    rw [part, same _ ascii, Char.ofNat_toNat, holds]
  stops c fails := by
    by_cases ascii : c.toNat < 128
    · exact ⟨_, [], encodeChar_ascii ascii, by rw [same _ ascii, Char.ofNat_toNat, fails]⟩
    · obtain ⟨b, rest, encoded⟩ :=
        List.exists_cons_of_ne_nil (String.utf8EncodeChar_ne_nil (c := c))
      have part : b ∈ String.utf8EncodeChar c := by
        rw [encoded]
        exact List.mem_cons_self
      exact ⟨b, rest, encoded, bytes b (high (Nat.le_of_not_lt ascii) part)⟩

/-- A scan over bytes takes what the scan over characters takes. -/
theorem Agrees.takeWhile (agrees : Agrees p q) (l : List Char) :
    (encode l).takeWhile p = encode (l.takeWhile q) := by
  induction l with
  | nil => rfl
  | cons c l ih =>
    rw [encode_cons, List.takeWhile_cons]
    by_cases holds : q c = true
    · rw [List.takeWhile_append_of_pos (agrees.through c holds), ih, if_pos holds,
        encode_cons]
    · obtain ⟨b, rest, encoded, fails⟩ := agrees.stops c (by simpa using holds)
      rw [encoded, if_neg holds, List.cons_append, List.takeWhile_cons, if_neg (by simp [fails])]
      rfl

/-- It leaves what the scan over characters leaves. -/
theorem Agrees.dropWhile (agrees : Agrees p q) (l : List Char) :
    (encode l).dropWhile p = encode (l.dropWhile q) := by
  induction l with
  | nil => rfl
  | cons c l ih =>
    rw [encode_cons, List.dropWhile_cons]
    by_cases holds : q c = true
    · rw [List.dropWhile_append_of_pos (agrees.through c holds), ih, if_pos holds]
    · obtain ⟨b, rest, encoded, fails⟩ := agrees.stops c (by simpa using holds)
      rw [encoded, if_neg holds, List.cons_append, List.dropWhile_cons, if_neg (by simp [fails]),
        encode_cons, encoded]
      rfl

end Scans

end Utf8

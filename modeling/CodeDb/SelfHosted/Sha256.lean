import CodeDb.Lib.Sha256
import CodeDb.SelfHosted.Platform
import CodeDb.Store.Hashing

/-!
# The self-hosted SHA-256

The library of the self-hosted front end computes SHA-256 with loops over arrays of words.

Each loop follows a sequence of the standard: the schedule grows by a word, the working
variables go through a round, and the state takes in a block.

## Main definitions

* `pad`, `scheduleAt`, `compressFrom`, `hashBlocks`, `pushWordHex` — the library

## Main results

* `pad_eq` — a message is padded as the standard says, or there is no room for it
* `scheduleAt_eq`, `compressFrom_eq`, `hashBlocks_eq` — what the loops compute
* `pushWordHex_eq` — a word is written in hexadecimal
-/

namespace CodeDb

namespace SelfHosted

/-! ### Functions of words -/

def rotr (x n : U32) : U32 := shr x n ||| shl x (32 - n)

def ssig0 (x : U32) : U32 := rotr x 7 ^^^ rotr x 18 ^^^ shr x 3

def ssig1 (x : U32) : U32 := rotr x 17 ^^^ rotr x 19 ^^^ shr x 10

def bsig0 (x : U32) : U32 := rotr x 2 ^^^ rotr x 13 ^^^ rotr x 22

def bsig1 (x : U32) : U32 := rotr x 6 ^^^ rotr x 11 ^^^ rotr x 25

def ch (x y z : U32) : U32 := (x &&& y) ^^^ (~~~x &&& z)

def maj (x y z : U32) : U32 := (x &&& y) ^^^ (x &&& z) ^^^ (y &&& z)

/-- The record of the eight words. -/
abbrev State := Sha256.State

def round (s : State) (k w : U32) : State :=
  let t1 := s.h + bsig1 s.e + ch s.e s.f s.g + k + w
  let t2 := bsig0 s.a + maj s.a s.b s.c
  { a := t1 + t2, b := s.a, c := s.b, d := s.c, e := s.d + t1, f := s.e, g := s.f, h := s.g }

def roundKeys : Vector U32 64 :=
  #v[0x428a2f98, 0x71374491, 0xb5c0fbcf, 0xe9b5dba5, 0x3956c25b, 0x59f111f1, 0x923f82a4, 0xab1c5ed5,
    0xd807aa98, 0x12835b01, 0x243185be, 0x550c7dc3, 0x72be5d74, 0x80deb1fe, 0x9bdc06a7, 0xc19bf174,
    0xe49b69c1, 0xefbe4786, 0xfc19dc6, 0x240ca1cc, 0x2de92c6f, 0x4a7484aa, 0x5cb0a9dc, 0x76f988da,
    0x983e5152, 0xa831c66d, 0xb00327c8, 0xbf597fc7, 0xc6e00bf3, 0xd5a79147, 0x6ca6351, 0x14292967,
    0x27b70a85, 0x2e1b2138, 0x4d2c6dfc, 0x53380d13, 0x650a7354, 0x766a0abb, 0x81c2c92e, 0x92722c85,
    0xa2bfe8a1, 0xa81a664b, 0xc24b8b70, 0xc76c51a3, 0xd192e819, 0xd6990624, 0xf40e3585, 0x106aa070,
    0x19a4c116, 0x1e376c08, 0x2748774c, 0x34b0bcb5, 0x391c0cb3, 0x4ed8aa4a, 0x5b9cca4f, 0x682e6ff3,
    0x748f82ee, 0x78a5636f, 0x84c87814, 0x8cc70208, 0x90befffa, 0xa4506ceb, 0xbef9a3f7, 0xc67178f2]

/-- The functions of words are those of the standard. -/
theorem rotr_eq (x : U32) (n : U32) : rotr x n = x.rotateRight n.toNat := by
  have small := n.isLt
  have rest : (32 - n).toNat % 32 = (32 - n.toNat % 32) % 32 := by
    rw [BitVec.toNat_sub]
    change (2 ^ 32 - n.toNat + 32) % 2 ^ 32 % 32 = _
    omega
  rw [BitVec.rotateRight_def, rotr, shr, shl]
  simp only [evalShift, rest]
  by_cases aligned : n.toNat % 32 = 0
  · simp [aligned]
  · rw [Nat.mod_eq_of_lt (Nat.sub_lt (by decide) (Nat.pos_of_ne_zero aligned))]
    simp

theorem ssig0_eq : ssig0 = Sha256.smallSigma0 := by
  funext x
  simp only [ssig0, rotr_eq, Sha256.smallSigma0]
  rfl

theorem ssig1_eq : ssig1 = Sha256.smallSigma1 := by
  funext x
  simp only [ssig1, rotr_eq, Sha256.smallSigma1]
  rfl

theorem round_eq (s : State) (k w : U32) : round s k w = Sha256.round s k w := by
  simp only [round, Sha256.round, bsig0, bsig1, rotr_eq]
  rfl

theorem roundKeys_eq : roundKeys.toList = Sha256.constants := rfl

/-! ### Padding -/

def pad (mem : Buffer) (msglen : I64) : Run Buffer := do
  let mem ← mem.push (toU8 0x80)
  let zeroed ← loop mem (fun m => m.len.srem 64 != 56) fun m => m.push (toU8 0)
  let bits := msglen * 8
  let zeroed ← zeroed.push (toU8 (sar bits 56 &&& 0xff))
  let zeroed ← zeroed.push (toU8 (sar bits 48 &&& 0xff))
  let zeroed ← zeroed.push (toU8 (sar bits 40 &&& 0xff))
  let zeroed ← zeroed.push (toU8 (sar bits 32 &&& 0xff))
  let zeroed ← zeroed.push (toU8 (sar bits 24 &&& 0xff))
  let zeroed ← zeroed.push (toU8 (sar bits 16 &&& 0xff))
  let zeroed ← zeroed.push (toU8 (sar bits 8 &&& 0xff))
  zeroed.push (toU8 (bits &&& 0xff))

/-- The length of a string is not negative. -/
theorem msb_len (b : Buffer) : b.len.msb = false := by
  have small := b.length_small
  rw [BitVec.msb_eq_false_iff_two_mul_lt, Buffer.len, toNat_ofNat small]
  omega

/-- The blocks of a string. -/
theorem len_sdiv (b : Buffer) : b.len.sdiv 64 = BitVec.ofNat 64 (b.bytes.length / 64) := by
  have small := b.length_small
  rw [BitVec.sdiv_eq, msb_len]
  apply BitVec.eq_of_toNat_eq
  change b.len.toNat / 64 = _
  rw [Buffer.len, toNat_ofNat small, BitVec.toNat_ofNat]
  omega

/-- The remainder of a length. -/
theorem len_srem (b : Buffer) : b.len.srem 64 = BitVec.ofNat 64 (b.bytes.length % 64) := by
  have small := b.length_small
  rw [BitVec.srem_eq, msb_len]
  apply BitVec.eq_of_toNat_eq
  change b.len.toNat % 64 = _
  rw [Buffer.len, toNat_ofNat small, BitVec.toNat_ofNat]
  omega

/-- A byte of a number. -/
theorem toU8_sar (n : Nat) {k : Nat} (inside : k ≤ 56) :
    toU8 (sar (BitVec.ofNat 64 n) (BitVec.ofNat 64 k) &&& 0xff) = UInt8.ofNat (n >>> k) := by
  apply UInt8.toBitVec_inj.mp
  have amount : (BitVec.ofNat 64 k).toNat % 64 = k := by
    rw [BitVec.toNat_ofNat]
    omega
  change (((BitVec.ofNat 64 n).sshiftRight ((BitVec.ofNat 64 k).toNat % 64)) &&& 0xff).setWidth 8 =
    BitVec.ofNat 8 (n >>> k)
  rw [amount]
  apply BitVec.eq_of_getLsbD_eq
  intro i small
  have mask : (0xff : I64).getLsbD i = true := by
    have all : ∀ j < 8, (0xff : I64).getLsbD j = true := by decide
    exact all i small
  have within : k + i < 64 := by omega
  have lower : ¬ 64 ≤ i := by omega
  simp only [BitVec.getLsbD_setWidth, BitVec.getLsbD_and, BitVec.getLsbD_sshiftRight, mask,
    BitVec.getLsbD_ofNat, Nat.testBit_shiftRight, within, lower, small]
  simp

/-- Eight bytes pushed one after the other. -/
theorem push_eight (b : Buffer) (x₀ x₁ x₂ x₃ x₄ x₅ x₆ x₇ : UInt8) :
    (do
      let b ← b.push x₀
      let b ← b.push x₁
      let b ← b.push x₂
      let b ← b.push x₃
      let b ← b.push x₄
      let b ← b.push x₅
      let b ← b.push x₆
      b.push x₇) = b.append [x₀, x₁, x₂, x₃, x₄, x₅, x₆, x₇] := by
  simp only [← Buffer.push_bind_append, Buffer.append_nil, bind_pure]

/-- The zeros: as many as are needed, or there is no room for them. -/
theorem zero_loop (b : Buffer) (n left : Nat) (count : (b.bytes.length + n) % 64 = 56)
    (least : ∀ k < n, (b.bytes.length + k) % 64 ≠ 56) (bounded : n ≤ left) :
    Loop.loop (throw .endless) (fun m : Buffer => m.len.srem 64 != 56)
      (fun m => m.push (toU8 0)) left b = b.append (List.replicate n 0) := by
  induction n generalizing b left with
  | zero =>
    rw [Loop.loop_done, List.replicate_zero, Buffer.append_nil]
    rw [len_srem, ← Nat.add_zero b.bytes.length, count]
    rfl
  | succ n ih =>
    obtain ⟨rest, rfl⟩ := Nat.exists_eq_add_of_le' bounded
    have more : (b.len.srem 64 != 56) = true := by
      have here := least 0 (by omega)
      rw [len_srem, bne_iff_ne]
      intro same
      have same := congrArg BitVec.toNat same
      rw [BitVec.toNat_ofNat] at same
      change _ = 56 at same
      omega
    rw [← Nat.add_assoc, Loop.loop_step (s := b) more, List.replicate_succ,
      ← Buffer.push_bind_append]
    change b.push 0 >>= _ = _
    cases pushed : b.push 0 with
    | error trap => rfl
    | ok c =>
      have length : c.bytes.length = b.bytes.length + 1 := by
        rw [(Buffer.append_eq_ok.mp pushed).1]
        simp
      exact ih c (rest + n) (by rw [length]; omega) (fun k small => by
        rw [length, Nat.add_assoc]
        have := least (1 + k) (by omega)
        exact this) (by omega)

/-- A message is padded as the standard says, or there is no room for it. -/
theorem pad_eq (mem : Buffer) :
    pad mem mem.len = mem.append (Sha256.padding mem.bytes.length) := by
  have bits : mem.len * 8 = BitVec.ofNat 64 (8 * mem.bytes.length) := by
    rw [Nat.mul_comm, BitVec.ofNat_mul]
    rfl
  have last : toU8 (BitVec.ofNat 64 (8 * mem.bytes.length) &&& 0xff) =
      toU8 (sar (BitVec.ofNat 64 (8 * mem.bytes.length)) 0 &&& 0xff) := by
    simp [sar, evalShift]
  have bytes : [56, 48, 40, 32, 24, 16, 8, 0].map (fun k =>
      toU8 (sar (BitVec.ofNat 64 (8 * mem.bytes.length)) (BitVec.ofNat 64 k) &&& 0xff)) =
      Sha256.bigEndian64 (8 * mem.bytes.length) := by
    have inside : ∀ k ∈ [56, 48, 40, 32, 24, 16, 8, 0], k ≤ 56 := by decide
    exact List.map_congr_left fun k listed => toU8_sar _ (inside k listed)
  have zeros := Sha256.zeros_spec mem.bytes.length
  rw [Sha256.padding, ← Buffer.append_append, ← Buffer.push_bind_append, pad, bind_assoc]
  change mem.push 0x80 >>= _ = _
  cases pushed : mem.push 0x80 with
  | error trap => rfl
  | ok c =>
    have length : c.bytes.length = mem.bytes.length + 1 := by
      rw [(Buffer.append_eq_ok.mp pushed).1]
      simp
    have few : Sha256.zeros mem.bytes.length < 64 := Nat.mod_lt _ (by decide)
    change loop c _ _ >>= _ = c.append _ >>= _
    rw [loop, zero_loop c (Sha256.zeros mem.bytes.length) _ (by rw [length, zeros])
      (fun k fewer => by rw [length]; exact Sha256.zeros_least fewer)
      (by rw [maxEvalLoopIterations]; omega)]
    refine bind_congr fun z => ?_
    rw [bits, push_eight, last, ← bytes]
    rfl

/-! ### The schedule -/

/-- The words made so far, and how many there are. -/
structure Sched where
  w : Vector U32 64
  t : I64

structure SchedR where
  mem : Buffer
  w : Vector U32 64

def scheduleAt (mem : Buffer) (base : I64) : Run SchedR := do
  let seed : Sched := { w := Vector.replicate 64 0, t := 0 }
  let done ← loop seed (fun s => s.t.slt 64) fun s => do
    let word ← if s.t.slt 16 then do
        let o := base + s.t * 4
        let b0 ← mem.get o
        let b1 ← mem.get (o + 1)
        let b2 ← mem.get (o + 2)
        let b3 ← mem.get (o + 3)
        pure (toU32 (sal (toI64 b0) 24 ||| sal (toI64 b1) 16 ||| sal (toI64 b2) 8 ||| toI64 b3))
      else do
        let w2 ← arrayGet s.w (s.t - 2)
        let w7 ← arrayGet s.w (s.t - 7)
        let w15 ← arrayGet s.w (s.t - 15)
        let w16 ← arrayGet s.w (s.t - 16)
        pure (ssig1 w2 + w7 + ssig0 w15 + w16)
    return { w := ← arraySet s.w s.t word, t := s.t + 1 }
  return { mem, w := done.w }

/-- A word put together from its bytes. -/
theorem word_eq (b₀ b₁ b₂ b₃ : UInt8) :
    toU32 (sal (toI64 b₀) 24 ||| sal (toI64 b₁) 16 ||| sal (toI64 b₂) 8 ||| toI64 b₃) =
      Sha256.word b₀ b₁ b₂ b₃ := by
  have amounts : (24 : I64).toNat % 64 = 24 ∧ (16 : I64).toNat % 64 = 16 ∧
      (8 : I64).toNat % 64 = 8 := by decide
  apply BitVec.eq_of_getLsbD_eq
  intro i small
  simp only [toU32, sal, evalShift, toI64, Sha256.word, amounts, BitVec.getLsbD_setWidth,
    BitVec.getLsbD_or, BitVec.getLsbD_append, BitVec.getLsbD_shiftLeft]
  grind

/-- A word is read from the message. -/
theorem wordAt_eq {α : Type} (mem : Buffer) {offset : Nat}
    (inside : offset + 4 ≤ mem.bytes.length) (next : U32 → Run α) :
    (do
      let b0 ← mem.get (BitVec.ofNat 64 offset)
      let b1 ← mem.get (BitVec.ofNat 64 offset + 1)
      let b2 ← mem.get (BitVec.ofNat 64 offset + 2)
      let b3 ← mem.get (BitVec.ofNat 64 offset + 3)
      let word ←
        pure (toU32 (sal (toI64 b0) 24 ||| sal (toI64 b1) 16 ||| sal (toI64 b2) 8 ||| toI64 b3))
      next word) = next (Sha256.wordAt mem.bytes offset) := by
  have small := mem.length_small
  have byte (i : I64) (k : Nat) (hk : k < 4) (same : i = BitVec.ofNat 64 (offset + k)) :
      mem.get i = pure (mem.bytes.getD (offset + k) 0) := by
    have there : offset + k < mem.bytes.length := by omega
    rw [same]
    apply mem.get_eq
    rw [List.getD_eq_getElem?_getD, List.getElem?_eq_getElem there]
    rfl
  have later (k : Nat) : BitVec.ofNat 64 offset + BitVec.ofNat 64 k =
      BitVec.ofNat 64 (offset + k) :=
    (BitVec.ofNat_add _ _).symm
  rw [byte (BitVec.ofNat 64 offset) 0 (by decide) rfl,
    byte (BitVec.ofNat 64 offset + 1) 1 (by decide) (later 1),
    byte (BitVec.ofNat 64 offset + 2) 2 (by decide) (later 2),
    byte (BitVec.ofNat 64 offset + 3) 3 (by decide) (later 3)]
  simp only [pure_bind, word_eq]
  rfl

/-- A word is made of earlier ones. -/
theorem recurrence_eq {α : Type} (w : List U32) {i : Nat} (late : 16 ≤ i) (inside : i < 64)
    (next : U32 → Run α) :
    (do
      let w2 ← arrayGet (arrayOf 0 64 w) (BitVec.ofNat 64 i - 2)
      let w7 ← arrayGet (arrayOf 0 64 w) (BitVec.ofNat 64 i - 7)
      let w15 ← arrayGet (arrayOf 0 64 w) (BitVec.ofNat 64 i - 15)
      let w16 ← arrayGet (arrayOf 0 64 w) (BitVec.ofNat 64 i - 16)
      let word ← pure (ssig1 w2 + w7 + ssig0 w15 + w16)
      next word) =
      next (Sha256.smallSigma1 (w.getD (i - 2) 0) + w.getD (i - 7) 0 +
        Sha256.smallSigma0 (w.getD (i - 15) 0) + w.getD (i - 16) 0) := by
  have earlier (k : Nat) (hk : k ≤ 16) :
      arrayGet (arrayOf 0 64 w) (BitVec.ofNat 64 i - BitVec.ofNat 64 k) =
        pure (w.getD (i - k) 0) := by
    rw [BitVec.ofNat_sub_ofNat_of_le _ _ (by omega) (by omega)]
    exact arrayGet_arrayOf 0 w (by decide) (by omega)
  rw [← ssig0_eq, ← ssig1_eq]
  have w₂ := earlier 2 (by decide)
  have w₇ := earlier 7 (by decide)
  have w₁₅ := earlier 15 (by decide)
  have w₁₆ := earlier 16 (by decide)
  simp only [BitVec.ofNat_eq_ofNat] at w₂ w₇ w₁₅ w₁₆ ⊢
  rw [w₂, w₇, w₁₅, w₁₆]
  rfl

/-- The schedule of a block. -/
theorem scheduleAt_eq (mem : Buffer) {base : Nat} (inside : base + 64 ≤ mem.bytes.length) :
    scheduleAt mem (BitVec.ofNat 64 base) =
      pure { mem, w := arrayOf 0 64 (Sha256.schedule mem.bytes base) } := by
  have small := mem.length_small
  -- after i steps the array holds the first i words
  let along (i : Nat) : Sched :=
    { w := arrayOf 0 64 (Sha256.words mem.bytes base i), t := BitVec.ofNat 64 i }
  have seed : ({ w := Vector.replicate 64 0, t := 0 } : Sched) = along 0 := by
    rw [← arrayOf_nil]
    rfl
  have more (i : Nat) (hi : i ≤ 64) : (along i).t.slt 64 = decide (i < 64) :=
    slt_ofNat (by omega) (by decide)
  have put (i : Nat) (hi : i < 64) (word : U32) :
      arraySet (along i).w (along i).t word =
        pure (arrayOf 0 64 (Sha256.words mem.bytes base i ++ [word])) :=
    arraySet_arrayOf 0 (Sha256.length_words mem.bytes base i).symm (by decide) hi word
  simp only [scheduleAt]
  rw [seed, loop, Loop.loop_along along 64]
  · rfl
  · intro i hi
    rw [more i (Nat.le_of_lt hi), decide_eq_true hi]
  · intro i hi
    have early : (along i).t.slt 16 = decide (i < 16) := slt_ofNat (by omega) (by decide)
    have next : (along i).t + 1 = BitVec.ofNat 64 (i + 1) := ofNat_succ i
    rw [early]
    by_cases first : i < 16
    · have offset : BitVec.ofNat 64 base + (along i).t * 4 = BitVec.ofNat 64 (base + 4 * i) := by
        rw [BitVec.ofNat_add, Nat.mul_comm, BitVec.ofNat_mul]
        rfl
      rw [offset, if_pos (decide_eq_true first), wordAt_eq mem (by omega), put i hi, next]
      simp only [pure_bind]
      simp only [along, Sha256.words, if_pos first]
    · rw [if_neg (by simpa using first)]
      refine (recurrence_eq _ (by omega) hi _).trans ?_
      simp only [pure_bind, put i hi, next]
      simp only [along, Sha256.words, if_neg first]
  · rw [more 64 (Nat.le_refl _)]
    rfl
  · decide

/-! ### Compression -/

/-- The working variables, and how many rounds there were. -/
structure Working where
  st : State
  t : I64

def compressFrom (h : State) (w : Vector U32 64) : Run State := do
  let k := roundKeys
  let done ← loop { st := h, t := 0 : Working } (fun cs => cs.t.slt 64) fun cs => do
    return { st := round cs.st (← arrayGet k cs.t) (← arrayGet w cs.t), t := cs.t + 1 }
  let s := done.st
  return { a := h.a + s.a, b := h.b + s.b, c := h.c + s.c, d := h.d + s.d, e := h.e + s.e
           f := h.f + s.f, g := h.g + s.g, h := h.h + s.h }

/-- The rounds with a schedule. -/
theorem compressFrom_eq (h : State) (w : List U32) :
    compressFrom h (arrayOf 0 64 w) = pure (Sha256.compress h w) := by
  let along (i : Nat) : Working := { st := Sha256.rounds h w i, t := BitVec.ofNat 64 i }
  have seed : ({ st := h, t := 0 } : Working) = along 0 := rfl
  have more (i : Nat) (hi : i ≤ 64) : (along i).t.slt 64 = decide (i < 64) :=
    slt_ofNat (by omega) (by decide)
  have key (i : Nat) (hi : i < 64) :
      arrayGet roundKeys (BitVec.ofNat 64 i) = pure (Sha256.constants.getD i 0) := by
    rw [arrayGet_eq _ (by decide) hi, ← roundKeys_eq, List.getD_eq_getElem?_getD,
      List.getElem?_eq_getElem (by simpa using hi)]
    simp
  simp only [compressFrom]
  rw [seed, loop, Loop.loop_along along 64]
  · rfl
  · intro i hi
    rw [more i (Nat.le_of_lt hi), decide_eq_true hi]
  · intro i hi
    have next : (along i).t + 1 = BitVec.ofNat 64 (i + 1) := ofNat_succ i
    rw [next]
    simp only [along, key i hi, arrayGet_arrayOf 0 w (show 64 < 2 ^ 63 by decide) hi, pure_bind,
      round_eq, Sha256.rounds_succ]
  · rw [more 64 (Nat.le_refl _)]
    rfl
  · decide

/-! ### Blocks -/

/-- The state, and how many blocks it has taken in. -/
structure BlkAcc where
  mem : Buffer
  h : State
  b : I64

def hashBlocks (mem : Buffer) (nblocks : I64) : Run State := do
  let h0 : State :=
    { a := 0x6a09e667, b := 0xbb67ae85, c := 0x3c6ef372, d := 0xa54ff53a, e := 0x510e527f
      f := 0x9b05688c, g := 0x1f83d9ab, h := 0x5be0cd19 }
  let done ← loop { mem, h := h0, b := 0 : BlkAcc } (fun s => s.b.slt nblocks) fun cur => do
    let bb := cur.b
    let hh := cur.h
    let sr ← scheduleAt cur.mem (bb * 64)
    let nh ← compressFrom hh sr.w
    return { mem := sr.mem, h := nh, b := bb + 1 }
  return done.h

/-- The blocks of a message are taken in one after the other. -/
theorem hashBlocks_eq (mem : Buffer) {blocks : Nat} (inside : 64 * blocks ≤ mem.bytes.length)
    (few : blocks ≤ maxEvalLoopIterations) :
    hashBlocks mem (BitVec.ofNat 64 blocks) = pure (Sha256.hashBlocks mem.bytes blocks) := by
  have small := mem.length_small
  let along (i : Nat) : BlkAcc :=
    { mem, h := Sha256.hashBlocks mem.bytes i, b := BitVec.ofNat 64 i }
  have more (i : Nat) (hi : i ≤ blocks) :
      (along i).b.slt (BitVec.ofNat 64 blocks) = decide (i < blocks) :=
    slt_ofNat (by omega) (by omega)
  have base (i : Nat) : (along i).b * 64 = BitVec.ofNat 64 (64 * i) := by
    rw [Nat.mul_comm, BitVec.ofNat_mul]
    rfl
  change loop (along 0) _ _ >>= _ = _
  rw [loop, Loop.loop_along along blocks]
  · rfl
  · intro i hi
    rw [more i (Nat.le_of_lt hi), decide_eq_true hi]
  · intro i hi
    have next : (along i).b + 1 = BitVec.ofNat 64 (i + 1) := ofNat_succ i
    simp only [base, next]
    simp only [along, scheduleAt_eq mem (show 64 * i + 64 ≤ _ by omega), compressFrom_eq,
      pure_bind, Sha256.hashBlocks_succ]
  · rw [more blocks (Nat.le_refl _), decide_eq_false (Nat.lt_irrefl _)]
  · exact few

/-! ### Hexadecimal -/

def hexNibble (v : I64) : I64 := if v.slt 10 then 48 + v else 97 + v - 10

def pushWordHex (out : Buffer) (w : U32) : Run Buffer := do
  let wi : I64 := w.setWidth 64
  let out ← out.push (toU8 (hexNibble (sar wi 28 &&& 0xf)))
  let out ← out.push (toU8 (hexNibble (sar wi 24 &&& 0xf)))
  let out ← out.push (toU8 (hexNibble (sar wi 20 &&& 0xf)))
  let out ← out.push (toU8 (hexNibble (sar wi 16 &&& 0xf)))
  let out ← out.push (toU8 (hexNibble (sar wi 12 &&& 0xf)))
  let out ← out.push (toU8 (hexNibble (sar wi 8 &&& 0xf)))
  let out ← out.push (toU8 (hexNibble (sar wi 4 &&& 0xf)))
  out.push (toU8 (hexNibble (wi &&& 0xf)))

/-- A digit of a word. -/
theorem toU8_hexNibble (w : U32) {k : Nat} (inside : k ≤ 28) :
    toU8 (hexNibble (sar (w.setWidth 64) (BitVec.ofNat 64 k) &&& 0xf)) =
      UInt8.ofNat (hexDigit ((w.toNat >>> k) % 16)).toNat := by
  have digits : ∀ d < 16, toU8 (hexNibble (BitVec.ofNat 64 d)) =
      UInt8.ofNat (hexDigit d).toNat := by decide
  have amount : (BitVec.ofNat 64 k).toNat % 64 = k := by
    rw [BitVec.toNat_ofNat]
    omega
  have nonnegative : (w.setWidth 64).msb = false := by
    have small := w.isLt
    rw [BitVec.msb_eq_false_iff_two_mul_lt, BitVec.toNat_setWidth]
    omega
  have nibble : sar (w.setWidth 64) (BitVec.ofNat 64 k) &&& 0xf =
      BitVec.ofNat 64 ((w.toNat >>> k) % 16) := by
    change (w.setWidth 64).sshiftRight ((BitVec.ofNat 64 k).toNat % 64) &&& 0xf = _
    rw [amount, BitVec.sshiftRight_eq_of_msb_false nonnegative]
    apply BitVec.eq_of_toNat_eq
    rw [BitVec.toNat_and, BitVec.toNat_ushiftRight, BitVec.toNat_setWidth, BitVec.toNat_ofNat]
    change _ &&& (2 ^ 4 - 1) = _
    rw [Nat.and_two_pow_sub_one_eq_mod]
    have small := w.isLt
    rw [Nat.mod_eq_of_lt (show w.toNat < 2 ^ 64 by omega)]
    omega
  rw [nibble]
  exact digits _ (Nat.mod_lt _ (by decide))

/-- The digits of the bytes of a word. -/
theorem hexEncode_bytesOfWord (w : U32) :
    hexEncode (Sha256.bytesOfWord w) =
      [28, 24, 20, 16, 12, 8, 4, 0].map fun k => hexDigit ((w.toNat >>> k) % 16) := by
  have byte (k : Nat) : hexByte (UInt8.ofNat (w.toNat >>> k)) =
      [hexDigit ((w.toNat >>> (k + 4)) % 16), hexDigit ((w.toNat >>> k) % 16)] := by
    have high : w.toNat >>> k % 256 / 16 = w.toNat >>> (k + 4) % 16 := by
      rw [Nat.shiftRight_add, Nat.shiftRight_eq_div_pow (w.toNat >>> k) 4]
      omega
    have low : w.toNat >>> k % 256 % 16 = w.toNat >>> k % 16 := by omega
    rw [hexByte, UInt8.toNat_ofNat']
    rw [high, low]
  simp only [hexEncode, Sha256.bytesOfWord, List.map_cons, List.map_nil, List.flatMap_cons,
    List.flatMap_nil, byte]
  rfl

/-- Hexadecimal is written in ASCII. -/
theorem hexEncode_ascii (bytes : List UInt8) : ∀ c ∈ hexEncode bytes, c.toNat < 128 := by
  have digits : ∀ d < 16, (hexDigit d).toNat < 128 := by decide
  intro c listed
  obtain ⟨b, -, part⟩ := List.mem_flatMap.mp listed
  have small := b.toNat_lt
  rcases List.mem_cons.mp part with rfl | part
  · exact digits _ (by omega)
  · rw [List.mem_singleton.mp part]
    exact digits _ (Nat.mod_lt _ (by decide))

/-- A word is written in hexadecimal. -/
theorem pushWordHex_eq (out : Buffer) (w : U32) :
    pushWordHex out w = out.append (utf8 (String.ofList (hexEncode (Sha256.bytesOfWord w)))) := by
  have digits : [28, 24, 20, 16, 12, 8, 4, 0].map (fun k =>
      toU8 (hexNibble (sar (w.setWidth 64) (BitVec.ofNat 64 k) &&& 0xf))) =
      [28, 24, 20, 16, 12, 8, 4, 0].map fun k =>
        UInt8.ofNat (hexDigit ((w.toNat >>> k) % 16)).toNat := by
    have inside : ∀ k ∈ [28, 24, 20, 16, 12, 8, 4, 0], k ≤ 28 := by decide
    exact List.map_congr_left fun k listed => toU8_hexNibble w (inside k listed)
  have last : toU8 (hexNibble (w.setWidth 64 &&& 0xf)) =
      toU8 (hexNibble (sar (w.setWidth 64) 0 &&& 0xf)) := by
    simp [sar, evalShift]
  rw [utf8_ofList, Utf8.encode_ascii (hexEncode_ascii _), hexEncode_bytesOfWord, List.map_map]
  change _ = out.append ([28, 24, 20, 16, 12, 8, 4, 0].map fun k =>
    UInt8.ofNat (hexDigit ((w.toNat >>> k) % 16)).toNat)
  rw [← digits, pushWordHex]
  simp only [push_eight, last]
  rfl

end SelfHosted

end CodeDb

import Mathlib.Data.List.Basic

/-!
# SHA-256

The hash function of FIPS 180-4, over lists of bytes: a message is padded to whole blocks,
and each block is compressed into a state of eight words.

The message schedule is built word by word, and a word once built is not changed, so a longer
prefix of the schedule has the words of a shorter one.

## Main definitions

* `Sha256.padding` — what is appended to a message of a length
* `Sha256.schedule` — the message schedule of a block
* `Sha256.compress` — the compression function
* `Sha256.digest` — the hash

## Main results

* `Sha256.zeros_spec`, `Sha256.zeros_least` — the padding is the least that fills a block
-/

namespace Sha256

abbrev Word := BitVec 32

/-! ### Functions of words -/

def ch (x y z : Word) : Word := (x &&& y) ^^^ (~~~x &&& z)

def maj (x y z : Word) : Word := (x &&& y) ^^^ (x &&& z) ^^^ (y &&& z)

def bigSigma0 (x : Word) : Word := x.rotateRight 2 ^^^ x.rotateRight 13 ^^^ x.rotateRight 22

def bigSigma1 (x : Word) : Word := x.rotateRight 6 ^^^ x.rotateRight 11 ^^^ x.rotateRight 25

def smallSigma0 (x : Word) : Word := x.rotateRight 7 ^^^ x.rotateRight 18 ^^^ x >>> 3

def smallSigma1 (x : Word) : Word := x.rotateRight 17 ^^^ x.rotateRight 19 ^^^ x >>> 10

/-- The constants: the first 32 bits of the fractional parts of the cube roots of the first
64 primes. -/
def constants : List Word :=
  [0x428a2f98, 0x71374491, 0xb5c0fbcf, 0xe9b5dba5, 0x3956c25b, 0x59f111f1, 0x923f82a4, 0xab1c5ed5,
   0xd807aa98, 0x12835b01, 0x243185be, 0x550c7dc3, 0x72be5d74, 0x80deb1fe, 0x9bdc06a7, 0xc19bf174,
   0xe49b69c1, 0xefbe4786, 0x0fc19dc6, 0x240ca1cc, 0x2de92c6f, 0x4a7484aa, 0x5cb0a9dc, 0x76f988da,
   0x983e5152, 0xa831c66d, 0xb00327c8, 0xbf597fc7, 0xc6e00bf3, 0xd5a79147, 0x06ca6351, 0x14292967,
   0x27b70a85, 0x2e1b2138, 0x4d2c6dfc, 0x53380d13, 0x650a7354, 0x766a0abb, 0x81c2c92e, 0x92722c85,
   0xa2bfe8a1, 0xa81a664b, 0xc24b8b70, 0xc76c51a3, 0xd192e819, 0xd6990624, 0xf40e3585, 0x106aa070,
   0x19a4c116, 0x1e376c08, 0x2748774c, 0x34b0bcb5, 0x391c0cb3, 0x4ed8aa4a, 0x5b9cca4f, 0x682e6ff3,
   0x748f82ee, 0x78a5636f, 0x84c87814, 0x8cc70208, 0x90befffa, 0xa4506ceb, 0xbef9a3f7, 0xc67178f2]

/-! ### Padding -/

/-- How many zeros come between the mark and the length of a message. -/
def zeros (length : Nat) : Nat := (119 - length % 64) % 64

/-- The bytes of a 64-bit number, the most significant first. -/
def bigEndian64 (n : Nat) : List UInt8 :=
  [56, 48, 40, 32, 24, 16, 8, 0].map fun shift => UInt8.ofNat (n >>> shift)

/-- A mark, zeros, and the length in bits. -/
def padding (length : Nat) : List UInt8 :=
  0x80 :: List.replicate (zeros length) 0 ++ bigEndian64 (8 * length)

theorem length_padding (length : Nat) : (padding length).length = zeros length + 9 := by
  simp [padding, bigEndian64]

/-- The length of a padded message. -/
def paddedLength (length : Nat) : Nat := length + zeros length + 9

/-- The mark and the zeros leave room for the length in the last block. -/
theorem zeros_spec (length : Nat) : (length + 1 + zeros length) % 64 = 56 := by
  simp only [zeros]
  omega

/-- Fewer zeros do not. -/
theorem zeros_least {length k : Nat} (fewer : k < zeros length) : (length + 1 + k) % 64 ≠ 56 := by
  simp only [zeros] at fewer
  omega

/-! ### Blocks -/

/-- A word from its bytes, the most significant first. -/
def word (b₀ b₁ b₂ b₃ : UInt8) : Word :=
  b₀.toBitVec ++ b₁.toBitVec ++ b₂.toBitVec ++ b₃.toBitVec

/-- The word at a position of a message. -/
def wordAt (message : List UInt8) (offset : Nat) : Word :=
  word (message.getD offset 0) (message.getD (offset + 1) 0) (message.getD (offset + 2) 0)
    (message.getD (offset + 3) 0)

/-- The first words of the schedule of the block of a message at a position. -/
def words (message : List UInt8) (base : Nat) : Nat → List Word
  | 0 => []
  | t + 1 =>
    let w := words message base t
    w ++ [if t < 16 then wordAt message (base + 4 * t)
      else smallSigma1 (w.getD (t - 2) 0) + w.getD (t - 7) 0 + smallSigma0 (w.getD (t - 15) 0) +
        w.getD (t - 16) 0]

@[simp] theorem length_words (message : List UInt8) (base t : Nat) :
    (words message base t).length = t := by
  induction t with
  | zero => rfl
  | succ t ih => simp [words, ih]

/-- The message schedule. -/
def schedule (message : List UInt8) (base : Nat) : List Word := words message base 64

/-! ### Compression -/

/-- The eight working variables. -/
structure State where
  a : Word
  b : Word
  c : Word
  d : Word
  e : Word
  f : Word
  g : Word
  h : Word
  deriving DecidableEq

/-- The words of a state, in order. -/
def State.toList (s : State) : List Word := [s.a, s.b, s.c, s.d, s.e, s.f, s.g, s.h]

/-- The words of two states, added. -/
def State.add (s t : State) : State :=
  ⟨s.a + t.a, s.b + t.b, s.c + t.c, s.d + t.d, s.e + t.e, s.f + t.f, s.g + t.g, s.h + t.h⟩

/-- The state hashing starts in: the first 32 bits of the fractional parts of the square roots
of the first eight primes. -/
def initial : State :=
  ⟨0x6a09e667, 0xbb67ae85, 0x3c6ef372, 0xa54ff53a, 0x510e527f, 0x9b05688c, 0x1f83d9ab, 0x5be0cd19⟩

/-- One round, with a constant and a word of the schedule. -/
def round (s : State) (k w : Word) : State :=
  let t₁ := s.h + bigSigma1 s.e + ch s.e s.f s.g + k + w
  let t₂ := bigSigma0 s.a + maj s.a s.b s.c
  ⟨t₁ + t₂, s.a, s.b, s.c, s.d + t₁, s.e, s.f, s.g⟩

/-- The first rounds of a schedule. -/
def rounds (s : State) (w : List Word) (t : Nat) : State :=
  (List.range t).foldl (fun s t => round s (constants.getD t 0) (w.getD t 0)) s

@[simp] theorem rounds_zero (s : State) (w : List Word) : rounds s w 0 = s := rfl

theorem rounds_succ (s : State) (w : List Word) (t : Nat) :
    rounds s w (t + 1) = round (rounds s w t) (constants.getD t 0) (w.getD t 0) := by
  simp [rounds, List.range_succ]

/-- Compress a schedule into a state. -/
def compress (s : State) (w : List Word) : State := s.add (rounds s w 64)

/-- The state after the first blocks of a padded message. -/
def hashBlocks (message : List UInt8) (blocks : Nat) : State :=
  (List.range blocks).foldl (fun s b => compress s (schedule message (64 * b))) initial

@[simp] theorem hashBlocks_zero (message : List UInt8) : hashBlocks message 0 = initial := rfl

theorem hashBlocks_succ (message : List UInt8) (blocks : Nat) :
    hashBlocks message (blocks + 1) =
      compress (hashBlocks message blocks) (schedule message (64 * blocks)) := by
  simp [hashBlocks, List.range_succ]

/-! ### The hash -/

/-- The bytes of a word, the most significant first. -/
def bytesOfWord (w : Word) : List UInt8 :=
  [24, 16, 8, 0].map fun shift => UInt8.ofNat (w.toNat >>> shift)

/-- A message with its padding. -/
def padded (message : List UInt8) : List UInt8 := message ++ padding message.length

/-- The hash of a message. -/
def digest (message : List UInt8) : List UInt8 :=
  (hashBlocks (padded message) (paddedLength message.length / 64)).toList.flatMap bytesOfWord

example : digest [0x61, 0x62, 0x63] =
    [0xba, 0x78, 0x16, 0xbf, 0x8f, 0x01, 0xcf, 0xea, 0x41, 0x41, 0x40, 0xde, 0x5d, 0xae, 0x22, 0x23,
      0xb0, 0x03, 0x61, 0xa3, 0x96, 0x17, 0x7a, 0x9c, 0xb4, 0x10, 0xff, 0x61, 0xf2, 0x00, 0x15,
      0xad] := by
  decide +kernel

end Sha256

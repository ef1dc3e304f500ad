import Mathlib.Data.List.GetD
import CodeDb.Language.Evaluator
import CodeDb.Lib.Loop

/-!
# Self-hosted programs

What the programs of the compiler that are written in the language itself compute with:
numbers of fixed width, strings with a fixed capacity, arrays and loops.

A string knows that its bytes fit, so what is pushed onto it one byte after the other either
fits as a whole or the program traps.

## Main definitions

* `Trap`, `Run` — computations that may trap
* `Buffer` — strings

## Main results

* `Buffer.push_bind_append` — bytes pushed one after the other are bytes appended
* `push_loop` — a loop that pushes bytes appends them
-/

namespace CodeDb

namespace SelfHosted

/-- Why a program stops. -/
inductive Trap where
  /-- A part that is not there. -/
  | outOfBounds
  /-- A push onto a string that is full. -/
  | full
  /-- A loop that does not come to an end. -/
  | endless
  /-- A division by zero. -/
  | divisionByZero
  /-- A recursion that is too deep. -/
  | stackOverflow
  deriving DecidableEq

/-- Computations that may trap. -/
abbrev Run (α : Type) := Except Trap α

namespace Run

variable {α β : Type}

@[simp] theorem ok_bind (a : α) (f : α → Run β) : (Except.ok a >>= f : Run β) = f a := rfl

@[simp] theorem error_bind (trap : Trap) (f : α → Run β) :
    (Except.error trap >>= f : Run β) = Except.error trap := rfl

end Run

abbrev I64 := BitVec 64

abbrev U32 := BitVec 32

/-! ### Numbers -/

def toI64 (byte : UInt8) : I64 := byte.toBitVec.setWidth 64

def toU8 (n : I64) : UInt8 := ⟨n.setWidth 8⟩

def toU32 (n : I64) : U32 := n.setWidth 32

/-- A word shifted to the right. -/
def shr (x n : U32) : U32 := evalShift .shr false x n

/-- A word shifted to the left. -/
def shl (x n : U32) : U32 := evalShift .shl false x n

/-- A signed number shifted to the right. -/
def sar (x n : I64) : I64 := evalShift .shr true x n

/-- A signed number shifted to the left. -/
def sal (x n : I64) : I64 := evalShift .shl true x n

theorem toI64_injective : Function.Injective toI64 := by
  intro a b same
  have same := congrArg BitVec.toNat same
  rw [toI64, toI64, BitVec.toNat_setWidth, BitVec.toNat_setWidth] at same
  have ha := a.toNat_lt
  have hb := b.toNat_lt
  apply UInt8.toNat_inj.mp
  change a.toNat % _ = b.toNat % _ at same
  omega

theorem toI64_beq {a b : UInt8} (differs : a ≠ b) : (toI64 a == toI64 b) = false := by
  rw [beq_eq_false_iff_ne]
  exact fun same => differs (toI64_injective same)

/-- A count that fits, as a number. -/
theorem toNat_ofNat {n : Nat} (small : n < 2 ^ 63) : (BitVec.ofNat 64 n).toNat = n := by
  rw [BitVec.toNat_ofNat]
  omega

theorem toInt_ofNat {n : Nat} (small : n < 2 ^ 63) : (BitVec.ofNat 64 n).toInt = n := by
  rw [BitVec.toInt_eq_toNat_of_lt (by rw [toNat_ofNat small]; omega), toNat_ofNat small]

/-- Counts compare as they do. -/
theorem slt_ofNat {m n : Nat} (hm : m < 2 ^ 63) (hn : n < 2 ^ 63) :
    (BitVec.ofNat 64 m).slt (BitVec.ofNat 64 n) = decide (m < n) := by
  rw [BitVec.slt_eq_decide, toInt_ofNat hm, toInt_ofNat hn]
  simp

theorem sle_ofNat {m n : Nat} (hm : m < 2 ^ 63) (hn : n < 2 ^ 63) :
    (BitVec.ofNat 64 m).sle (BitVec.ofNat 64 n) = decide (m ≤ n) := by
  rw [BitVec.sle_eq_not_slt, slt_ofNat hn hm, ← decide_not]
  simp only [not_lt]

/-- The next count. -/
theorem ofNat_succ (n : Nat) : BitVec.ofNat 64 n + 1 = BitVec.ofNat 64 (n + 1) := by
  rw [BitVec.ofNat_add]
  rfl

/-- The next position is nearer to the end. -/
theorem toInt_sub_succ_lt {i n : I64} (before : i.slt n = true) :
    (n.toInt - (i + 1).toInt).toNat < (n.toInt - i.toInt).toNat := by
  rw [BitVec.slt_eq_decide, decide_eq_true_eq] at before
  have least := i.le_toInt
  have most := n.toInt_lt
  have one : (1 : I64).toInt = 1 := by decide
  have next : (i + 1).toInt = i.toInt + 1 := by
    rw [BitVec.toInt_add, one, Int.bmod_eq_of_le (by omega) (by omega)]
  omega

/-! ### Strings -/

/-- The byte of a slice at an index. -/
def sliceGet (s : List UInt8) (i : I64) : Run UInt8 :=
  match s[i.toNat]? with
  | some byte => pure byte
  | none => throw .outOfBounds

theorem sliceGet_eq (s : List UInt8) {i : Nat} (small : i < 2 ^ 63) {byte : UInt8}
    (there : s[i]? = some byte) : sliceGet s (BitVec.ofNat 64 i) = pure byte := by
  rw [sliceGet, toNat_ofNat small, there]

/-- A string: its bytes, and how many it has room for. -/
structure Buffer where
  bytes : List UInt8
  capacity : Nat
  fits : bytes.length ≤ capacity
  sized : capacity < 2 ^ 63

namespace Buffer

@[ext] theorem ext {b c : Buffer} (bytes : b.bytes = c.bytes) (capacity : b.capacity = c.capacity) :
    b = c := by
  cases b
  cases c
  cases bytes
  cases capacity
  rfl

theorem length_small (b : Buffer) : b.bytes.length < 2 ^ 63 := Nat.lt_of_le_of_lt b.fits b.sized

/-- `string_with_capacity`. -/
def withCapacity (capacity : I64) : Run Buffer :=
  if sized : capacity.toNat < 2 ^ 63 then
    pure { bytes := [], capacity := capacity.toNat, fits := Nat.zero_le _, sized }
  else throw .outOfBounds

/-- `string_len`. -/
def len (b : Buffer) : I64 := BitVec.ofNat 64 b.bytes.length

/-- `string_get`. -/
def get (b : Buffer) (i : I64) : Run UInt8 := sliceGet b.bytes i

/-- A position in a string is not beyond its end. -/
theorem len_sle (b : Buffer) {i : Nat} (inside : i ≤ b.bytes.length) :
    b.len.sle (BitVec.ofNat 64 i) = decide (b.bytes.length ≤ i) :=
  sle_ofNat b.length_small (Nat.lt_of_le_of_lt inside b.length_small)

/-- `string_set`. -/
def set (b : Buffer) (i : I64) (byte : UInt8) : Run Buffer :=
  if i.toNat < b.bytes.length then
    pure { b with bytes := b.bytes.set i.toNat byte, fits := by simpa using b.fits }
  else throw .outOfBounds

/-- Put bytes at the end of a string, if there is room for them. -/
def append (b : Buffer) (l : List UInt8) : Run Buffer :=
  if fits : (b.bytes ++ l).length ≤ b.capacity then pure { b with bytes := b.bytes ++ l, fits }
  else throw .full

/-- `string_push`. -/
def push (b : Buffer) (byte : UInt8) : Run Buffer := b.append [byte]

variable {b c : Buffer} {l l' : List UInt8}

theorem append_eq_ok :
    b.append l = .ok c ↔ c.bytes = b.bytes ++ l ∧ c.capacity = b.capacity := by
  have fits := c.fits
  rw [append]
  split
  · constructor
    · rintro ⟨⟩
      exact ⟨rfl, rfl⟩
    · rintro ⟨bytes, capacity⟩
      exact congrArg Except.ok (Buffer.ext bytes.symm capacity.symm)
  · constructor
    · rintro ⟨⟩
    · rintro ⟨bytes, capacity⟩
      rw [bytes, capacity] at fits
      contradiction

@[simp] theorem append_nil (b : Buffer) : b.append [] = pure b :=
  append_eq_ok.mpr ⟨(List.append_nil _).symm, rfl⟩

/-- There is no room. -/
theorem append_full (full : b.capacity < b.bytes.length + l.length) :
    b.append l = .error .full := by
  rw [append, dif_neg (by rw [List.length_append]; omega)]
  rfl

/-- There is room. -/
theorem append_ok (room : b.bytes.length + l.length ≤ b.capacity) :
    ∃ c, b.append l = .ok c ∧ c.bytes = b.bytes ++ l ∧ c.capacity = b.capacity := by
  rw [append, dif_pos (by rw [List.length_append]; omega)]
  exact ⟨_, rfl, rfl, rfl⟩

/-- Bytes put after bytes. -/
theorem append_append (b : Buffer) (l l' : List UInt8) :
    (b.append l >>= fun c => c.append l') = b.append (l ++ l') := by
  by_cases room : b.bytes.length + l.length ≤ b.capacity
  · obtain ⟨c, first, bytes, capacity⟩ := append_ok room
    rw [first]
    change c.append l' = _
    rw [append, append]
    simp only [bytes, capacity, List.append_assoc]
  · rw [append_full (Nat.lt_of_not_le room), append_full (by rw [List.length_append]; omega)]
    rfl

/-- A byte pushed, and bytes put after it. -/
theorem push_bind_append (b : Buffer) (byte : UInt8) (l : List UInt8) :
    (b.push byte >>= fun c => c.append l) = b.append (byte :: l) := append_append b [byte] l

theorem get_eq (b : Buffer) {i : Nat} {byte : UInt8} (there : b.bytes[i]? = some byte) :
    b.get (BitVec.ofNat 64 i) = pure byte := by
  obtain ⟨inside, -⟩ := List.getElem?_eq_some_iff.mp there
  exact sliceGet_eq _ (Nat.lt_trans inside b.length_small) there

/-- The byte that the rest of a string starts with. -/
theorem get_drop {i : Nat} {byte : UInt8} {rest : List UInt8}
    (there : b.bytes.drop i = byte :: rest) : b.get (BitVec.ofNat 64 i) = pure byte := by
  apply b.get_eq
  rw [← List.head?_drop, there]
  rfl

/-- A position that something follows is inside. -/
theorem lt_length {i : Nat} {byte : UInt8} {rest : List UInt8}
    (there : b.bytes.drop i = byte :: rest) : i < b.bytes.length := by
  by_contra beyond
  rw [List.drop_eq_nil_of_le (by omega)] at there
  contradiction

/-- A byte of a string is replaced. -/
theorem set_ok (b : Buffer) {i : Nat} (inside : i < b.bytes.length) (byte : UInt8) :
    ∃ c : Buffer, b.set (BitVec.ofNat 64 i) byte = .ok c ∧ c.bytes = b.bytes.set i byte := by
  have index := toNat_ofNat (Nat.lt_trans inside b.length_small)
  rw [set, if_pos (by rwa [index])]
  exact ⟨_, rfl, congrArg (fun i => b.bytes.set i byte) index⟩

end Buffer

/-! ### Arrays -/

section Arrays

variable {α : Type} {n : Nat}

/-- The element of an array at an index. -/
def arrayGet (a : Vector α n) (i : I64) : Run α :=
  match a[i.toNat]? with
  | some element => pure element
  | none => throw .outOfBounds

/-- `array_set`. -/
def arraySet (a : Vector α n) (i : I64) (element : α) : Run (Vector α n) :=
  if inside : i.toNat < n then pure (a.set i.toNat element inside) else throw .outOfBounds

theorem arrayGet_eq (a : Vector α n) {i : Nat} (small : n < 2 ^ 63) (inside : i < n) :
    arrayGet a (BitVec.ofNat 64 i) = pure a[i] := by
  rw [arrayGet, toNat_ofNat (Nat.lt_trans inside small), Vector.getElem?_eq_getElem inside]

theorem arraySet_eq (a : Vector α n) {i : Nat} (small : n < 2 ^ 63) (inside : i < n)
    (element : α) : arraySet a (BitVec.ofNat 64 i) element = pure (a.set i element inside) := by
  simp only [arraySet, toNat_ofNat (Nat.lt_trans inside small), dif_pos inside]

/-- The array that begins with the elements of a list. -/
def arrayOf (fill : α) (n : Nat) (l : List α) : Vector α n := Vector.ofFn fun j => l.getD j fill

/-- There are no elements yet. -/
theorem arrayOf_nil (fill : α) (n : Nat) : arrayOf fill n [] = Vector.replicate n fill := by
  apply Vector.ext
  intro j small
  simp [arrayOf]

/-- An element of the list. -/
theorem arrayGet_arrayOf (fill : α) (l : List α) {i : Nat} (small : n < 2 ^ 63) (inside : i < n) :
    arrayGet (arrayOf fill n l) (BitVec.ofNat 64 i) = pure (l.getD i fill) := by
  rw [arrayGet_eq _ small inside]
  simp [arrayOf]

/-- The next element is put in its place. -/
theorem arraySet_arrayOf (fill : α) {l : List α} {i : Nat} (next : i = l.length)
    (small : n < 2 ^ 63) (inside : i < n) (element : α) :
    arraySet (arrayOf fill n l) (BitVec.ofNat 64 i) element =
      pure (arrayOf fill n (l ++ [element])) := by
  subst next
  rw [arraySet_eq _ small inside]
  congr 1
  apply Vector.ext
  intro j hj
  rw [Vector.getElem_set]
  simp only [arrayOf, Vector.getElem_ofFn]
  by_cases here : l.length = j
  · simp [← here]
  · rw [if_neg here]
    by_cases before : j < l.length
    · rw [List.getD_append _ _ _ _ before]
    · rw [List.getD_eq_default _ _ (by omega),
        List.getD_eq_default _ _ (by rw [List.length_append, List.length_singleton]; omega)]

/-- What the array begins with. -/
theorem take_arrayOf (fill : α) {l : List α} (inside : l.length ≤ n) :
    (arrayOf fill n l).toList.take l.length = l := by
  apply List.ext_getElem
  · simpa using inside
  · intro j hj hj'
    simp [arrayOf, List.getElem?_eq_getElem hj']

end Arrays

/-! ### Loops -/

section Loops

variable {σ : Type}

/-- A loop of a program. -/
@[irreducible] def loop {m : Type → Type} [Monad m] [MonadExceptOf Trap m] (seed : σ)
    (cond : σ → Bool) (body : σ → m σ) : m σ :=
  Loop.loop (throw .endless) cond body maxEvalLoopIterations seed

/-- A loop that pushes bytes one after the other appends them, or there is no room for them. -/
theorem push_loop (beyond : Run σ) (cond : σ → Bool) (body : σ → Run σ) (l : List UInt8)
    (f : Buffer → Nat → σ) (more : ∀ b, ∀ i ≤ l.length, cond (f b i) = decide (i < l.length))
    (step : ∀ b i (inside : i < l.length),
      body (f b i) = b.push l[i] >>= fun c => pure (f c (i + 1)))
    (b : Buffer) (i : Nat) (inside : i ≤ l.length) (left : Nat) (bounded : l.length ≤ i + left) :
    Loop.loop beyond cond body left (f b i) =
      b.append (l.drop i) >>= fun c => pure (f c l.length) := by
  obtain ⟨n, rest⟩ := Nat.exists_eq_add_of_le inside
  induction n generalizing b i left with
  | zero =>
    have done : i = l.length := by omega
    rw [Loop.loop_done (by rw [more b i inside, decide_eq_false (by omega)]), done,
      List.drop_length, Buffer.append_nil, pure_bind]
  | succ n ih =>
    have here : i < l.length := by omega
    obtain ⟨left, rfl⟩ := Nat.exists_eq_succ_of_ne_zero (show left ≠ 0 by omega)
    rw [Loop.loop_step (by rw [more b i inside, decide_eq_true here]), step b i here,
      List.drop_eq_getElem_cons here, ← Buffer.push_bind_append, bind_assoc, bind_assoc]
    refine bind_congr fun c => ?_
    rw [pure_bind]
    exact ih c (i + 1) here left (by omega) (by omega)

end Loops

end SelfHosted

end CodeDb

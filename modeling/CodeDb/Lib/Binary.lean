import CodeDb.Lib.Except
import Mathlib.Algebra.Ring.Nat

/-!
# Reading bytes from a position

A reader takes bytes from a position on and moves behind them, or fails if there are too few.

What is read of some bytes does not depend on where they stand and on what follows them, so the
readers of the parts of a format are put together as the parts are. And a reader that succeeds
does not look at what comes after, so it does the same if there is more.

## Main definitions

* `Binary.leBytes`, `Binary.ofLe` — numbers, the least byte first
* `Binary.ReadM` — readers
* `Binary.Reads` — what is read of some bytes
* `Binary.Stable` — readers that do not look behind what they take

## Main results

* `Binary.ofLe_leBytes` — a number is read back
* `Binary.Reads.bind`, `Binary.Stable.bind` — readers one after the other
* `Binary.Reads.times` — a reader some times over
-/

namespace Binary

/-! ### Numbers -/

/-- A number in some bytes, the least byte first. -/
def leBytes : Nat → Nat → List UInt8
  | 0, _ => []
  | k + 1, n => UInt8.ofNat n :: leBytes k (n / 256)

/-- The number that some bytes are, the least byte first. -/
def ofLe : List UInt8 → Nat
  | [] => 0
  | b :: l => b.toNat + 256 * ofLe l

@[simp] theorem length_leBytes (k n : Nat) : (leBytes k n).length = k := by
  induction k generalizing n with
  | zero => rfl
  | succ k ih => rw [leBytes, List.length_cons, ih]

/-- A number is read back as far as there is room for it. -/
theorem ofLe_leBytes (k n : Nat) : ofLe (leBytes k n) = n % 256 ^ k := by
  induction k generalizing n with
  | zero => rw [leBytes, ofLe, Nat.pow_zero, Nat.mod_one]
  | succ k ih =>
    have byte : (UInt8.ofNat n).toNat = n % 256 := UInt8.toNat_ofNat'
    rw [leBytes, ofLe, ih, byte, Nat.pow_succ', Nat.mod_mul]

/-! ### Readers -/

/-- Bytes, and how many of them are taken. -/
structure Reader where
  bytes : List UInt8
  pos : Nat

/-- Computations that take bytes, and may fail. -/
abbrev ReadM (ε α : Type) := StateT Reader (Except ε) α

section Readers

variable {ε α β : Type}

/-- Take some bytes. Where there are too few, the failure may name the position. -/
def take (truncated : Nat → ε) (len : Nat) : ReadM ε (List UInt8) := do
  let reader ← get
  if reader.pos + len ≤ reader.bytes.length then
    set { reader with pos := reader.pos + len }
    return (reader.bytes.drop reader.pos).take len
  else throw (truncated reader.pos)

theorem run_take (truncated : Nat → ε) (len : Nat) (reader : Reader) :
    (take truncated len).run reader = if reader.pos + len ≤ reader.bytes.length then
      .ok ((reader.bytes.drop reader.pos).take len, { reader with pos := reader.pos + len })
    else .error (truncated reader.pos) := by
  change StateT.run (if reader.pos + len ≤ reader.bytes.length then _ else _) reader = _
  split <;> rfl

/-- A reader some times over. -/
def times : Nat → ReadM ε α → ReadM ε (List α)
  | 0, _ => return []
  | n + 1, r => do
    let a ← r
    let l ← times n r
    return a :: l

/-! ### What is read -/

/-- Wherever some bytes stand, they are taken with some result. -/
def Reads (r : ReadM ε α) (bytes : List UInt8) (x : Except ε α) : Prop :=
  ∀ front rest, r.run ⟨front ++ (bytes ++ rest), front.length⟩ =
    x.map fun a => (a, ⟨front ++ (bytes ++ rest), front.length + bytes.length⟩)

namespace Reads

variable {r : ReadM ε α} {f : α → ReadM ε β} {bytes bytes' : List UInt8} {x : Except ε α}

theorem pure (a : α) : Reads (Pure.pure a : ReadM ε α) [] (.ok a) := fun _ _ => rfl

/-- What does not read has its result without taking any bytes. -/
theorem lift (x : Except ε α) : Reads (liftM x : ReadM ε α) [] x := by
  intro front rest
  cases x <;> rfl

/-- What is read first, and then the rest. -/
theorem bind {g : α → Except ε β} (first : Reads r bytes x)
    (next : ∀ a, x = .ok a → Reads (f a) bytes' (g a)) :
    Reads (r >>= f) (bytes ++ bytes') (x >>= g) := by
  intro front rest
  have start := first front (bytes' ++ rest)
  rw [StateT.run_bind, List.append_assoc, start]
  cases x with
  | error e => rfl
  | ok a =>
    have last := next a rfl (front ++ bytes) rest
    rw [List.append_assoc, List.length_append] at last
    rw [List.length_append, ← Nat.add_assoc]
    exact last

/-- What is read without fail first, and then the rest. -/
theorem seq {a : α} {y : Except ε β} (first : Reads r bytes (.ok a)) (next : Reads (f a) bytes' y) :
    Reads (r >>= f) (bytes ++ bytes') y :=
  first.bind (g := fun _ => y) fun b same => by
    cases same
    exact next

/-- What is worked out before anything is taken may fail. -/
theorem compute {γ : Type} {e : Except ε γ} {f : γ → ReadM ε β} {g : γ → Except ε β}
    (next : ∀ c, e = .ok c → Reads (f c) bytes (g c)) : Reads (liftM e >>= f) bytes (e >>= g) := by
  cases e with
  | error err => exact fun _ _ => rfl
  | ok c => exact next c rfl

/-- Nothing is taken after the last part. -/
theorem last {a : α} {b : β} (first : Reads r bytes (.ok a)) (next : f a = Pure.pure b) :
    Reads (r >>= f) bytes (.ok b) := by
  have both : Reads (r >>= f) (bytes ++ []) (.ok b) := first.seq (by rw [next]; exact pure b)
  rwa [List.append_nil] at both

theorem take (truncated : Nat → ε) (bytes : List UInt8) :
    Reads (Binary.take truncated bytes.length) bytes (.ok bytes) := by
  intro front rest
  have room : front.length + bytes.length ≤ (front ++ (bytes ++ rest)).length := by
    simp only [List.length_append]
    omega
  rw [run_take, if_pos room, List.drop_left, List.take_left]
  rfl

/-- What is worked out of what was read last takes no bytes. -/
theorem andThen {b : α → β} (first : Reads r bytes x) (next : ∀ a, f a = Pure.pure (b a)) :
    Reads (r >>= f) bytes (do return b (← x)) := by
  have both : Reads (r >>= f) (bytes ++ []) (do return b (← x)) :=
    first.bind fun a _ => next a ▸ pure (b a)
  rwa [List.append_nil] at both

/-- What does not stop a reader is passed over. -/
theorem pass {c : Prop} [Decidable c] {stop : ReadM ε α} (holds : ¬c) (rest : Reads r bytes x) :
    Reads (if c then stop else r) bytes x := by
  rwa [if_neg holds]

/-- A reader some times over reads some bytes after the other. -/
theorem times {γ : Type} {write : γ → List UInt8} {read : γ → Except ε α} (l : List γ)
    (each : ∀ c ∈ l, Reads r (write c) (read c)) :
    Reads (Binary.times l.length r) (l.flatMap write) (l.mapM read) := by
  induction l with
  | nil => exact pure []
  | cons c l ih =>
    rw [List.length_cons, Binary.times, List.flatMap_cons, List.mapM_cons]
    have head := each c List.mem_cons_self
    have tail := ih fun d listed => each d (List.mem_cons_of_mem _ listed)
    exact head.bind fun a _ => tail.andThen fun _ => rfl

/-- Readers one after the other, each of which reads what it is to read. -/
theorem mapM {γ δ : Type} {read : γ → ReadM ε α} {index : δ → γ} {write : δ → List UInt8}
    {value : δ → α} (l : List δ)
    (each : ∀ d ∈ l, Reads (read (index d)) (write d) (.ok (value d))) :
    Reads ((l.map index).mapM read) (l.flatMap write) (.ok (l.map value)) := by
  induction l with
  | nil => exact pure []
  | cons d l ih =>
    rw [List.map_cons, List.mapM_cons, List.flatMap_cons]
    have head := each d List.mem_cons_self
    have tail := ih fun e listed => each e (List.mem_cons_of_mem _ listed)
    exact head.seq (tail.last rfl)

end Reads

/-! ### What is read if there is more -/

/-- A reader that leaves the bytes as they are and does not look behind what it takes. -/
def Stable (r : ReadM ε α) : Prop :=
  ∀ bytes pos a after, r.run ⟨bytes, pos⟩ = .ok (a, after) → after.bytes = bytes ∧
    ∀ more, r.run ⟨bytes ++ more, pos⟩ = .ok (a, ⟨bytes ++ more, after.pos⟩)

namespace Stable

variable {r : ReadM ε α} {f : α → ReadM ε β}

theorem pure (a : α) : Stable (Pure.pure a : ReadM ε α) := by
  rintro bytes pos b after run
  cases run
  exact ⟨rfl, fun _ => rfl⟩

theorem throw (e : ε) : Stable (MonadExcept.throw e : ReadM ε α) := by
  rintro bytes pos b after run
  cases run

theorem lift (x : Except ε α) : Stable (liftM x : ReadM ε α) := by
  cases x with
  | error e => exact throw e
  | ok a => exact pure a

theorem ite {c : Prop} [Decidable c] {s : ReadM ε α} (one : Stable r) (other : Stable s) :
    Stable (if c then r else s) := by
  split
  · exact one
  · exact other

theorem bind (first : Stable r) (next : ∀ a, Stable (f a)) : Stable (r >>= f) := by
  intro bytes pos b after run
  rw [StateT.run_bind] at run
  obtain ⟨⟨a, mid⟩, started, ended⟩ := Except.bind_eq_ok.mp run
  obtain ⟨same, start⟩ := first _ _ _ _ started
  obtain ⟨kept, last⟩ := next a mid.bytes mid.pos b after ended
  rw [same] at kept last
  refine ⟨kept, fun more => ?_⟩
  rw [StateT.run_bind, start more]
  exact last more

theorem take (truncated : Nat → ε) (len : Nat) : Stable (Binary.take truncated len) := by
  intro bytes pos a after run
  rw [run_take] at run
  by_cases room : pos + len ≤ bytes.length
  · rw [if_pos room] at run
    cases run
    refine ⟨rfl, fun more => ?_⟩
    simp only [run_take]
    rw [if_pos (by rw [List.length_append]; exact Nat.le_add_right_of_le room),
      List.drop_append_of_le_length (by omega),
      List.take_append_of_le_length (by rw [List.length_drop]; omega)]
  · rw [if_neg room] at run
    cases run

theorem times (each : Stable r) (n : Nat) : Stable (Binary.times n r) := by
  induction n with
  | zero => exact pure []
  | succ n ih => exact each.bind fun a => ih.bind fun l => pure (a :: l)

theorem mapM {γ : Type} {read : γ → ReadM ε α} (l : List γ) (each : ∀ c ∈ l, Stable (read c)) :
    Stable (l.mapM read) := by
  induction l with
  | nil => exact pure []
  | cons c l ih =>
    rw [List.mapM_cons]
    refine (each c List.mem_cons_self).bind fun a => ?_
    exact (ih fun d listed => each d (List.mem_cons_of_mem _ listed)).bind fun l => pure (a :: l)

end Stable

end Readers

end Binary

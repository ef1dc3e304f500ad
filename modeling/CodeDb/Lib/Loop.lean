import Mathlib.Logic.Function.Iterate

/-!
# Loops with an accumulator

A loop carries a value, goes on while a condition holds of it, and makes the next value in a
monad, which may fail. It has a bound on its iterations, after which it ends in what the
language says about loops that do not come to an end.

A loop is reasoned about by following its values: as long as the body makes the next of a
sequence, the loop goes along it. Where there is no sequence to write down, the steps are put
together one by one.

## Main definitions

* `loop` — a loop with a bound
* `Steps` — some steps of a loop

## Main results

* `Steps.loop_eq` — a loop that takes steps to its end
* `loop_along` — a loop that follows a sequence to its end
-/

namespace Loop

variable {m : Type → Type} [Monad m] {σ : Type}

/-- Carry a value while a condition holds of it. Beyond the bound there is a last attempt. -/
def loop (beyond : m σ) (cond : σ → Bool) (body : σ → m σ) : Nat → σ → m σ
  | left, s =>
    if cond s then do
      let next ← body s
      match left with
      | 0 => beyond
      | left + 1 => loop beyond cond body left next
    else pure s

variable {beyond : m σ} {cond : σ → Bool} {body : σ → m σ} {left : Nat} {s : σ}

theorem loop_done (done : cond s = false) : loop beyond cond body left s = pure s := by
  rw [loop, if_neg (by simp [done])]

theorem loop_step (more : cond s = true) :
    loop beyond cond body (left + 1) s = body s >>= loop beyond cond body left := by
  rw [loop, if_pos more]

/-- Some steps of a loop. -/
inductive Steps (cond : σ → Bool) (body : σ → m σ) : Nat → σ → σ → Prop
  | refl (s : σ) : Steps cond body 0 s s
  | head {n : Nat} {s t u : σ} : cond s = true → body s = pure t → Steps cond body n t u →
    Steps cond body (n + 1) s u

namespace Steps

variable {n k : Nat} {t u : σ}

theorem one (more : cond s = true) (step : body s = pure t) : Steps cond body 1 s t :=
  .head more step (.refl t)

theorem trans (first : Steps cond body n s t) (rest : Steps cond body k t u) :
    Steps cond body (n + k) s u := by
  induction first with
  | refl s => rwa [Nat.zero_add]
  | head more step _ ih =>
    rw [Nat.add_right_comm]
    exact .head more step (ih rest)

/-- As long as the body makes the next value of a sequence, the steps go along it. -/
theorem along (f : Nat → σ) (n : Nat) (more : ∀ i < n, cond (f i) = true)
    (step : ∀ i < n, body (f i) = pure (f (i + 1))) : Steps cond body n (f 0) (f n) := by
  induction n with
  | zero => exact .refl _
  | succ n ih =>
    have first := ih (fun i small => more i (by omega)) fun i small => step i (by omega)
    exact first.trans (.one (more n n.lt_succ_self) (step n n.lt_succ_self))

/-- A loop takes its steps to its end. -/
theorem loop_eq [LawfulMonad m] (steps : Steps cond body n s t) (done : cond t = false)
    (bounded : n ≤ left) : loop beyond cond body left s = pure t := by
  induction steps generalizing left with
  | refl s => exact loop_done done
  | head more step _ ih =>
    obtain ⟨left, rfl⟩ := Nat.exists_eq_succ_of_ne_zero (show left ≠ 0 by omega)
    rw [loop_step more, step, pure_bind, ih done (by omega)]

end Steps

/-- A loop that follows a sequence to where the condition does not hold. -/
theorem loop_along [LawfulMonad m] (f : Nat → σ) (n : Nat) (more : ∀ i < n, cond (f i) = true)
    (step : ∀ i < n, body (f i) = pure (f (i + 1))) (done : cond (f n) = false)
    (bounded : n ≤ left) : loop beyond cond body left (f 0) = pure (f n) :=
  (Steps.along f n more step).loop_eq done bounded

end Loop

import CodeDb.Lib.Except

/-!
# Computations that settle

A recursive computation is given by what it computes with so much fuel, and stops short where the
fuel runs out. It settles if from some fuel on it computes the same, and does not stop short.

## Main definitions

* `Results` — what is computed from some fuel on
* `Settles` — something is computed from some fuel on

## Main results

* `Settles.bind` — a computation in two stages settles if both do
* `Settles.succ` — a call with less fuel may settle instead
* `settles_mapM`, `settles_forM` — a computation on every element of a list settles
-/

namespace Settling

variable {σ ε α β κ : Type} {stop : ε} {s : σ}

/-- From some fuel on, a computation has a result. -/
def Results (x : Nat → StateT σ (Except ε) α) (s : σ) (result : Except ε (α × σ)) : Prop :=
  ∃ enough, ∀ fuel, enough ≤ fuel → (x fuel).run s = result

/-- From some fuel on, a computation has one result, and has not stopped short. -/
def Settles (stop : ε) (x : Nat → StateT σ (Except ε) α) (s : σ) : Prop :=
  ∃ result, result ≠ .error stop ∧ Results x s result

variable {x : Nat → StateT σ (Except ε) α} {f : Nat → α → StateT σ (Except ε) β}

/-- A result is one with some fuel. -/
theorem Results.exists_run {result : Except ε (α × σ)} (results : Results x s result) :
    ∃ fuel, (x fuel).run s = result := by
  obtain ⟨enough, same⟩ := results
  exact ⟨enough, same enough (Nat.le_refl _)⟩

/-- What needs no fuel settles. -/
theorem settles_const {c : StateT σ (Except ε) α} (done : c.run s ≠ .error stop) :
    Settles stop (fun _ => c) s :=
  ⟨c.run s, done, 0, fun _ _ => rfl⟩

theorem settles_pure {a : α} : Settles stop (fun _ => (pure a : StateT σ (Except ε) α)) s := by
  refine settles_const ?_
  rw [StateT.run_pure]
  intro short
  cases short

/-- A computation in two stages settles if the first one does, and the second one after what
results from the first. -/
theorem Settles.bind (first : Settles stop x s)
    (rest : ∀ a s', Results x s (.ok (a, s')) → Settles stop (fun fuel => f fuel a) s') :
    Settles stop (fun fuel => x fuel >>= f fuel) s := by
  obtain ⟨result, done, enough, same⟩ := first
  cases result with
  | error e =>
    refine ⟨.error e, fun short => done (by cases short; rfl), enough, fun fuel le => ?_⟩
    rw [StateT.run_bind, same fuel le]
    rfl
  | ok r =>
    obtain ⟨a, s'⟩ := r
    obtain ⟨result, done', enough', same'⟩ := rest a s' ⟨enough, same⟩
    refine ⟨result, done', max enough enough', fun fuel le => ?_⟩
    rw [StateT.run_bind_of_ok (same fuel (Nat.le_trans (Nat.le_max_left ..) le))]
    exact same' fuel (Nat.le_trans (Nat.le_max_right ..) le)

/-- A first stage that needs no fuel. -/
theorem Settles.bind_const {c : StateT σ (Except ε) α} (done : c.run s ≠ .error stop)
    (rest : ∀ a s', c.run s = .ok (a, s') → Settles stop (fun fuel => f fuel a) s') :
    Settles stop (fun fuel => c >>= f fuel) s := by
  refine Settles.bind (settles_const done) fun a s' results => ?_
  obtain ⟨_, run⟩ := results.exists_run
  exact rest a s' run

/-- A computation settles if it does with one fuel more. -/
theorem Settles.succ (later : Settles stop (fun fuel => x (fuel + 1)) s) : Settles stop x s := by
  obtain ⟨result, done, enough, same⟩ := later
  refine ⟨result, done, enough + 1, fun fuel le => ?_⟩
  cases fuel with
  | zero => exact absurd le (Nat.not_succ_le_zero _)
  | succ fuel => exact same fuel (Nat.le_of_succ_le_succ le)

section Lists

variable {step : Nat → κ → StateT σ (Except ε) α} {l : List κ} (inv : σ → Prop)

/-- A computation on every element of a list settles, if each one does in the states that those
before it may lead to. -/
theorem settles_mapM
    (each : ∀ k ∈ l, ∀ s, inv s → Settles stop (fun fuel => step fuel k) s)
    (kept : ∀ k ∈ l, ∀ s fuel a s', inv s → (step fuel k).run s = .ok (a, s') → inv s')
    (start : inv s) : Settles stop (fun fuel => l.mapM (step fuel)) s := by
  induction l generalizing s with
  | nil => exact settles_pure
  | cons k l ih =>
    simp only [List.mapM_cons]
    refine Settles.bind (each k List.mem_cons_self s start) fun a s' results => ?_
    obtain ⟨fuel, run⟩ := results.exists_run
    refine Settles.bind (ih (fun k listed => each k (List.mem_cons_of_mem _ listed))
      (fun k listed => kept k (List.mem_cons_of_mem _ listed))
      (kept k List.mem_cons_self s fuel a s' start run)) fun _ _ _ => settles_pure

/-- As before, where only the state is of interest. -/
theorem settles_forM {step : Nat → κ → StateT σ (Except ε) PUnit}
    (each : ∀ k ∈ l, ∀ s, inv s → Settles stop (fun fuel => step fuel k) s)
    (kept : ∀ k ∈ l, ∀ s fuel s', inv s → (step fuel k).run s = .ok (⟨⟩, s') → inv s')
    (start : inv s) : Settles stop (fun fuel => l.forM (step fuel)) s := by
  induction l generalizing s with
  | nil => exact settles_pure
  | cons k l ih =>
    change Settles stop (fun fuel => step fuel k >>= fun _ => l.forM (step fuel)) s
    refine Settles.bind (each k List.mem_cons_self s start) fun a s' results => ?_
    obtain ⟨fuel, run⟩ := results.exists_run
    exact ih (fun k listed => each k (List.mem_cons_of_mem _ listed))
      (fun k listed => kept k (List.mem_cons_of_mem _ listed))
      (kept k List.mem_cons_self s fuel s' start run)

end Lists

end Settling

import Mathlib.Data.List.Basic

/-!
# Computations that log what they do

A computation over a state that may stop before it has a result. What it has logged, and
the state it has reached, outlive a stop. What it may log is a property it gets from its
parts: each way to put computations together comes with a rule.

## Main definitions

* `Logged` — computations over a state that log events and may stop
* `Logged.Logs` — a computation logs only what is allowed
* `Logged.Persists` — a computation leaves the state, and its result is there in later states

A computation over events that cannot exist logs nothing. It is lifted to any other kind
of event, so what is quiet is told from its type.

## Main results

* `Logs.bind`, `Logs.recover`, `Logs.each`, `Logs.foldl` — one rule for each way to put
  computations together
* `Persists.bind`, `Persists.foldl` — the same for what persists
* `Persists.bind_result` — the two stages of a computation that leaves the state
-/

/-- A computation over a state that logs events and may stop. -/
def Logged (σ ε φ α : Type) : Type := σ → Except φ α × List ε × σ

namespace Logged

variable {σ ε φ α β : Type} {allowed : ε → Prop}

/-- Go on with the result, if there is one. -/
def andThen (m : Logged σ ε φ α) (next : α → Logged σ ε φ β) : Logged σ ε φ β := fun s =>
  match m s with
  | (.error stop, log, s) => (.error stop, log, s)
  | (.ok a, log, s) =>
    let (result, more, s) := next a s
    (result, log ++ more, s)

instance : Monad (Logged σ ε φ) where
  pure a s := (.ok a, [], s)
  bind := andThen

/-- Stop. -/
def stop (reason : φ) : Logged σ ε φ α := fun s => (.error reason, [], s)

/-- Log an event. -/
def emit (event : ε) : Logged σ ε φ Unit := fun s => (.ok (), [event], s)

/-- Read from the state. -/
def read (f : σ → α) : Logged σ ε φ α := fun s => (.ok (f s), [], s)

/-- Change the state, and return something about it. -/
def change (f : σ → α × σ) : Logged σ ε φ α := fun s => (.ok (f s).1, [], (f s).2)

/-- A computation that has no events to log. -/
instance : MonadLift (Logged σ Empty φ) (Logged σ ε φ) where
  monadLift m s :=
    let (result, _, s) := m s
    (result, [], s)

/-- If a computation stops, go on from there. -/
def recover (m : Logged σ ε φ α) (handler : φ → Logged σ ε φ α) : Logged σ ε φ α := fun s =>
  match m s with
  | (.error reason, log, s) =>
    let (result, more, s) := handler reason s
    (result, log ++ more, s)
  | done => done

/-- Run a computation for each element of a list in turn. -/
def each (f : α → Logged σ ε φ β) : List α → Logged σ ε φ (List β)
  | [] => pure []
  | a :: rest => do return (← f a) :: (← each f rest)

/-- Pass a value through a computation for each element of a list in turn. -/
def foldl (f : β → α → Logged σ ε φ β) : β → List α → Logged σ ε φ β
  | b, [] => pure b
  | b, a :: rest => do foldl f (← f b a) rest

/-! ### Runs -/

/-- After a quiet stage, the next one starts from where it has led. -/
theorem bind_quiet {m : Logged σ ε φ α} {next : α → Logged σ ε φ β} {s s' : σ} {a : α}
    (run : m s = (.ok a, [], s')) : (m >>= next) s = next a s' := by
  simp only [Bind.bind, andThen, run]
  rfl

theorem quietly_run {m : Logged σ Empty φ α} {s s' : σ} {result : Except φ α} {log : List Empty}
    (run : m s = (result, log, s')) : (liftM m : Logged σ ε φ α) s = (result, [], s') := by
  simp only [liftM, monadLift, MonadLift.monadLift, run]

/-- Going on after a stop keeps what was logged before. -/
theorem mem_log_recover {m : Logged σ ε φ α} {handler : φ → Logged σ ε φ α} {s : σ} {event : ε}
    (mem : event ∈ (m s).2.1) : event ∈ (m.recover handler s).2.1 := by
  unfold recover
  split
  · rename_i equation
    rw [equation] at mem
    exact List.mem_append_left _ mem
  · exact mem

/-! ### Logs -/

/-- All that a computation logs is allowed, from whatever state it starts. -/
def Logs (allowed : ε → Prop) (m : Logged σ ε φ α) : Prop :=
  ∀ s, ∀ event ∈ (m s).2.1, allowed event

namespace Logs

theorem pure (a : α) : Logs allowed (Pure.pure a : Logged σ ε φ α) :=
  fun _ _ mem => absurd mem List.not_mem_nil

theorem stop (reason : φ) : Logs allowed (Logged.stop reason : Logged σ ε φ α) :=
  fun _ _ mem => absurd mem List.not_mem_nil

theorem quietly (m : Logged σ Empty φ α) : Logs allowed (liftM m : Logged σ ε φ α) :=
  fun _ _ mem => absurd mem List.not_mem_nil

theorem emit {event : ε} (ok : allowed event) :
    Logs allowed (Logged.emit event : Logged σ ε φ Unit) := by
  intro s other mem
  obtain rfl := List.mem_singleton.mp mem
  exact ok

theorem bind {m : Logged σ ε φ α} {next : α → Logged σ ε φ β} (first : Logs allowed m)
    (rest : ∀ a, Logs allowed (next a)) : Logs allowed (m >>= next) := by
  intro s event mem
  simp only [Bind.bind, andThen] at mem
  have first := first s
  split at mem
  · rename_i equation
    exact first event (by rwa [equation])
  · rename_i a log s' equation
    rcases List.mem_append.mp mem with mem | mem
    · exact first event (by rwa [equation])
    · exact rest a s' event mem

theorem recover {m : Logged σ ε φ α} {handler : φ → Logged σ ε φ α} (first : Logs allowed m)
    (rest : ∀ reason, Logs allowed (handler reason)) : Logs allowed (m.recover handler) := by
  intro s event mem
  simp only [Logged.recover] at mem
  have first := first s
  split at mem
  · rename_i reason log s' equation
    rcases List.mem_append.mp mem with mem | mem
    · exact first event (by rwa [equation])
    · exact rest reason s' event mem
  · exact first event mem

theorem each {f : α → Logged σ ε φ β} {l : List α} (step : ∀ a ∈ l, Logs allowed (f a)) :
    Logs allowed (Logged.each f l) := by
  induction l with
  | nil => exact pure []
  | cons a l ih =>
    obtain ⟨head, tail⟩ := List.forall_mem_cons.mp step
    exact head.bind fun _ => (ih tail).bind fun _ => pure _

theorem foldl {f : β → α → Logged σ ε φ β} {b : β} {l : List α}
    (step : ∀ b, ∀ a ∈ l, Logs allowed (f b a)) : Logs allowed (Logged.foldl f b l) := by
  induction l generalizing b with
  | nil => exact pure b
  | cons a l ih =>
    exact (step b a List.mem_cons_self).bind fun _ =>
      ih fun b a mem => step b a (List.mem_cons_of_mem _ mem)

theorem mono {other : ε → Prop} {m : Logged σ ε φ α} (logs : Logs allowed m)
    (weaker : ∀ event, allowed event → other event) : Logs other m :=
  fun s event mem => weaker event (logs s event mem)

end Logs

/-! ### Results that persist -/

/-- A computation leaves the state, and a result that it has is there in every later state. -/
def Persists (later : σ → σ → Prop) (m : Logged σ ε φ α) : Prop :=
  ∀ s, (m s).2.2 = s ∧ ∀ s' a, later s s' → (m s).1 = .ok a → (m s').1 = .ok a

namespace Persists

variable {later : σ → σ → Prop} {m : Logged σ ε φ α} {next : α → Logged σ ε φ β}

theorem pure (a : α) : Persists later (Pure.pure a : Logged σ ε φ α) :=
  fun _ => ⟨rfl, fun _ _ _ result => result⟩

theorem stop (reason : φ) : Persists later (Logged.stop reason : Logged σ ε φ α) :=
  fun _ => ⟨rfl, fun _ _ _ result => nomatch result⟩

/-- What a computation goes on with is the result of its first stage. -/
theorem bind_result (first : Persists later m) {s : σ} {b : β} :
    ((m >>= next) s).1 = .ok b ↔ ∃ a, (m s).1 = .ok a ∧ (next a s).1 = .ok b := by
  have left := (first s).1
  simp only [Bind.bind, andThen]
  split
  · rename_i reason log s' equation
    simp [equation]
  · rename_i a log s' equation
    rw [equation] at left
    obtain rfl : s' = s := left
    simp [equation]

theorem bind (first : Persists later m) (rest : ∀ a, Persists later (next a)) :
    Persists later (m >>= next) := by
  intro s
  constructor
  · have left := (first s).1
    simp only [Bind.bind, andThen]
    split
    · rename_i reason log s' equation
      rw [equation] at left
      exact left
    · rename_i a log s' equation
      rw [equation] at left
      obtain rfl : s' = s := left
      exact (rest a s').1
  · intro s' b after result
    obtain ⟨a, started, ended⟩ := first.bind_result.mp result
    exact first.bind_result.mpr
      ⟨a, (first s).2 s' a after started, (rest a s).2 s' b after ended⟩

theorem foldl {f : β → α → Logged σ ε φ β} {b : β} {l : List α}
    (step : ∀ b, ∀ a ∈ l, Persists later (f b a)) : Persists later (Logged.foldl f b l) := by
  induction l generalizing b with
  | nil => exact pure b
  | cons a l ih =>
    exact (step b a List.mem_cons_self).bind fun _ =>
      ih fun b a mem => step b a (List.mem_cons_of_mem _ mem)

end Persists

end Logged

import Mathlib.Logic.Function.Basic
import Mathlib.Logic.Relation
import Mathlib.Data.List.Induction

/-!
# Interleaved clients of a shared state

Clients serve requests by programs of atomic actions on one shared state. Between
two actions of a client any other client may act, so what a client saw before may
no longer hold, except for what no action ever destroys.

A protocol says what an action may do while a request is served, and which requests
may be served at the same time. A program is safe if each of its actions does no more
than that, whatever the clients that may be served along with it did in between within
the same protocol, and if it ends with a result that is still right then. When the
programs of all requests are safe, so is every run of any number of clients that begin
a request only while it may be served along with those of the others.

## Main definitions

* `Program` — what a client still has to do
* `Program.Acts` — what a program does while it is left alone
* `Step`, `Run` — the clients of a configuration act one at a time
* `Config.turns` — the run of a given schedule
* `Trace.Apart` — requests are begun only while they may be served along with the others
* `Protocol`, `Program.Safe` — what actions may do, and the programs that keep to it

## Main results

* `Program.Safe.bind` — safe programs compose
* `Run.safe` — in every run the invariant holds and every client is safe
* `Run.finished` — every result is right when it is given
* `Run.history` — what actions preserve about the events so far holds of every run
-/

namespace Interleaving

open Function

universe w

variable {ι ρ σ ε : Type*} {α β : Type w}

/-- What a client still has to do: nothing, because it has its result; or an action,
which changes the shared state and emits events, and then whatever the state that
the action met calls for. -/
inductive Program (σ ε α : Type*)
  | done (result : α)
  | act (run : σ → σ) (emit : σ → List ε) (next : σ → Program σ ε α)

namespace Program

/-- Do one thing after another. -/
protected def bind : Program σ ε α → (α → Program σ ε β) → Program σ ε β
  | done a, f => f a
  | act run emit next, f => act run emit fun s => (next s).bind f

instance : Monad (Program σ ε) where
  pure := done
  bind := Program.bind

instance : LawfulMonad (Program σ ε) := by
  refine LawfulMonad.mk' _ (fun p => ?_) (fun a f => rfl) (fun p f g => ?_)
  · induction p with
    | done a => rfl
    | act run emit next ih => exact congrArg (act run emit) (funext ih)
  · induction p with
    | done a => rfl
    | act run emit next ih => exact congrArg (act run emit) (funext ih)

/-- Look at the shared state. -/
def read (query : σ → α) : Program σ ε α := act id (fun _ => []) fun s => done (query s)

/-- Change the shared state in one action. -/
def atomically (change : σ → α × List ε × σ) : Program σ ε α :=
  act (fun s => (change s).2.2) (fun s => (change s).2.1) fun s => done (change s).1

/-- What a program does while it is left alone, as far as it is followed: the events of
its actions, each of which is allowed. -/
inductive Acts (allowed : σ → List ε → Prop) :
    Program σ ε α → σ → List ε → Program σ ε α → σ → Prop
  | refl (p : Program σ ε α) (s : σ) : Acts allowed p s [] p s
  | act {run : σ → σ} {emit : σ → List ε} {next : σ → Program σ ε α} {s t : σ} {events : List ε}
      {left : Program σ ε α} (fine : allowed s (emit s))
      (rest : Acts allowed (next s) (run s) events left t) :
      Acts allowed (act run emit next) s (emit s ++ events) left t

section Acts

variable {allowed : σ → List ε → Prop} {p q : Program σ ε α} {s t : σ} {events : List ε}

/-- What a program does first, it does first whatever comes after it. -/
theorem Acts.bind (acts : Acts allowed p s events q t) (f : α → Program σ ε β) :
    Acts allowed (p >>= f) s events (q >>= f) t := by
  induction acts with
  | refl => exact .refl _ _
  | act fine _ ih => exact .act fine ih

theorem Acts.trans {left : Program σ ε α} {u : σ} {events' : List ε}
    (acts : Acts allowed p s events q t) (rest : Acts allowed q t events' left u) :
    Acts allowed p s (events ++ events') left u := by
  induction acts with
  | refl => exact rest
  | act fine _ ih =>
    rw [List.append_assoc]
    exact .act fine (ih rest)

end Acts

end Program

/-! ### Runs -/

/-- The shared state, and what each client is doing: the request it serves, and what
is left of it. -/
structure Config (ι ρ σ ε α : Type*) where
  shared : σ
  running : ι → Option (ρ × Program σ ε α)

/-- What a step of a client is. -/
inductive Label (ι ρ ε α : Type*)
  | start (client : ι) (request : ρ)
  | act (client : ι) (request : ρ) (events : List ε)
  | finish (client : ι) (request : ρ) (result : α)

/-- The events of a step. -/
def Label.events : Label ι ρ ε α → List ε
  | .act _ _ events => events
  | _ => []

/-- The requests that clients serve. -/
def Config.serving (c : Config ι ρ σ ε α) (client : ι) : Option ρ :=
  (c.running client).map Prod.fst

variable [DecidableEq ι]

/-- The requests that clients serve after a step. -/
def Label.serving (label : Label ι ρ ε α) (serving : ι → Option ρ) : ι → Option ρ :=
  match label with
  | .start client request => update serving client (some request)
  | .act .. => serving
  | .finish client _ _ => update serving client none

/-- A client begins a request, takes the next action of its program, or gives its
result. -/
inductive Step (code : ρ → Program σ ε α) :
    Config ι ρ σ ε α → Label ι ρ ε α → Config ι ρ σ ε α → Prop
  | start {c : Config ι ρ σ ε α} {client : ι} (request : ρ) (idle : c.running client = none) :
    Step code c (.start client request)
      ⟨c.shared, update c.running client (some (request, code request))⟩
  | act {c : Config ι ρ σ ε α} {client : ι} {request : ρ} {run : σ → σ} {emit : σ → List ε}
      {next : σ → Program σ ε α} (busy : c.running client = some (request, .act run emit next)) :
    Step code c (.act client request (emit c.shared))
      ⟨run c.shared, update c.running client (some (request, next c.shared))⟩
  | finish {c : Config ι ρ σ ε α} {client : ι} {request : ρ} {result : α}
      (busy : c.running client = some (request, .done result)) :
    Step code c (.finish client request result) ⟨c.shared, update c.running client none⟩

/-- The steps of a run, each with the shared state before it. -/
abbrev Trace (ι ρ σ ε α : Type*) := List (σ × Label ι ρ ε α)

/-- The requests that clients serve after a run. -/
def Trace.serving (serving : ι → Option ρ) (trace : Trace ι ρ σ ε α) : ι → Option ρ :=
  trace.foldl (fun serving step => step.2.serving serving) serving

/-- A request is begun only while it is apart from all that other clients serve. -/
def Trace.Apart (apart : ρ → ρ → Prop) : (ι → Option ρ) → Trace ι ρ σ ε α → Prop
  | _, [] => True
  | serving, (_, label) :: trace =>
    (∀ client request, label = .start client request →
      ∀ other served, serving other = some served → apart request served) ∧
    Trace.Apart apart (label.serving serving) trace

/-- The requests that were begun in a run. -/
def Trace.started (trace : Trace ι ρ σ ε α) : List ρ := trace.filterMap fun step =>
  match step.2 with
  | .start _ request => some request
  | _ => none

/-- The events of a run. -/
def Trace.events (trace : Trace ι ρ σ ε α) : List ε := trace.flatMap fun step => step.2.events

/-- Any number of steps of any clients. -/
inductive Run (code : ρ → Program σ ε α) (c : Config ι ρ σ ε α) :
    Trace ι ρ σ ε α → Config ι ρ σ ε α → Prop
  | refl : Run code c [] c
  | step {trace : Trace ι ρ σ ε α} {mid after : Config ι ρ σ ε α} {label : Label ι ρ ε α}
      (before : Run code c trace mid) (step : Step code mid label after) :
    Run code c (trace ++ [(mid.shared, label)]) after

theorem Run.trans {code : ρ → Program σ ε α} {c mid after : Config ι ρ σ ε α}
    {trace trace' : Trace ι ρ σ ε α} (before : Run code c trace mid)
    (rest : Run code mid trace' after) : Run code c (trace ++ trace') after := by
  induction rest with
  | refl => rwa [List.append_nil]
  | step _ step ih =>
    rw [← List.append_assoc]
    exact ih.step step

/-- A step of a run comes after some of the run. -/
theorem Run.of_mem {code : ρ → Program σ ε α} {c c' : Config ι ρ σ ε α}
    {trace : Trace ι ρ σ ε α} {s : σ} {label : Label ι ρ ε α} (run : Run code c trace c')
    (mem : (s, label) ∈ trace) :
    ∃ before mid after, before ++ [(s, label)] <+: trace ∧ Run code c before mid ∧
      mid.shared = s ∧ Step code mid label after := by
  induction run with
  | refl => exact absurd mem List.not_mem_nil
  | @step trace mid after label' run step ih =>
    rcases List.mem_append.mp mem with old | new
    · obtain ⟨before, mid', after', earlier, rest⟩ := ih old
      exact ⟨before, mid', after', earlier.trans (List.prefix_append _ _), rest⟩
    · obtain ⟨rfl, rfl⟩ := Prod.mk.inj (List.mem_singleton.mp new)
      exact ⟨trace, mid, after, List.prefix_refl _, run, rfl, step⟩

/-! ### Who serves what -/

section Serving

variable {code : ρ → Program σ ε α} {c c' : Config ι ρ σ ε α} {label : Label ι ρ ε α}
  {trace trace' : Trace ι ρ σ ε α} {served : ι → Option ρ} {apart : ρ → ρ → Prop}

theorem Config.serving_update (s : σ) (client : ι) (left : Option (ρ × Program σ ε α)) :
    Config.serving ⟨s, update c.running client left⟩ =
      update c.serving client (left.map Prod.fst) := by
  funext other
  by_cases same : other = client
  · subst same
    simp [Config.serving]
  · simp [Config.serving, update_of_ne same]

omit [DecidableEq ι] in
theorem Config.serving_of_running {client : ι} {request : ρ} {program : Program σ ε α}
    (busy : c.running client = some (request, program)) : c.serving client = some request := by
  rw [Config.serving, busy]
  rfl

theorem Step.serving (step : Step code c label c') : c'.serving = label.serving c.serving := by
  cases step with
  | start request idle => exact Config.serving_update ..
  | act busy =>
    rw [Config.serving_update, Label.serving]
    exact update_eq_self_iff.mpr (Config.serving_of_running busy).symm
  | finish busy => exact Config.serving_update ..

theorem Trace.serving_append :
    Trace.serving served (trace ++ trace') = Trace.serving (Trace.serving served trace) trace' :=
  List.foldl_append

theorem Run.serving (run : Run code c trace c') : c'.serving = Trace.serving c.serving trace := by
  induction run with
  | refl => rfl
  | step before step ih => rw [step.serving, ih, Trace.serving_append]; rfl

theorem Trace.apart_append : Trace.Apart apart served (trace ++ trace') ↔
    Trace.Apart apart served trace ∧ Trace.Apart apart (Trace.serving served trace) trace' := by
  induction trace generalizing served with
  | nil => simp [Trace.Apart, Trace.serving]
  | cons step trace ih =>
    simp only [List.cons_append, Trace.Apart, ih, and_assoc]
    rfl

theorem Trace.Apart.of_prefix (fits : Trace.Apart apart served trace')
    (earlier : trace <+: trace') : Trace.Apart apart served trace := by
  obtain ⟨rest, rfl⟩ := earlier
  exact (Trace.apart_append.mp fits).1

omit [DecidableEq ι] in
@[simp] theorem Trace.started_append :
    (trace ++ trace').started = trace.started ++ trace'.started :=
  List.filterMap_append

theorem Run.apart_append (run : Run code c trace c') (fits : Trace.Apart apart c.serving trace)
    (rest : Trace.Apart apart c'.serving trace') : Trace.Apart apart c.serving (trace ++ trace') :=
  Trace.apart_append.mpr ⟨fits, run.serving ▸ rest⟩

/-- What a client serves was begun. -/
theorem Trace.mem_started {client : ι} {request : ρ}
    (serves : Trace.serving (fun _ => none) trace client = some request) :
    request ∈ trace.started := by
  induction trace using List.reverseRecOn with
  | nil => exact nomatch serves
  | append_singleton trace step ih =>
    obtain ⟨s, label⟩ := step
    rw [Trace.serving_append] at serves
    rw [Trace.started_append]
    replace serves : label.serving (Trace.serving (fun _ => none) trace) client = some request :=
      serves
    cases label with
    | start starter begun =>
      by_cases same : client = starter
      · subst same
        obtain rfl : begun = request := by simpa [Label.serving] using serves
        exact List.mem_append_right _ (List.mem_singleton_self _)
      · rw [Label.serving, update_of_ne same] at serves
        exact List.mem_append_left _ (ih serves)
    | act => exact List.mem_append_left _ (ih serves)
    | finish finisher =>
      by_cases same : client = finisher
      · subst same
        simp [Label.serving] at serves
      · rw [Label.serving, update_of_ne same] at serves
        exact List.mem_append_left _ (ih serves)

/-- What a client serves in a run that nobody had begun before was begun in it. -/
theorem Run.mem_started (run : Run code c trace c') (idle : ∀ client, c.running client = none)
    {client : ι} {request : ρ} {program : Program σ ε α}
    (busy : c'.running client = some (request, program)) : request ∈ trace.started := by
  have quiet : c.serving = fun _ => none := by
    funext other
    rw [Config.serving, idle other]
    rfl
  have serves : Trace.serving (fun _ => none) trace client = some request := by
    rw [← quiet, ← run.serving]
    exact Config.serving_of_running busy
  exact Trace.mem_started serves

/-- Any requests may be begun where all are apart. -/
theorem Trace.apart_of_forall (always : ∀ request other, apart request other) :
    Trace.Apart apart served trace := by
  induction trace generalizing served with
  | nil => trivial
  | cons step trace ih => exact ⟨fun _ request _ _ other _ => always request other, ih⟩

/-- Where nothing is begun no request is begun too soon. -/
theorem Trace.apart_of_started (quiet : trace.started = []) : Trace.Apart apart served trace := by
  induction trace generalizing served with
  | nil => trivial
  | cons step trace ih =>
    obtain ⟨s, label⟩ := step
    cases label with
    | start client request => exact nomatch quiet
    | act | finish => exact ⟨nofun, ih quiet⟩

theorem Trace.Apart.mono {apart' : ρ → ρ → Prop} (fits : Trace.Apart apart served trace)
    (weaker : ∀ request other, apart request other → apart' request other) :
    Trace.Apart apart' served trace := by
  induction trace generalizing served with
  | nil => trivial
  | cons step trace ih =>
    exact ⟨fun client request same other request' found =>
      weaker _ _ (fits.1 client request same other request' found), ih fits.2⟩

theorem Trace.Apart.and {apart' : ρ → ρ → Prop} (fits : Trace.Apart apart served trace)
    (fits' : Trace.Apart apart' served trace) :
    Trace.Apart (fun request other => apart request other ∧ apart' request other) served trace := by
  induction trace generalizing served with
  | nil => trivial
  | cons step trace ih =>
    exact ⟨fun client request same other request' found =>
      ⟨fits.1 client request same other request' found,
        fits'.1 client request same other request' found⟩, ih fits.2 fits'.2⟩

end Serving

/-- A client that is left alone does what its program does. -/
theorem Run.acts (code : ρ → Program σ ε α) (allowed : ρ → σ → List ε → Prop)
    {c : Config ι ρ σ ε α} {client : ι} {request : ρ} {p q : Program σ ε α} {t : σ}
    {events : List ε} (busy : c.running client = some (request, p))
    (acts : p.Acts (allowed request) c.shared events q t) :
    ∃ trace : Trace ι ρ σ ε α,
      Run code c trace ⟨t, update c.running client (some (request, q))⟩ ∧ trace.events = events ∧
        ∀ step ∈ trace, ∃ told, step.2 = .act client request told ∧
          allowed request step.1 told := by
  generalize shared : c.shared = s at acts
  induction acts generalizing c with
  | refl p s =>
    refine ⟨[], ?_, rfl, nofun⟩
    rw [← shared, ← busy, update_eq_self]
    exact .refl
  | @act run emit next s t events q fine _ ih =>
    subst shared
    obtain ⟨trace, rest, told, allowed⟩ := ih (c := ⟨run c.shared,
      update c.running client (some (request, next c.shared))⟩) (update_self ..) rfl
    rw [update_idem] at rest
    refine ⟨_, (Run.refl.step (.act busy)).trans rest, ?_, ?_⟩
    · simp [Trace.events, Label.events, ← told]
    · intro step mem
      rcases List.mem_cons.mp mem with rfl | mem
      · exact ⟨_, rfl, fine⟩
      · exact allowed step mem

/-- A client that is left alone from when it begins a request until its result is given. -/
theorem Run.alone (code : ρ → Program σ ε α) (allowed : ρ → σ → List ε → Prop)
    {c : Config ι ρ σ ε α} (client : ι) {request : ρ} {result : α} {t : σ} {events : List ε}
    (idle : ∀ other, c.running other = none)
    (acts : (code request).Acts (allowed request) c.shared events (.done result) t) :
    ∃ trace : Trace ι ρ σ ε α, Run code c trace ⟨t, c.running⟩ ∧ trace.events = events ∧
      trace.started = [request] ∧ (∀ apart, Trace.Apart apart c.serving trace) ∧
      (t, .finish client request result) ∈ trace ∧
      ∀ step ∈ trace, step = (c.shared, .start client request) ∨
        step = (t, .finish client request result) ∨
        ∃ told, step.2 = .act client request told ∧ allowed request step.1 told := by
  let begun : Config ι ρ σ ε α :=
    ⟨c.shared, update c.running client (some (request, code request))⟩
  obtain ⟨trace, run, told, steps⟩ := Run.acts code allowed
    (show begun.running client = some (request, code request) from update_self ..) acts
  have idleAgain : update (update begun.running client (some (request, .done result))) client none =
      c.running := by
    simp only [begun, update_idem]
    exact update_eq_self_iff.mpr (idle client).symm
  have finished := run.step (.finish (update_self ..))
  rw [idleAgain] at finished
  have quiet : Trace.started (trace ++ [(t, .finish client request result)]) = [] := by
    refine List.filterMap_eq_nil_iff.mpr fun step mem => ?_
    rcases List.mem_append.mp mem with mem | mem
    · obtain ⟨told, same, -⟩ := steps step mem
      rw [same]
    · rw [List.mem_singleton.mp mem]
  refine ⟨(c.shared, .start client request) :: (trace ++ [(t, .finish client request result)]),
    (Run.refl.step (.start request (idle client))).trans finished, ?_, ?_, fun apart => ?_, by simp,
    fun step mem => ?_⟩
  · simp [Trace.events, ← told, Label.events]
  · exact congrArg (request :: ·) quiet
  · refine ⟨fun _ _ _ other served found => ?_, Trace.apart_of_started quiet⟩
    rw [Config.serving, idle other] at found
    exact nomatch found
  · rcases List.mem_cons.mp mem with rfl | mem
    · exact Or.inl rfl
    · rcases List.mem_append.mp mem with mem | mem
      · exact Or.inr (Or.inr (steps step mem))
      · exact Or.inr (Or.inl (List.mem_singleton.mp mem))

/-- What a client does in its turn. It begins the request it is given if it has none. -/
def Config.turn (code : ρ → Program σ ε α) (c : Config ι ρ σ ε α) (client : ι) (request : ρ) :
    Label ι ρ ε α × Config ι ρ σ ε α :=
  match c.running client with
  | none => (.start client request,
      ⟨c.shared, update c.running client (some (request, code request))⟩)
  | some (served, .act run emit next) => (.act client served (emit c.shared),
      ⟨run c.shared, update c.running client (some (served, next c.shared))⟩)
  | some (served, .done result) => (.finish client served result,
      ⟨c.shared, update c.running client none⟩)

/-- What clients do one turn after the other. -/
def Config.turns (code : ρ → Program σ ε α) (c : Config ι ρ σ ε α) :
    List (ι × ρ) → Trace ι ρ σ ε α × Config ι ρ σ ε α
  | [] => ([], c)
  | (client, request) :: schedule =>
    let (label, mid) := c.turn code client request
    let (trace, after) := mid.turns code schedule
    ((c.shared, label) :: trace, after)

theorem Config.turn_step (code : ρ → Program σ ε α) (c : Config ι ρ σ ε α) (client : ι)
    (request : ρ) :
    Step code c (c.turn code client request).1 (c.turn code client request).2 := by
  unfold Config.turn
  cases busy : c.running client with
  | none => exact .start request busy
  | some task =>
    obtain ⟨served, program⟩ := task
    cases program with
    | act run emit next => exact .act busy
    | done result => exact .finish busy

/-- Turns make a run. -/
theorem Config.turns_run (code : ρ → Program σ ε α) (c : Config ι ρ σ ε α)
    (schedule : List (ι × ρ)) :
    Run code c (c.turns code schedule).1 (c.turns code schedule).2 := by
  induction schedule generalizing c with
  | nil => exact .refl
  | cons turn schedule ih =>
    obtain ⟨client, request⟩ := turn
    exact (Run.refl.step (c.turn_step code client request)).trans (ih _)

omit [DecidableEq ι] in
@[simp] theorem Trace.events_append (trace trace' : Trace ι ρ σ ε α) :
    (trace ++ trace').events = trace.events ++ trace'.events := by
  simp [Trace.events]

omit [DecidableEq ι] in
@[simp] theorem Trace.events_singleton (s : σ) (label : Label ι ρ ε α) :
    Trace.events [(s, label)] = label.events := by
  simp [Trace.events]

/-! ### Protocols -/

/-- What the actions of clients may do. -/
structure Protocol (ρ σ ε : Type*) where
  /-- Holds of the shared state between any two actions. -/
  inv : σ → Prop
  /-- The actions that are considered, by the request, the state before and the events. -/
  careful : ρ → σ → List ε → Prop
  /-- What an action may do while a request is served. -/
  effect : ρ → σ → List ε → σ → Prop
  /-- The requests that may be served at the same time. -/
  apart : ρ → ρ → Prop
  symm : ∀ request other, apart request other → apart other request

namespace Protocol

variable (D : Protocol ρ σ ε) (request : ρ)

/-- A client that serves a request apart from this one took a careful action. -/
def Moves (s t : σ) : Prop :=
  ∃ other events, D.apart request other ∧ D.effect other s events t ∧ D.inv t

/-- What other clients may have done in between. -/
def Rely : σ → σ → Prop := Relation.ReflTransGen (D.Moves request)

variable {D request}

theorem Rely.refl (s : σ) : D.Rely request s s := Relation.ReflTransGen.refl

theorem Rely.trans {s t u : σ} (st : D.Rely request s t) (tu : D.Rely request t u) :
    D.Rely request s u :=
  Relation.ReflTransGen.trans st tu

theorem Rely.inv {s t : σ} (st : D.Rely request s t) (h : D.inv s) : D.inv t := by
  induction st with
  | refl => exact h
  | tail _ move _ =>
    obtain ⟨_, _, -, -, kept⟩ := move
    exact kept

/-- What every action of the others preserves still holds later. -/
theorem Rely.preserves {p : σ → Prop} {s t : σ} (st : D.Rely request s t)
    (keeps : ∀ other s events t, D.apart request other → D.effect other s events t → p s → p t)
    (h : p s) : p t := by
  induction st with
  | refl => exact h
  | tail _ move ih =>
    obtain ⟨other, events, apart, effect, -⟩ := move
    exact keeps other _ events _ apart effect ih

/-- A step is careful if it is not an action, or a careful one. -/
def StepCareful (D : Protocol ρ σ ε) : σ × Label ι ρ ε α → Prop
  | (s, .act _ request events) => D.careful request s events
  | _ => True

end Protocol

variable {D : Protocol ρ σ ε} {post post' : α → σ → Prop} {request : ρ} {s t : σ}

/-- Every careful action of a program does what the protocol allows, in whatever state
the other clients left, and the result is right then. -/
def Program.Safe (D : Protocol ρ σ ε) (request : ρ) (post : α → σ → Prop) :
    Program σ ε α → σ → Prop
  | .done a, s => ∀ t, D.Rely request s t → D.inv t → post a t
  | .act run emit next, s => ∀ t, D.Rely request s t → D.inv t → D.careful request t (emit t) →
    D.effect request t (emit t) (run t) ∧ D.inv (run t) ∧ (next t).Safe D request post (run t)

namespace Program

variable {p : Program σ ε α}

/-- A program that is safe now is still safe after others have acted. -/
theorem Safe.rely (safe : p.Safe D request post s) (st : D.Rely request s t) :
    p.Safe D request post t := by
  cases p with
  | done a => exact fun u tu => safe u (st.trans tu)
  | act run emit next => exact fun u tu => safe u (st.trans tu)

theorem Safe.mono (safe : p.Safe D request post s) (weaker : ∀ a t, post a t → post' a t) :
    p.Safe D request post' s := by
  induction p generalizing s with
  | done a => exact fun t st inv => weaker a t (safe t st inv)
  | act run emit next ih =>
    intro t st inv careful
    obtain ⟨effect, kept, rest⟩ := safe t st inv careful
    exact ⟨effect, kept, ih t rest⟩

/-- What a program does after a safe one may start from what that one ended with. -/
theorem Safe.bind {f : α → Program σ ε β} {post' : β → σ → Prop}
    (safe : p.Safe D request post s)
    (next : ∀ a t, D.inv t → post a t → (f a).Safe D request post' t) (inv : D.inv s) :
    (p >>= f).Safe D request post' s := by
  induction p generalizing s with
  | done a => exact next a s inv (safe s (.refl s) inv)
  | act run emit rest ih =>
    intro t st inv careful
    obtain ⟨effect, kept, safe⟩ := safe t st inv careful
    exact ⟨effect, kept, ih t safe kept⟩

/-- A result that stays right is a safe program. -/
theorem safe_pure {a : α} (right : ∀ t, D.Rely request s t → D.inv t → post a t) :
    (pure a : Program σ ε α).Safe D request post s := right

/-- A single action is safe if it keeps to the protocol and its result stays right. -/
theorem safe_atomically {change : σ → α × List ε × σ}
    (keeps : ∀ t, D.Rely request s t → D.inv t → D.careful request t (change t).2.1 →
      D.effect request t (change t).2.1 (change t).2.2 ∧ D.inv (change t).2.2 ∧
        ∀ u, D.Rely request (change t).2.2 u → D.inv u → post (change t).1 u) :
    (atomically change : Program σ ε α).Safe D request post s := keeps

/-- Looking at the state is safe if doing nothing is. -/
theorem safe_read (post : α → σ → Prop) {query : σ → α}
    (idle : ∀ t, D.inv t → D.effect request t [] t)
    (right : ∀ t, D.Rely request s t → D.inv t → D.careful request t [] →
      ∀ u, D.Rely request t u → D.inv u → post (query t) u) :
    (read query : Program σ ε α).Safe D request post s :=
  fun t st inv careful => ⟨idle t inv, inv, right t st inv careful⟩

/-- Every action of a program keeps to the protocol, wherever it starts. -/
def Keeps (D : Protocol ρ σ ε) (request : ρ) (p : Program σ ε α) : Prop :=
  ∀ s, D.inv s → p.Safe D request (fun _ _ => True) s

theorem keeps_pure (a : α) : (pure a : Program σ ε α).Keeps D request :=
  fun _ _ => safe_pure fun _ _ _ => trivial

theorem Keeps.bind {f : α → Program σ ε β} (keeps : p.Keeps D request)
    (next : ∀ a, (f a).Keeps D request) : (p >>= f).Keeps D request :=
  fun s inv => (keeps s inv).bind (fun a t inv _ => next a t inv) inv

/-- A single action keeps to the protocol if it does what is allowed. -/
theorem keeps_atomically {change : σ → α × List ε × σ}
    (allowed : ∀ t, D.inv t → D.careful request t (change t).2.1 →
      D.effect request t (change t).2.1 (change t).2.2 ∧ D.inv (change t).2.2) :
    (atomically change : Program σ ε α).Keeps D request :=
  fun _ _ => safe_atomically fun t _ inv careful =>
    ⟨(allowed t inv careful).1, (allowed t inv careful).2, fun _ _ _ => trivial⟩

theorem keeps_read {query : σ → α} (idle : ∀ t, D.inv t → D.effect request t [] t) :
    (read query : Program σ ε α).Keeps D request :=
  fun _ _ => safe_read _ idle fun _ _ _ _ _ _ _ => trivial

section Failing

variable {φ : Type w} {x : ExceptT φ (Program σ ε) α} {f : α → ExceptT φ (Program σ ε) β}

/-- A program that may fail goes on only if it did not. -/
theorem Keeps.bindExcept (keeps : @Keeps _ _ _ (Except φ α) D request x)
    (next : ∀ a, @Keeps _ _ _ (Except φ β) D request (f a)) :
    @Keeps _ _ _ (Except φ β) D request (x >>= f : ExceptT φ (Program σ ε) β) := by
  refine Keeps.bind keeps fun outcome => ?_
  cases outcome with
  | ok a => exact next a
  | error e => exact keeps_pure _

theorem keeps_throw (e : φ) :
    @Keeps _ _ _ (Except φ α) D request (throw e : ExceptT φ (Program σ ε) α) := keeps_pure _

theorem keeps_return (a : α) :
    @Keeps _ _ _ (Except φ α) D request (pure a : ExceptT φ (Program σ ε) α) := keeps_pure _

theorem Keeps.mapExcept (keeps : @Keeps _ _ _ (Except φ α) D request x) (g : α → β) :
    @Keeps _ _ _ (Except φ β) D request (g <$> x : ExceptT φ (Program σ ε) β) := by
  refine Keeps.bind keeps fun outcome => ?_
  cases outcome with
  | ok a => exact keeps_pure _
  | error e => exact keeps_pure _

/-- A program that may fail is safe, and what it returns is right if it does not fail. -/
def SafeOk (D : Protocol ρ σ ε) (request : ρ) (post : α → σ → Prop)
    (x : ExceptT φ (Program σ ε) α) (s : σ) : Prop :=
  @Safe _ _ _ (Except φ α) D request (fun outcome t => ∀ a, outcome = .ok a → post a t) x s

variable {post' : β → σ → Prop}

theorem SafeOk.bind (post : α → σ → Prop) (safe : SafeOk D request post x s)
    (next : ∀ a t, D.inv t → post a t → SafeOk D request post' (f a) t) (inv : D.inv s) :
    SafeOk D request post' (x >>= f) s := by
  refine Safe.bind safe (fun outcome t inv right => ?_) inv
  cases outcome with
  | ok a => exact next a t inv (right a rfl)
  | error e => exact safe_pure fun _ _ _ => nofun

theorem safeOk_throw (e : φ) : SafeOk D request post (throw e : ExceptT φ (Program σ ε) α) s :=
  safe_pure fun _ _ _ => nofun

theorem safeOk_return {a : α} (right : ∀ t, D.Rely request s t → D.inv t → post a t) :
    SafeOk D request post (pure a : ExceptT φ (Program σ ε) α) s := by
  refine safe_pure fun t st inv b same => ?_
  obtain rfl := Except.ok.inj same
  exact right t st inv

theorem Safe.lift (post : α → σ → Prop) (safe : p.Safe D request post s) (inv : D.inv s)
    (stays : ∀ a t u, D.Rely request t u → post a t → post a u) :
    SafeOk D request post (ExceptT.lift p : ExceptT φ (Program σ ε) α) s := by
  refine Safe.bind safe (fun a t _ right => safe_pure fun u tu _ b same => ?_) inv
  obtain rfl := Except.ok.inj same
  exact stays a t u tu right

/-- What is done after a failure starts from what holds then. -/
theorem SafeOk.tryCatch (failed : σ → Prop) {handle : φ → ExceptT φ (Program σ ε) α}
    (safe : @Safe _ _ _ (Except φ α) D request
      (fun outcome t => (∀ e, outcome = .error e → failed t) ∧ ∀ a, outcome = .ok a → post a t) x s)
    (handled : ∀ e t, D.inv t → failed t → SafeOk D request post (handle e) t) (inv : D.inv s)
    (stays : ∀ a t u, D.Rely request t u → post a t → post a u) :
    SafeOk D request post (MonadExcept.tryCatch x handle) s := by
  refine Safe.bind safe (fun outcome t inv right => ?_) inv
  cases outcome with
  | ok a => exact safeOk_return fun u tu _ => stays a t u tu (right.2 a rfl)
  | error e => exact handled e t inv (right.1 e rfl)

end Failing

end Program

/-! ### Safety of runs -/

/-- The actions of a run are careful, and its requests are begun while they are apart. -/
structure Protocol.Admits [DecidableEq ι] (D : Protocol ρ σ ε) (serving : ι → Option ρ)
    (trace : Trace ι ρ σ ε α) : Prop where
  careful : ∀ step ∈ trace, D.StepCareful step
  apart : Trace.Apart D.apart serving trace

/-- The shared state is as the protocol promises, every client is safe, and no two serve
requests that must not be served at the same time. -/
structure Config.Safe (D : Protocol ρ σ ε) (post : ρ → α → σ → Prop) (c : Config ι ρ σ ε α) :
    Prop where
  inv : D.inv c.shared
  running : ∀ client request program, c.running client = some (request, program) →
    program.Safe D request (post request) c.shared
  apart : ∀ client other request served, other ≠ client → c.serving client = some request →
    c.serving other = some served → D.apart request served

section Safety

variable {code : ρ → Program σ ε α} {post : ρ → α → σ → Prop}
  (programs : ∀ request s, D.inv s → (code request).Safe D request (post request) s)
  {c c' : Config ι ρ σ ε α} {trace : Trace ι ρ σ ε α} {label : Label ι ρ ε α}

theorem Protocol.Admits.of_prefix {serving : ι → Option ρ} {trace' : Trace ι ρ σ ε α}
    (admits : D.Admits serving trace') (earlier : trace <+: trace') : D.Admits serving trace :=
  ⟨fun step mem => admits.careful step (earlier.subset mem), admits.apart.of_prefix earlier⟩

omit [DecidableEq ι] in
/-- Clients that have not begun are safe. -/
theorem Config.Safe.idle (inv : D.inv c.shared) (idle : ∀ client, c.running client = none) :
    c.Safe D post where
  inv := inv
  running client request program found := nomatch (idle client).symm.trans found
  apart client other request served _ found _ := by
    rw [Config.serving, idle client] at found
    exact nomatch found

/-- What a client does next is given; the others only see the shared state move. -/
private theorem Config.Safe.updated (h : c.Safe D post) {client : ι} {t : σ}
    {left : Option (ρ × Program σ ε α)} (inv : D.inv t)
    (moves : ∀ other served, other ≠ client → c.serving other = some served →
      D.Rely served c.shared t)
    (own : ∀ request program, left = some (request, program) →
      program.Safe D request (post request) t)
    (fits : ∀ request, left.map Prod.fst = some request → ∀ other served, other ≠ client →
      c.serving other = some served → D.apart request served) :
    Config.Safe D post ⟨t, update c.running client left⟩ := by
  refine ⟨inv, fun other request program found => ?_,
    fun one other request served differs found found' => ?_⟩
  · by_cases same : other = client
    · subst same
      exact own request program (by simpa using found)
    · replace found : update c.running client left other = some (request, program) := found
      rw [update_of_ne same] at found
      exact (h.running other request program found).rely
        (moves other request same (Config.serving_of_running found))
  · rw [Config.serving_update] at found found'
    by_cases first : one = client
    · subst first
      rw [update_self] at found
      rw [update_of_ne differs] at found'
      exact fits request found other served differs found'
    · rw [update_of_ne first] at found
      by_cases second : other = client
      · subst second
        rw [update_self] at found'
        exact D.symm _ _ (fits served found' one request first found)
      · rw [update_of_ne second] at found'
        exact h.apart one other request served differs found found'

include programs in
/-- A careful step leads from a safe configuration to a safe one, unless it begins a request
that must not be served along with those of the others. -/
theorem Step.safe (h : c.Safe D post) (step : Step code c label c')
    (careful : D.StepCareful (c.shared, label))
    (fits : ∀ client request, label = .start client request →
      ∀ other served, c.serving other = some served → D.apart request served) :
    c'.Safe D post := by
  cases step with
  | @start client request idle =>
    refine h.updated h.inv (fun _ _ _ _ => .refl _) (fun _ _ same => ?_) fun _ same => ?_
    · obtain ⟨rfl, rfl⟩ := Prod.mk.inj (Option.some.inj same)
      exact programs request c.shared h.inv
    · obtain rfl := Option.some.inj same
      exact fun other served _ found => fits client request rfl other served found
  | @act client request run emit next busy =>
    obtain ⟨effect, kept, rest⟩ :=
      h.running client request _ busy c.shared (.refl _) h.inv careful
    have own := Config.serving_of_running busy
    refine h.updated kept (fun other served differs found => ?_) (fun _ _ same => ?_)
      fun _ same other served differs found => ?_
    · exact .single ⟨request, _, h.apart other client served request differs.symm found own, effect,
        kept⟩
    · obtain ⟨rfl, rfl⟩ := Prod.mk.inj (Option.some.inj same)
      exact rest
    · obtain rfl := Option.some.inj same
      exact h.apart client other request served differs own found
  | finish busy => exact h.updated h.inv (fun _ _ _ _ => .refl _) nofun nofun

include programs in
/-- In every run that the protocol admits the invariant holds and every client is safe. -/
theorem Run.safe (h : c.Safe D post) (run : Run code c trace c')
    (admits : D.Admits c.serving trace) : c'.Safe D post := by
  induction run with
  | refl => exact h
  | step before step ih =>
    refine step.safe programs (ih (admits.of_prefix (List.prefix_append _ _)))
      (admits.careful _ (by simp)) ?_
    rw [before.serving]
    exact (Trace.apart_append.mp admits.apart).2.1

/-- A careful action of a safe client does what the protocol allows. -/
theorem Step.effect {client : ι} {request : ρ} {events : List ε} (h : c.Safe D post)
    (step : Step code c (.act client request events) c')
    (careful : D.careful request c.shared events) :
    D.effect request c.shared events c'.shared := by
  cases step with
  | act busy => exact (h.running client request _ busy c.shared (.refl _) h.inv careful).1

include programs in
/-- What no action destroys holds in the rest of a run. -/
theorem Run.preserves {p : σ → Prop} (h : c.Safe D post) (run : Run code c trace c')
    (admits : D.Admits c.serving trace)
    (keeps : ∀ request s events t, D.effect request s events t → p s → p t)
    (holds : p c.shared) : p c'.shared := by
  induction run with
  | refl => exact holds
  | @step trace mid after label before step ih =>
    have earlier := admits.of_prefix (List.prefix_append _ _)
    have here := admits.careful (mid.shared, label) (by simp)
    cases label with
    | act client request events =>
      exact keeps _ _ _ _ (step.effect (before.safe programs h earlier) here) (ih earlier)
    | start | finish =>
      cases step
      exact ih earlier

include programs in
/-- What actions preserve about the events so far and the state holds of every run. -/
theorem Run.history {J : List ε → σ → Prop} (h : c.Safe D post) (run : Run code c trace c')
    (admits : D.Admits c.serving trace) (start : J [] c.shared)
    (keeps : ∀ request past s events t, D.inv s → D.careful request s events →
      D.effect request s events t → J past s → J (past ++ events) t) :
    J trace.events c'.shared := by
  induction run with
  | refl => exact start
  | @step trace mid after label before step ih =>
    have earlier := admits.of_prefix (List.prefix_append _ _)
    have safeMid := before.safe programs h earlier
    have here := admits.careful (mid.shared, label) (by simp)
    rw [Trace.events_append, Trace.events_singleton]
    cases label with
    | act client request events =>
      exact keeps _ _ _ _ _ safeMid.inv here (step.effect safeMid here) (ih earlier)
    | start | finish =>
      cases step
      simpa [Label.events] using ih earlier

include programs in
/-- Every result is right when it is given. -/
theorem Run.finished (h : c.Safe D post) (run : Run code c trace c')
    (admits : D.Admits c.serving trace) {client : ι} {request : ρ} {result : α} {s : σ}
    (given : (s, .finish client request result) ∈ trace) : post request result s := by
  obtain ⟨before, mid, after, earlier, run, rfl, step⟩ := run.of_mem given
  have safeMid := run.safe programs h
    (admits.of_prefix ((List.prefix_append _ _).trans earlier))
  cases step with
  | finish busy => exact safeMid.running _ _ _ busy mid.shared (.refl _) safeMid.inv

end Safety

end Interleaving

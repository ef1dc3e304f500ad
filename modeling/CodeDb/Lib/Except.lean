import Mathlib.Data.List.Basic
import Mathlib.Data.List.Forall2

/-!
# Computations that may fail

What a successful computation in `Except` went through: its stages, the steps of
its folds, and what such a fold does to something observed along the way.

## Main results

* `Except.bind_eq_ok` — the two stages of a successful computation
* `Except.mapM_eq_ok` — a list is mapped one element after the other
* `Except.forM_eq_ok`, `Except.allM_eq_ok_true` — every element of a list passes
* `Except.foldlM_inv` — what every step preserves, a whole fold preserves
* `Except.foldlM_isOk` — a fold of steps that succeed succeeds
* `Except.foldlM_observe_of_frame` — what no step touches, a whole fold leaves
* `Except.foldlM_observe` — what a fold over distinct keys does at one key
* `StateT.run_bind_eq_ok` — the two stages of a successful computation with a state
* `StateT.run_foldlM_inv` — what holds of the part of a list that is done, at its end
-/

namespace Except

universe u

variable {α β : Type u} {κ σ ε ν : Type*}

/-- A successful computation went through two successful stages. -/
theorem bind_eq_ok {x : Except ε α} {f : α → Except ε β} {b : β} :
    x >>= f = .ok b ↔ ∃ a, x = .ok a ∧ f a = .ok b := by
  cases x with
  | error e => simp [bind, Except.bind]
  | ok a => simp [bind, Except.bind]

theorem pure_eq_ok {a b : α} : (pure a : Except ε α) = .ok b ↔ a = b := by
  simp [pure, Except.pure]

/-- Mapping over a success. -/
theorem map_eq_ok {x : Except ε α} {f : α → β} {b : β} :
    x.map f = .ok b ↔ ∃ a, x = .ok a ∧ f a = b := by
  cases x <;> simp [Except.map]

/-- A list is mapped one element after the other. -/
theorem mapM_eq_ok {f : α → Except ε β} {l : List α} {l' : List β} :
    l.mapM f = .ok l' ↔ List.Forall₂ (fun a b => f a = .ok b) l l' := by
  induction l generalizing l' with
  | nil =>
    rw [List.mapM_nil, pure_eq_ok, List.forall₂_nil_left_iff, eq_comm]
  | cons a l ih =>
    rw [List.mapM_cons, bind_eq_ok]
    constructor
    · rintro ⟨b, head, run⟩
      obtain ⟨bs, tail, run⟩ := bind_eq_ok.mp run
      obtain rfl := pure_eq_ok.mp run
      exact List.Forall₂.cons head (ih.mp tail)
    · intro parts
      cases parts with
      | cons head tail =>
        exact ⟨_, head, bind_eq_ok.mpr ⟨_, ih.mpr tail, pure_eq_ok.mpr rfl⟩⟩

/-- What a list is mapped to comes from its elements. -/
theorem exists_of_mem_mapM {f : α → Except ε β} {l : List α} {l' : List β}
    (run : l.mapM f = .ok l') {b : β} (listed : b ∈ l') : ∃ a ∈ l, f a = .ok b := by
  have pairs := mapM_eq_ok.mp run
  induction pairs with
  | nil => cases listed
  | cons head tail ih =>
    rcases List.mem_cons.mp listed with rfl | later
    · exact ⟨_, List.mem_cons_self, head⟩
    · obtain ⟨a, mem, found⟩ := ih (mapM_eq_ok.mpr tail) later
      exact ⟨a, List.mem_cons_of_mem _ mem, found⟩

/-- A check of a list checks each element. -/
theorem forM_eq_ok {f : κ → Except ε PUnit} {l : List κ} :
    l.forM f = .ok ⟨⟩ ↔ ∀ a ∈ l, f a = .ok ⟨⟩ := by
  induction l with
  | nil => simp [pure, Except.pure]
  | cons a l ih =>
    change f a >>= (fun _ => l.forM f) = .ok ⟨⟩ ↔ _
    rw [bind_eq_ok, List.forall_mem_cons, ← ih]
    exact ⟨fun ⟨_, head, tail⟩ => ⟨head, tail⟩, fun ⟨head, tail⟩ => ⟨_, head, tail⟩⟩

theorem allM_cons_eq_ok {f : κ → Except ε Bool} {a : κ} {l : List κ} {b : Bool} :
    (a :: l).allM f = .ok b ↔ f a = .ok true ∧ l.allM f = .ok b ∨ f a = .ok false ∧ b = false := by
  rw [List.allM, bind_eq_ok]
  constructor
  · rintro ⟨c, head, tail⟩
    cases c with
    | true => exact Or.inl ⟨head, tail⟩
    | false => exact Or.inr ⟨head, (pure_eq_ok.mp tail).symm⟩
  · rintro (⟨head, tail⟩ | ⟨head, rfl⟩)
    · exact ⟨true, head, tail⟩
    · exact ⟨false, head, rfl⟩

theorem allM_eq_ok_true {f : κ → Except ε Bool} {l : List κ} :
    l.allM f = .ok true ↔ ∀ a ∈ l, f a = .ok true := by
  induction l with
  | nil => simp [pure, Except.pure]
  | cons a l ih =>
    rw [allM_cons_eq_ok, ih, List.forall_mem_cons]
    simp

theorem exists_of_allM_eq_ok_false {f : κ → Except ε Bool} {l : List κ}
    (run : l.allM f = .ok false) : ∃ a ∈ l, f a = .ok false := by
  induction l with
  | nil => cases run
  | cons a l ih =>
    rcases allM_cons_eq_ok.mp run with ⟨_, tail⟩ | ⟨head, _⟩
    · obtain ⟨b, listed, fails⟩ := ih tail
      exact ⟨b, List.mem_cons_of_mem _ listed, fails⟩
    · exact ⟨a, List.mem_cons_self, head⟩

/-- One check and then another one: both succeed. -/
theorem bind_ite_eq_ok_true {x y : Except ε Bool} :
    (x >>= fun b => if b then y else pure false) = .ok true ↔ x = .ok true ∧ y = .ok true := by
  rw [bind_eq_ok]
  constructor
  · rintro ⟨b, first, second⟩
    cases b with
    | true => exact ⟨first, second⟩
    | false => cases second
  · rintro ⟨first, second⟩
    exact ⟨true, first, second⟩

/-- One check or another one: both fail. -/
theorem orM_eq_ok_false {x y : Except ε Bool} :
    (x <||> y) = .ok false ↔ x = .ok false ∧ y = .ok false := by
  rw [orM, bind_eq_ok]
  constructor
  · rintro ⟨b, first, second⟩
    cases b with
    | true => cases second
    | false => exact ⟨first, second⟩
  · rintro ⟨first, second⟩
    exact ⟨false, first, second⟩

theorem ite_eq_ok_true {c : Prop} [Decidable c] {y : Except ε Bool} :
    (if c then pure false else y) = .ok true ↔ ¬c ∧ y = .ok true := by
  by_cases holds : c
  · rw [if_pos holds]
    exact iff_of_false nofun fun both => both.1 holds
  · rw [if_neg holds, and_iff_right holds]

theorem allM_isOk {f : κ → Except ε Bool} {l : List κ} (each : ∀ a ∈ l, ∃ b, f a = .ok b) :
    ∃ b, l.allM f = .ok b := by
  induction l with
  | nil => exact ⟨true, rfl⟩
  | cons a l ih =>
    obtain ⟨head, others⟩ := List.forall_mem_cons.mp each
    obtain ⟨b, tail⟩ := ih others
    obtain ⟨c, head⟩ := head
    cases c with
    | true => exact ⟨b, allM_cons_eq_ok.mpr (Or.inl ⟨head, tail⟩)⟩
    | false => exact ⟨false, allM_cons_eq_ok.mpr (Or.inr ⟨head, rfl⟩)⟩

/-- What never fails maps a whole list. -/
theorem mapM_ok (f : α → β) (l : List α) :
    l.mapM (fun a => (.ok (f a) : Except ε β)) = .ok (l.map f) :=
  mapM_eq_ok.mpr (List.forall₂_map_right_iff.mpr (List.forall₂_same.mpr fun _ _ => rfl))

/-- What every step of a fold preserves, the whole fold preserves. -/
theorem foldlM_inv {step : σ → κ → Except ε σ} (inv : σ → Prop) {keys : List κ}
    (preserved : ∀ s k s', k ∈ keys → inv s → step s k = .ok s' → inv s')
    {s s' : σ} (start : inv s) (run : keys.foldlM step s = .ok s') : inv s' := by
  induction keys generalizing s with
  | nil =>
    obtain rfl := pure_eq_ok.mp run
    exact start
  | cons k keys ih =>
    rw [List.foldlM_cons] at run
    obtain ⟨mid, at_k, rest⟩ := bind_eq_ok.mp run
    exact ih (fun t j t' hj => preserved t j t' (List.mem_cons_of_mem _ hj))
      (preserved s k mid List.mem_cons_self start at_k) rest

/-- A fold succeeds if each of its steps does, in whatever state. -/
theorem foldlM_isOk {step : σ → κ → Except ε σ} {keys : List κ}
    (steps : ∀ s, ∀ k ∈ keys, ∃ s', step s k = .ok s') (s : σ) :
    ∃ s', keys.foldlM step s = .ok s' := by
  induction keys generalizing s with
  | nil => exact ⟨s, rfl⟩
  | cons k keys ih =>
    obtain ⟨mid, at_k⟩ := steps s k List.mem_cons_self
    obtain ⟨s', rest⟩ := ih (fun t j hj => steps t j (List.mem_cons_of_mem _ hj)) mid
    exact ⟨s', by rw [List.foldlM_cons, at_k]; exact rest⟩

/-- A fold that never touches what is observed leaves it as it was. -/
theorem foldlM_observe_of_frame {step : σ → κ → Except ε σ} (observe : σ → ν) {keys : List κ}
    (frame : ∀ s k s', k ∈ keys → step s k = .ok s' → observe s' = observe s)
    {s s' : σ} (run : keys.foldlM step s = .ok s') : observe s' = observe s :=
  foldlM_inv (fun t => observe t = observe s)
    (fun t k t' hk same at_k => (frame t k t' hk at_k).trans same) rfl run

/-- What a fold over distinct keys does to the value observed at one key: the
step at that key runs on a state which still has the value the fold began with,
and no later step touches the outcome. -/
theorem foldlM_observe {step : σ → κ → Except ε σ} (observe : σ → κ → ν)
    (frame : ∀ s j k s', j ≠ k → step s j = .ok s' → observe s' k = observe s k)
    {keys : List κ} (distinct : keys.Nodup) {s s' : σ} (run : keys.foldlM step s = .ok s')
    {k : κ} (mem : k ∈ keys) :
    ∃ t t', observe t k = observe s k ∧ step t k = .ok t' ∧ observe s' k = observe t' k := by
  induction keys generalizing s with
  | nil => simp at mem
  | cons j keys ih =>
    rw [List.foldlM_cons] at run
    obtain ⟨mid, at_j, rest⟩ := bind_eq_ok.mp run
    obtain ⟨fresh, distinct'⟩ := List.nodup_cons.mp distinct
    by_cases same : j = k
    · subst same
      refine ⟨s, mid, rfl, at_j, foldlM_observe_of_frame (observe · j) ?_ rest⟩
      intro t i t' hi at_i
      exact frame t i j t' (fun same => fresh (same ▸ hi)) at_i
    · have mem' : k ∈ keys := (List.mem_cons.mp mem).resolve_left (Ne.symm same)
      obtain ⟨t, t', before, at_k, after⟩ := ih distinct' rest mem'
      exact ⟨t, t', before.trans (frame s j k mid same at_j), at_k, after⟩

end Except

/-! ### With a state -/

namespace StateT

variable {α β τ κ σ ε : Type} {s : σ}

theorem run_bind_eq_ok {x : StateT σ (Except ε) α} {f : α → StateT σ (Except ε) β} {r : β × σ} :
    (x >>= f).run s = .ok r ↔ ∃ a s', x.run s = .ok (a, s') ∧ (f a).run s' = .ok r := by
  rw [run_bind, Except.bind_eq_ok, Prod.exists]

/-- A failed computation failed in its first stage, or in its second one. -/
theorem run_bind_eq_error {x : StateT σ (Except ε) α} {f : α → StateT σ (Except ε) β} {e : ε} :
    (x >>= f).run s = .error e ↔
      x.run s = .error e ∨ ∃ a s', x.run s = .ok (a, s') ∧ (f a).run s' = .error e := by
  rw [run_bind]
  cases x.run s with
  | error e' => simp [bind, Except.bind]
  | ok r =>
    obtain ⟨a, s'⟩ := r
    simp [bind, Except.bind]

theorem run_pure_eq_ok {a : α} {r : α × σ} :
    (pure a : StateT σ (Except ε) α).run s = .ok r ↔ (a, s) = r := by
  rw [run_pure, Except.pure_eq_ok]

/-- What needs no state leaves it. -/
theorem run_lift_eq_ok {x : Except ε α} {r : α × σ} :
    (liftM x : StateT σ (Except ε) α).run s = .ok r ↔ x = .ok r.1 ∧ s = r.2 := by
  obtain ⟨a, s'⟩ := r
  change (x >>= fun a => pure (a, s)) = .ok (a, s') ↔ _
  simp only [Except.bind_eq_ok, Except.pure_eq_ok, Prod.mk.injEq]
  constructor
  · rintro ⟨_, done, rfl, rfl⟩
    exact ⟨done, rfl⟩
  · rintro ⟨done, rfl⟩
    exact ⟨a, done, rfl, rfl⟩

theorem run_lift_bind_eq_ok {x : Except ε α} {f : α → StateT σ (Except ε) β} {r : β × σ} :
    ((liftM x : StateT σ (Except ε) α) >>= f).run s = .ok r ↔
      ∃ a, x = .ok a ∧ (f a).run s = .ok r := by
  simp only [run_bind_eq_ok, run_lift_eq_ok]
  constructor
  · rintro ⟨a, s', ⟨done, rfl⟩, rest⟩
    exact ⟨a, done, rest⟩
  · rintro ⟨a, done, rest⟩
    exact ⟨a, s, ⟨done, rfl⟩, rest⟩

theorem run_bind_of_ok {x : StateT σ (Except ε) α} {f : α → StateT σ (Except ε) β} {a : α} {s' : σ}
    (done : x.run s = .ok (a, s')) : (x >>= f).run s = (f a).run s' := by
  rw [run_bind, done]
  rfl

theorem run_lift_bind_of_ok {x : Except ε α} {f : α → StateT σ (Except ε) β} {a : α}
    (done : x = .ok a) : ((liftM x : StateT σ (Except ε) α) >>= f).run s = (f a).run s :=
  run_bind_of_ok (run_lift_eq_ok.mpr ⟨done, rfl⟩)

/-- Where a list is mapped, each of its elements is, in some state. -/
theorem exists_run_of_mem_mapM {f : κ → StateT σ (Except ε) α} {l : List κ} {l' : List α} {s' : σ}
    (run : (l.mapM f).run s = .ok (l', s')) {k : κ} (listed : k ∈ l) :
    ∃ before a after, (f k).run before = .ok (a, after) := by
  induction l generalizing l' s s' with
  | nil => cases listed
  | cons head l ih =>
    rw [List.mapM_cons] at run
    obtain ⟨a, mid, first, run⟩ := run_bind_eq_ok.mp run
    obtain ⟨rest, last, tail, -⟩ := run_bind_eq_ok.mp run
    rcases List.mem_cons.mp listed with rfl | later
    · exact ⟨s, a, mid, first⟩
    · exact ih tail later

/-- No step fails in some way, so a list of them does not. -/
theorem run_mapM_ne_error {f : κ → StateT σ (Except ε) α} {e : ε}
    (each : ∀ k s, (f k).run s ≠ .error e) (l : List κ) : (l.mapM f).run s ≠ .error e := by
  induction l generalizing s with
  | nil => exact nofun
  | cons k l ih =>
    rw [List.mapM_cons]
    intro run
    rcases run_bind_eq_error.mp run with head | ⟨a, s₁, -, rest⟩
    · exact each k s head
    · rcases run_bind_eq_error.mp rest with tail | ⟨as, s₂, -, last⟩
      · exact ih tail
      · cases last

/-- What every step extends from the part of a list that is done to the next element is
extended over the rest of the list. -/
theorem run_foldlM_inv_append {step : τ → κ → StateT σ (Except ε) τ} (inv : List κ → τ → Prop)
    (extended : ∀ done k t s t' s', inv done t → (step t k).run s = .ok (t', s') →
      inv (done ++ [k]) t') {done keys : List κ} {t t' : τ} {s' : σ} (start : inv done t)
    (run : (keys.foldlM step t).run s = .ok (t', s')) : inv (done ++ keys) t' := by
  induction keys generalizing done t s with
  | nil =>
    cases run_pure_eq_ok.mp run
    simpa using start
  | cons k keys ih =>
    rw [List.foldlM_cons] at run
    obtain ⟨mid, smid, first, rest⟩ := run_bind_eq_ok.mp run
    simpa using ih (extended done k t s mid smid start first) rest

/-- What every step extends from the part of a list that is done to the next element holds
of the whole list at the end. -/
theorem run_foldlM_inv {step : τ → κ → StateT σ (Except ε) τ} (inv : List κ → τ → Prop)
    (extended : ∀ done k t s t' s', inv done t → (step t k).run s = .ok (t', s') →
      inv (done ++ [k]) t') {keys : List κ} {t t' : τ} {s' : σ} (start : inv [] t)
    (run : (keys.foldlM step t).run s = .ok (t', s')) : inv keys t' :=
  run_foldlM_inv_append inv extended start run

end StateT

import Mathlib.Data.List.Basic
import Mathlib.Data.Set.Basic

/-!
# Delimited texts

A text format in which every value is followed by a delimiter, or by nothing, can
be read back one value at a time: where two such texts agree, so do the values at
their heads and what follows them.

## Main definitions

* `Stops` — a text is over, or goes on with a delimiter
* `ReadsOff` — a text is told apart from those of a language by what follows it
* `enclosed` — texts separated by one delimiter and closed by another
* `readSequence` — a reader of such texts

## Main results

* `append_inj_of_plain`, `readsOff_of_plain` — texts without delimiters are read off
* `enclosed_append_inj` — so are enclosed sequences of texts that are
* `readSequence_enclosed` — and a reader of the texts reads the sequence
-/

namespace Delimited

variable {σ : Type*} (stop : σ → Prop) {T : Set (List σ)} {a b r s : List σ}

/-- The text is over, or goes on with a delimiter. -/
def Stops (r : List σ) : Prop := ∀ c ∈ r.head?, stop c

theorem stops_nil : Stops stop [] := by simp [Stops]

variable {stop} in
theorem stops_cons {c : σ} (h : stop c) : Stops stop (c :: r) := by simpa [Stops] using h

/-- Whatever delimited text of the language a text agrees with is that text. -/
def ReadsOff (T : Set (List σ)) (a : List σ) : Prop :=
  ∀ b ∈ T, ∀ r s, Stops stop r → Stops stop s → a ++ r = b ++ s → a = b ∧ r = s

/-- A text that is not empty and does not begin with a delimiter. -/
def Starts (a : List σ) : Prop := ∃ c rest, a = c :: rest ∧ ¬ stop c

variable {stop}

/-- Texts without delimiters are told apart from what follows them. -/
theorem append_inj_of_plain (plainA : ∀ c ∈ a, ¬ stop c) (plainB : ∀ c ∈ b, ¬ stop c)
    (endsR : Stops stop r) (endsS : Stops stop s) (same : a ++ r = b ++ s) : a = b ∧ r = s := by
  induction a generalizing b with
  | nil =>
    cases b with
    | nil => exact ⟨rfl, same⟩
    | cons c b =>
      have : stop c := endsR c (by simp_all)
      exact absurd this (plainB c List.mem_cons_self)
  | cons c a ih =>
    cases b with
    | nil =>
      have : stop c := endsS c (by rw [show s = c :: a ++ r from same.symm]; rfl)
      exact absurd this (plainA c List.mem_cons_self)
    | cons d b =>
      obtain ⟨rfl, same'⟩ := List.cons.inj same
      obtain ⟨rfl, rest⟩ := ih (fun c hc => plainA c (List.mem_cons_of_mem _ hc))
        (fun c hc => plainB c (List.mem_cons_of_mem _ hc)) same'
      exact ⟨rfl, rest⟩

/-- Texts without delimiters are read off. -/
theorem readsOff_of_plain (plain : ∀ c ∈ a, ¬ stop c) (language : ∀ b ∈ T, ∀ c ∈ b, ¬ stop c) :
    ReadsOff stop T a :=
  fun b hb _ _ endsR endsS same => append_inj_of_plain plain (language b hb) endsR endsS same

theorem ReadsOff.mono {T' : Set (List σ)} (h : ReadsOff stop T a) (sub : T' ⊆ T) :
    ReadsOff stop T' a :=
  fun b hb => h b (sub hb)

section Enclosed

variable (sep close : σ)

/-- The rest of a sequence of texts: each behind a separator, then the end. -/
def continued (X : List (List σ)) : List σ := X.flatMap (sep :: ·) ++ [close]

/-- Texts separated by `sep` and closed by `close`. -/
def enclosed : List (List σ) → List σ
  | [] => [close]
  | a :: X => a ++ continued sep close X

theorem continued_cons (X : List (List σ)) :
    continued sep close (a :: X) = sep :: (a ++ continued sep close X) := by
  simp [continued]

theorem intercalate_append_close (X : List (List σ)) :
    [sep].intercalate X ++ [close] = enclosed sep close X := by
  cases X with
  | nil => rfl
  | cons a X =>
    induction X generalizing a with
    | nil => simp [enclosed, continued]
    | cons b X ih =>
      rw [List.intercalate_cons_cons, enclosed, continued_cons, List.append_assoc, ih b, enclosed]
      simp

variable {sep close}

private theorem continued_append_inj (sepStops : stop sep) (closeStops : stop close)
    (differs : sep ≠ close) {X Y : List (List σ)} (reads : ∀ a ∈ X, ReadsOff stop T a)
    (language : ∀ b ∈ Y, b ∈ T)
    (same : continued sep close X ++ r = continued sep close Y ++ s) : X = Y ∧ r = s := by
  have ends : ∀ (Z : List (List σ)) (t : List σ), Stops stop (continued sep close Z ++ t) := by
    intro Z t
    cases Z with
    | nil => exact stops_cons closeStops
    | cons a Z => rw [continued_cons]; exact stops_cons sepStops
  induction X generalizing Y with
  | nil =>
    cases Y with
    | nil => exact ⟨rfl, by simpa [continued] using same⟩
    | cons b Y => simp [continued, Ne.symm differs] at same
  | cons a X ih =>
    cases Y with
    | nil => simp [continued, differs] at same
    | cons b Y =>
      rw [continued_cons, continued_cons] at same
      have same' : a ++ (continued sep close X ++ r) = b ++ (continued sep close Y ++ s) := by
        simpa using same
      obtain ⟨rfl, rest⟩ := reads a List.mem_cons_self b (language b List.mem_cons_self) _ _
        (ends X r) (ends Y s) same'
      obtain ⟨rfl, rest'⟩ := ih (fun c hc => reads c (List.mem_cons_of_mem _ hc))
        (fun c hc => language c (List.mem_cons_of_mem _ hc)) rest
      exact ⟨rfl, rest'⟩

/-- Enclosed sequences of texts that are read off are read off, whatever follows. -/
theorem enclosed_append_inj (stop : σ → Prop) (sep close : σ) (sepStops : stop sep)
    (closeStops : stop close) (differs : sep ≠ close) {X Y : List (List σ)}
    (reads : ∀ a ∈ X, ReadsOff stop T a)
    (startsX : ∀ a ∈ X, Starts stop a) (language : ∀ b ∈ Y, b ∈ T)
    (startsY : ∀ b ∈ Y, Starts stop b)
    (same : enclosed sep close X ++ r = enclosed sep close Y ++ s) : X = Y ∧ r = s := by
  -- behind a separator the first text is read like all others, but an empty
  -- sequence needs its closing delimiter told from the start of a text
  cases X with
  | nil =>
    cases Y with
    | nil => exact ⟨rfl, by simpa [enclosed] using same⟩
    | cons b Y =>
      obtain ⟨c, rest, rfl, plain⟩ := startsY b List.mem_cons_self
      obtain ⟨rfl, -⟩ := List.cons.inj same
      exact absurd closeStops plain
  | cons a X =>
    cases Y with
    | nil =>
      obtain ⟨c, rest, rfl, plain⟩ := startsX a List.mem_cons_self
      obtain ⟨rfl, -⟩ := List.cons.inj same
      exact absurd closeStops plain
    | cons b Y =>
      refine continued_append_inj (r := r) (s := s) sepStops closeStops differs reads language ?_
      simpa [continued_cons, enclosed] using same

end Enclosed

/-! ### Readers -/

section Readers

variable [DecidableEq σ] {α : Type*}

/-- Read elements between separators, one at least, up to the closing delimiter. -/
def readSequence (sep close : σ) (item : List σ → Option (α × List σ)) :
    Nat → List σ → Option (List α × List σ)
  | 0, _ => none
  | fuel + 1, text =>
    match item text with
    | some (a, c :: r) =>
      if c = sep then (readSequence sep close item fuel r).map fun (as, r) => (a :: as, r)
      else if c = close then some ([a], r)
      else none
    | _ => none

/-- A reader reads a text as a value, whatever follows it. -/
def ReadAs (stop : σ → Prop) (item : List σ → Option (α × List σ)) (text : List σ) (a : α) : Prop :=
  ∀ r, Stops stop r → item (text ++ r) = some (a, r)

/-- Enclosed texts that are read one by one are read as a sequence. -/
theorem readSequence_enclosed {sep close : σ} (sepStops : stop sep) (closeStops : stop close)
    (differs : sep ≠ close) {item : List σ → Option (α × List σ)} {text : List σ} {a : α}
    {X : List (List σ)} {as : List α} (first : ReadAs stop item text a)
    (rest : List.Forall₂ (ReadAs stop item) X as) (fuel : Nat) (enough : X.length < fuel) :
    readSequence sep close item fuel (enclosed sep close (text :: X) ++ r) = some (a :: as, r) := by
  induction rest generalizing text a fuel with
  | nil =>
    obtain ⟨fuel, rfl⟩ := Nat.exists_eq_succ_of_ne_zero (Nat.ne_zero_of_lt enough)
    have read := first (close :: r) (stops_cons closeStops)
    simp [readSequence, enclosed, continued, read, Ne.symm differs]
  | @cons text' a' X as second _ ih =>
    obtain ⟨fuel, rfl⟩ := Nat.exists_eq_succ_of_ne_zero (Nat.ne_zero_of_lt enough)
    have read := first (sep :: (enclosed sep close (text' :: X) ++ r)) (stops_cons sepStops)
    have others := ih second fuel (by simpa using enough)
    simp only [enclosed, List.append_assoc] at read others
    simp [readSequence, enclosed, continued_cons, read, others]

end Readers

end Delimited

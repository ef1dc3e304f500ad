import CodeDb.Lib.Except

/-!
# Computations that succeed more often

A computation that may fail is below another if the other has the same result whenever it
succeeds: a lookup in a table that grows, a recursion whose bound is raised. What is composed of
such computations is below what is composed of the others.

## Main definitions

* `Except.Below` — one computation is below another

## Main results

* `Except.Below.bind`, `Except.Below.mapM` — composed computations
-/

namespace Except

universe u

variable {ε : Type*} {α β : Type u} {κ : Type*}

/-- Whenever one computation succeeds, the other has the same result. -/
def Below (x y : Except ε α) : Prop := ∀ a, x = .ok a → y = .ok a

namespace Below

variable {x y z : Except ε α}

@[refl] theorem refl (x : Except ε α) : Below x x := fun _ => id

theorem trans (first : Below x y) (second : Below y z) : Below x z :=
  fun a run => second a (first a run)

theorem error (e : ε) (y : Except ε α) : Below (.error e) y := fun _ run => nomatch run

/-- One stage after another. -/
theorem bind {f g : α → Except ε β} (first : Below x y) (second : ∀ a, Below (f a) (g a)) :
    Below (x >>= f) (y >>= g) := by
  intro b run
  obtain ⟨a, runs, rest⟩ := bind_eq_ok.mp run
  exact bind_eq_ok.mpr ⟨a, first a runs, second a b rest⟩

/-- One stage for every element of a list. -/
theorem mapM {f g : κ → Except ε β} (each : ∀ a, Below (f a) (g a)) (l : List κ) :
    Below (l.mapM f) (l.mapM g) := by
  induction l with
  | nil => exact refl _
  | cons a l ih =>
    rw [List.mapM_cons, List.mapM_cons]
    exact bind (each a) fun _ => bind ih fun _ => refl _

/-- One stage for what is there. -/
theorem mapM_option {f g : κ → Except ε β} (each : ∀ a, Below (f a) (g a)) (o : Option κ) :
    Below (o.mapM f) (o.mapM g) := by
  cases o with
  | none => exact refl _
  | some a => exact bind (each a) fun _ => refl _

end Below

end Except

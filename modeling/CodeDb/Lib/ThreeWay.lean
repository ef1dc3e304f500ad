import Mathlib.Data.List.Basic
import Mathlib.Tactic.Tauto

/-!
# Three-way merges

A three-way merge of one value compares two descendants, `left` and `right`, of
a common `base`. The least that may be asked of it is that it loses no change
made on one side only.

## Main definitions

* `OnlyRight`, `OnlyLeft` — one side changed the base and the other did not
* `CarriesOneSided` — the merged value follows whichever side changed alone
* `FollowsChange` — the merged value is a side if the other one did not change
* `preferRight` — take the right side where it changed, the left side elsewhere
* `mergeView` — three-way merge of views that may hide the values behind them
* `SeesOneSided` — a change made on one side alone shows in the views

## Main results

* `followsChange_preferRight` — preferring a changed right side follows the change
* `carriesOneSided_left_iff` — keeping the left side is sound exactly when the
  right side did not change alone
* `mergeView_swap` — which side is which does not matter
* `carriesOneSided_iff_seesOneSided` — merging views loses exactly the one-sided
  changes the views hide
-/

namespace ThreeWay

variable {α : Type*} {base left right merged : α}

/-- Only the right side changed the base. -/
def OnlyRight (base left right : α) : Prop := left = base ∧ right ≠ base

/-- Only the left side changed the base. -/
def OnlyLeft (base left right : α) : Prop := right = base ∧ left ≠ base

/-- The merged value follows whichever side changed the base alone. -/
structure CarriesOneSided (base left right merged : α) : Prop where
  ofRight : OnlyRight base left right → merged = right
  ofLeft : OnlyLeft base left right → merged = left

/-- The right side where it changed the base, the left side elsewhere. -/
def preferRight [DecidableEq α] (base left right : α) : α :=
  if right ≠ base then right else left

theorem preferRight_of_ne [DecidableEq α] (h : right ≠ base) :
    preferRight base left right = right := if_pos h

theorem preferRight_of_eq [DecidableEq α] (h : right = base) :
    preferRight base left right = left := if_neg (not_not.mpr h)

/-- Which side is which does not matter, unless both changed and not alike. -/
theorem preferRight_comm [DecidableEq α] (alike : left ≠ base → right ≠ base → left = right) :
    preferRight base left right = preferRight base right left := by
  unfold preferRight
  split_ifs with changedR changedL changedL
  · exact (alike changedL changedR).symm
  · rfl
  · rfl
  · rw [not_not.mp changedL, not_not.mp changedR]

/-- Whatever holds of both sides holds of the preferred one. -/
theorem preferRight_rec [DecidableEq α] (P : α → Prop) (onLeft : P left) (onRight : P right) :
    P (preferRight base left right) := by
  unfold preferRight
  split_ifs
  · exact onRight
  · exact onLeft

/-- The merged value is the right side if the left one did not change the base, and the
left side if the right one did not. -/
structure FollowsChange (base left right merged : α) : Prop where
  ofRight : left = base → merged = right
  ofLeft : right = base → merged = left

theorem followsChange_preferRight [DecidableEq α] :
    FollowsChange base left right (preferRight base left right) where
  ofRight unchanged := by
    by_cases same : right = base
    · rw [preferRight_of_eq same, unchanged, same]
    · exact preferRight_of_ne same
  ofLeft unchanged := preferRight_of_eq unchanged

theorem followsChange_self : FollowsChange base merged merged merged := ⟨fun _ => rfl, fun _ => rfl⟩

/-- Changes are still followed under a function that tells each side's changes from no
change. -/
theorem FollowsChange.map {β : Type*} {f : α → β} (h : FollowsChange base left right merged)
    (left_eq : f left = f base → left = base) (right_eq : f right = f base → right = base) :
    FollowsChange (f base) (f left) (f right) (f merged) where
  ofRight unchanged := congrArg f (h.ofRight (left_eq unchanged))
  ofLeft unchanged := congrArg f (h.ofLeft (right_eq unchanged))

/-- Equal sides leave nothing to be carried. -/
theorem carriesOneSided_of_eq (h : left = right) : CarriesOneSided base left right merged where
  ofRight only := absurd (h ▸ only.1) only.2
  ofLeft only := absurd (h.trans only.1) only.2

/-- Taking the right side whole is sound when the left side did not change. -/
theorem carriesOneSided_right (h : left = base) : CarriesOneSided base left right right where
  ofRight _ := rfl
  ofLeft only := absurd h only.2

/-- Taking the left side whole is sound when the right side did not change. -/
theorem carriesOneSided_left (h : right = base) : CarriesOneSided base left right left where
  ofRight only := absurd h only.2
  ofLeft _ := rfl

/-- Taking the left side whole is sound exactly when the right side did not
change alone. -/
theorem carriesOneSided_left_iff :
    CarriesOneSided base left right left ↔ ¬ OnlyRight base left right := by
  constructor
  · intro carries only
    exact only.2 ((carries.ofRight only).symm.trans only.1)
  · exact fun unchanged => ⟨fun only => absurd only unchanged, fun _ => rfl⟩

/-! ### Merging what a reader sees

A merge may work on a view of the values instead of the values themselves, where
a view that shows nothing (`absent`) hides whatever is there. -/

section View

variable {β ε : Type*} {B L R : β} {b l r m : α}

/-- Three-way merge of a view: `none` keeps the left side untouched, `some`
replaces it. Views that both changed, and differ, are left to `combine`. -/
def mergeView [DecidableEq β] (combine : β → β → β → Except ε β) (B L R : β) :
    Except ε (Option β) :=
  if R = B then .ok none
  else if L = B then .ok (some R)
  else if L = R then .ok (some L)
  else (combine B L R).map some

/-- Whatever holds of both sides, and of all that `combine` makes of them, holds of
a merged view. -/
theorem mergeView_rec [DecidableEq β] {combine : β → β → β → Except ε β} (P : β → Prop)
    (onLeft : P L) (onRight : P R) (onBoth : ∀ M, combine B L R = .ok M → P M)
    {outcome : Option β} (merged : mergeView combine B L R = .ok outcome) :
    ∀ M ∈ outcome, P M := by
  unfold mergeView at merged
  split_ifs at merged
  · obtain rfl : none = outcome := Except.ok.inj merged
    simp
  · obtain rfl : some R = outcome := Except.ok.inj merged
    simpa using onRight
  · obtain rfl : some L = outcome := Except.ok.inj merged
    simpa using onLeft
  · cases hM : combine B L R with
    | error e => simp [hM, Except.map] at merged
    | ok M =>
      obtain rfl : some M = outcome := by simpa [hM, Except.map] using merged
      simpa using onBoth M hM

/-- A merge of views comes to the same with its sides exchanged if merging changed views
does. -/
theorem mergeView_swap [DecidableEq β] {combine : β → β → β → Except ε β}
    (swaps : ∀ M, combine B L R = .ok M → combine B R L = .ok M) {outcome : Option β}
    (merged : mergeView combine B L R = .ok outcome) :
    ∃ outcome', mergeView combine B R L = .ok outcome' ∧ outcome'.getD R = outcome.getD L := by
  unfold mergeView at merged
  split_ifs at merged with hRB hLB hLR
  · -- the right view did not change, so exchanged it is the left one that did not
    obtain rfl := Except.ok.inj merged
    by_cases hLB : L = B
    · exact ⟨none, if_pos hLB, hRB.trans hLB.symm⟩
    · exact ⟨some L, by rw [mergeView, if_neg hLB, if_pos hRB], rfl⟩
  · obtain rfl := Except.ok.inj merged
    exact ⟨none, if_pos hLB, rfl⟩
  · obtain rfl := Except.ok.inj merged
    exact ⟨some R, by rw [mergeView, if_neg hLB, if_neg hRB, if_pos hLR.symm], hLR.symm⟩
  · cases hM : combine B L R with
    | error e => simp [hM, Except.map] at merged
    | ok M =>
      obtain rfl : some M = outcome := by simpa [hM, Except.map] using merged
      refine ⟨some M, ?_, rfl⟩
      rw [mergeView, if_neg hLB, if_neg hRB, if_neg (Ne.symm hLR), swaps M hM]
      rfl

/-- A change made on one side alone shows in the views the merge compares: where the view
is replaced at all, what replaces it shows the change. -/
structure SeesOneSided (view : β → α) (B L R : β) (b l r : α) : Prop where
  ofRight : OnlyRight b l r → R ≠ B ∧ view R = r
  ofLeft : OnlyLeft b l r → R = B ∨ L = B ∧ view R = l ∨ L ≠ B ∧ view L = l

/-- A view that always shows the value hides nothing. -/
theorem seesOneSided_of_shown {view : β → α} (base : view B = b) (left : view L = l)
    (right : view R = r) : SeesOneSided view B L R b l r where
  ofRight only := ⟨fun same => only.2 (right ▸ same ▸ base), right⟩
  ofLeft only := Or.inr (Or.inr ⟨fun same => only.2 (left ▸ same ▸ base), left⟩)

/-- Merging a view carries one-sided changes exactly when the view shows them, if `combine`
follows the changes of the values. -/
theorem carriesOneSided_iff_seesOneSided [DecidableEq β] (view : β → α)
    {combine : β → β → β → Except ε β}
    (combines : R ≠ B → L ≠ B → ∀ M, combine B L R = .ok M →
      (l = b → view M = view R) ∧ (r = b → view M = view L))
    {outcome : Option β} (merged : mergeView combine B L R = .ok outcome)
    (result : m = (outcome.map view).getD l) :
    CarriesOneSided b l r m ↔ SeesOneSided view B L R b l r := by
  unfold mergeView at merged
  split_ifs at merged with hRB hLB hLR
  · -- the right view did not change: the left value stays
    obtain rfl : none = outcome := by simpa using merged
    obtain rfl : m = l := result
    rw [carriesOneSided_left_iff]
    exact ⟨fun h => ⟨fun only => absurd only h, fun _ => Or.inl hRB⟩,
      fun sees only => (sees.ofRight only).1 hRB⟩
  · -- only the right view changed: it replaces the left value
    obtain rfl : some R = outcome := by simpa using merged
    obtain rfl : m = view R := result
    refine ⟨fun carries => ⟨fun only => ⟨hRB, carries.ofRight only⟩,
      fun only => Or.inr (Or.inl ⟨hLB, carries.ofLeft only⟩)⟩,
      fun sees => ⟨fun only => (sees.ofRight only).2, fun only => ?_⟩⟩
    rcases sees.ofLeft only with same | ⟨-, shown⟩ | ⟨differs, -⟩
    · exact absurd same hRB
    · exact shown
    · exact absurd hLB differs
  · -- both views changed alike
    obtain rfl : some L = outcome := by simpa using merged
    obtain rfl : m = view L := result
    refine ⟨fun carries => ⟨fun only => ⟨hRB, hLR ▸ carries.ofRight only⟩,
        fun only => Or.inr (Or.inr ⟨hLB, carries.ofLeft only⟩)⟩,
      fun sees => ⟨fun only => hLR ▸ (sees.ofRight only).2, fun only => ?_⟩⟩
    exact (((sees.ofLeft only).resolve_left hRB).resolve_left fun same => hLB same.1).2
  · -- both views changed, and `combine` agreed to merge them
    cases hM : combine B L R with
    | error e => simp [hM, Except.map] at merged
    | ok M =>
      obtain rfl : some M = outcome := by simpa [hM, Except.map] using merged
      obtain ⟨right, left⟩ := combines hRB hLB M hM
      obtain rfl : m = view M := result
      constructor
      · intro carries
        refine ⟨fun only => ⟨hRB, (right only.1).symm.trans (carries.ofRight only)⟩,
          fun only => Or.inr (Or.inr ⟨hLB, (left only.1).symm.trans (carries.ofLeft only)⟩)⟩
      · intro sees
        refine ⟨fun only => (right only.1).trans (sees.ofRight only).2, fun only => ?_⟩
        have shown := ((sees.ofLeft only).resolve_left hRB).resolve_left fun same => hLB same.1
        exact (left only.1).trans shown.2

end View

end ThreeWay

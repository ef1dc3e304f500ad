import CodeDb.Lib.Antichain
import Mathlib.Data.Finset.Sort
import Mathlib.Data.List.Lex
import Mathlib.Data.Prod.Lex
import Mathlib.Data.String.Basic

/-!
# Moved places

The places that were moved out of or dropped are kept as sets in which no place lies inside
another one. Such a set stands for all that lies in its places, whatever the order in which they
were inserted.

Where branches join, a place of the first branch is recorded if every other branch consumed it. A
branch that consumed a place in parts did not consume it as a whole, though: so if the first
branch consumed the whole and another one its parts, the parts are consumed on every branch, and
nothing is recorded. In the other order they are.

## Main definitions

* `insertMovedPlace`, `normalizeMovedSet` — the sets
* `DropTracker.join` — what is recorded where branches join
* `NoneInsideFirst` — no branch consumed a part of what the first branch consumed, with all others

## Main results

* `insertsCanonically` — the places that were inserted make the set, in any order
* `movedPlaces_canonical_iff` — when all that every branch consumed is recorded
-/

namespace CodeDb

inductive RootSlot where
  | param (slot : Nat)
  | local_ (slot : Nat)
  deriving DecidableEq

inductive PlaceStep where
  | field (name : String)
  | index (index : Nat)
  | deref
  deriving DecidableEq

/-- A slot, or a part of what it holds. -/
structure MovedPlace where
  root : RootSlot
  path : List PlaceStep
  deriving DecidableEq

def MovedPlace.whole (root : RootSlot) : MovedPlace := ⟨root, []⟩

/-- A place lies in another one, or is it. -/
def placeIsAncestorOrEqual (ancestor place : MovedPlace) : Bool :=
  ancestor.root = place.root && ancestor.path.length ≤ place.path.length &&
    (ancestor.path.zip place.path).all fun steps => steps.1 = steps.2

/-! ### The order of the places -/

section Order

variable {a b c : MovedPlace}

theorem all_zip_iff {l l' : List PlaceStep} (shorter : l.length ≤ l'.length) :
    (l.zip l').all (fun steps => steps.1 = steps.2) = true ↔ l <+: l' := by
  induction l generalizing l' with
  | nil => simp
  | cons step l ih =>
    cases l' with
    | nil => simp at shorter
    | cons step' l' =>
      rw [List.zip_cons_cons, List.all_cons, Bool.and_eq_true, decide_eq_true_iff,
        List.cons_prefix_cons, ih (Nat.le_of_succ_le_succ shorter)]

theorem placeIsAncestorOrEqual_iff :
    placeIsAncestorOrEqual a b = true ↔ a.root = b.root ∧ a.path <+: b.path := by
  rw [placeIsAncestorOrEqual, Bool.and_eq_true, Bool.and_eq_true, decide_eq_true_iff,
    decide_eq_true_iff, and_assoc]
  refine and_congr_right fun _ => ⟨fun same => ?_, fun same => ?_⟩
  · exact (all_zip_iff same.1).mp same.2
  · exact ⟨same.length_le, (all_zip_iff same.length_le).mpr same⟩

/-- A place comes before what lies in it. -/
instance : PartialOrder MovedPlace where
  le a b := placeIsAncestorOrEqual a b = true
  le_refl a := placeIsAncestorOrEqual_iff.mpr ⟨rfl, List.prefix_rfl⟩
  le_trans a b c below below' := by
    obtain ⟨root, path⟩ := placeIsAncestorOrEqual_iff.mp below
    obtain ⟨root', path'⟩ := placeIsAncestorOrEqual_iff.mp below'
    exact placeIsAncestorOrEqual_iff.mpr ⟨root.trans root', path.trans path'⟩
  le_antisymm a b below below' := by
    obtain ⟨root, path⟩ := placeIsAncestorOrEqual_iff.mp below
    obtain ⟨_, path'⟩ := placeIsAncestorOrEqual_iff.mp below'
    have same : a.path = b.path := path.eq_of_length (path.length_le.antisymm path'.length_le)
    cases a
    cases b
    simp_all

instance : DecidableLE MovedPlace := fun a b =>
  inferInstanceAs (Decidable (placeIsAncestorOrEqual a b = true))

theorem le_iff : a ≤ b ↔ placeIsAncestorOrEqual a b = true := Iff.rfl

/-- Of two places that a third one lies in, one lies in the other one. -/
theorem le_or_le_of_le (below : a ≤ c) (below' : b ≤ c) : a ≤ b ∨ b ≤ a := by
  obtain ⟨root, path⟩ := placeIsAncestorOrEqual_iff.mp below
  obtain ⟨root', path'⟩ := placeIsAncestorOrEqual_iff.mp below'
  have same := root.trans root'.symm
  rcases List.prefix_or_prefix_of_prefix path path' with shorter | longer
  · exact Or.inl (placeIsAncestorOrEqual_iff.mpr ⟨same, shorter⟩)
  · exact Or.inr (placeIsAncestorOrEqual_iff.mpr ⟨same.symm, longer⟩)

end Order

/-! ### The order of a set -/

def RootSlot.key : RootSlot → Nat ×ₗ Nat
  | .param slot => toLex (0, slot)
  | .local_ slot => toLex (1, slot)

def PlaceStep.key : PlaceStep → Nat ×ₗ String ×ₗ Nat
  | .field name => toLex (0, toLex (name, 0))
  | .index i => toLex (1, toLex ("", i))
  | .deref => toLex (2, toLex ("", 0))

/-- What the places of a set are ordered by. -/
def MovedPlace.key (place : MovedPlace) : (Nat ×ₗ Nat) ×ₗ List (Nat ×ₗ String ×ₗ Nat) :=
  toLex (place.root.key, place.path.map PlaceStep.key)

theorem key_injective : Function.Injective MovedPlace.key := by
  have root : Function.Injective RootSlot.key := by
    intro a b same
    cases a <;> cases b <;> simp_all [RootSlot.key]
  have step : Function.Injective PlaceStep.key := by
    intro a b same
    cases a <;> cases b <;> simp_all [PlaceStep.key]
  intro a b same
  obtain ⟨roots, paths⟩ := Prod.mk.inj (toLex.injective same)
  cases a
  cases b
  rw [MovedPlace.mk.injEq]
  exact ⟨root roots, List.map_injective_iff.mpr step paths⟩

/-- A place comes before another one in a set. -/
def MovedPlace.Precedes (a b : MovedPlace) : Prop := a.key ≤ b.key

instance : DecidableRel MovedPlace.Precedes := fun a b =>
  inferInstanceAs (Decidable (a.key ≤ b.key))

instance : IsTrans MovedPlace MovedPlace.Precedes := ⟨fun _ _ _ => le_trans⟩

instance : Std.Antisymm MovedPlace.Precedes := ⟨fun _ _ le ge => key_injective (le_antisymm le ge)⟩

instance : Std.Total MovedPlace.Precedes := ⟨fun a b => le_total a.key b.key⟩

/-- The places of a set, one after the other. -/
def inOrder (set : Finset MovedPlace) : List MovedPlace := set.sort MovedPlace.Precedes

@[simp] theorem mem_inOrder {set : Finset MovedPlace} {place : MovedPlace} :
    place ∈ inOrder set ↔ place ∈ set := Finset.mem_sort _

/-! ### Sets of places -/

/-- A place lies in one of a set. -/
def placeCoveredBy (set : Finset MovedPlace) (place : MovedPlace) : Bool :=
  decide (∃ m ∈ set, placeIsAncestorOrEqual m place = true)

/-- A place is moved: the places inside it are no longer moved on their own. -/
def insertMovedPlace (set : Finset MovedPlace) (place : MovedPlace) : Finset MovedPlace :=
  if placeCoveredBy set place then set
  else insert place (set.filter fun m => !placeIsAncestorOrEqual place m)

def normalizeMovedSet (set : Finset MovedPlace) : Finset MovedPlace :=
  (inOrder set).foldl insertMovedPlace ∅

/-- What is tracked of what was moved out of and what was dropped. -/
structure DropTracker where
  moved : Finset MovedPlace
  dropped : Finset MovedPlace

/-- The places that were consumed since the state before. -/
def newlyConsumedPlaces (dropState : DropTracker) (movedBefore droppedBefore : Finset MovedPlace) :
    Finset MovedPlace :=
  let before := normalizeMovedSet (movedBefore ∪ droppedBefore)
  (normalizeMovedSet (dropState.moved ∪ dropState.dropped)).filter
    fun place => !placeCoveredBy before place

/-- Record what was consumed on every branch: the places of the first that the others cover. -/
def mergeConsumedIntoMoved (dropState : DropTracker) (branchConsumed : List (Finset MovedPlace)) :
    DropTracker :=
  match branchConsumed with
  | [] => dropState
  | first :: rest =>
    (inOrder first).foldl (fun dropState place =>
      if rest.all (placeCoveredBy · place) then
        { dropState with moved := insertMovedPlace dropState.moved place }
      else dropState) dropState

/-- What is known where branches join that went on from a state. -/
def DropTracker.join (before : DropTracker) (branches : List DropTracker) : DropTracker :=
  mergeConsumedIntoMoved before
    (branches.map (newlyConsumedPlaces · before.moved before.dropped))

/-- A place was moved out of or dropped. -/
def DropTracker.Consumed (dropState : DropTracker) (place : MovedPlace) : Prop :=
  placeCoveredBy dropState.moved place = true ∨ placeCoveredBy dropState.dropped place = true

instance (dropState : DropTracker) (place : MovedPlace) : Decidable (dropState.Consumed place) :=
  inferInstanceAs (Decidable (_ ∨ _))

/-! ### What the sets stand for -/

section Sets

variable {set : Finset MovedPlace} {place p : MovedPlace} {places : List MovedPlace}

theorem placeCoveredBy_iff : placeCoveredBy set place = true ↔ Antichain.Covers set place :=
  decide_eq_true_iff

theorem insertMovedPlace_eq : insertMovedPlace = Antichain.insertLeast := by
  funext set place
  rw [insertMovedPlace, Antichain.insertLeast]
  by_cases covered : Antichain.Covers set place
  · rw [if_pos (placeCoveredBy_iff.mpr covered), if_pos covered]
  · rw [if_neg (mt placeCoveredBy_iff.mp covered), if_neg covered]
    congr 1
    ext m
    simp [le_iff]

/-- What insertions of places into a set lead to. -/
structure InsertsCanonically (set : Finset MovedPlace) (places : List MovedPlace) : Prop where
  antichain : IsAntichain (· ≤ ·) (↑(places.foldl insertMovedPlace set) : Set MovedPlace)
  covers : ∀ p, placeCoveredBy (places.foldl insertMovedPlace set) p = true ↔
    placeCoveredBy set p = true ∨ ∃ place ∈ places, placeIsAncestorOrEqual place p = true
  order : ∀ places', places.Perm places' →
    places'.foldl insertMovedPlace set = places.foldl insertMovedPlace set

/-- Insertions into an antichain make an antichain of all the places, in any order. -/
theorem insertsCanonically (anti : IsAntichain (· ≤ ·) (set : Set MovedPlace))
    (places : List MovedPlace) : InsertsCanonically set places where
  antichain := by
    rw [insertMovedPlace_eq]
    exact Antichain.isAntichain_foldl anti places
  covers p := by
    rw [insertMovedPlace_eq, placeCoveredBy_iff, placeCoveredBy_iff,
      Antichain.covers_foldl_insertLeast]
    rfl
  order places' perm := by
    rw [insertMovedPlace_eq]
    exact Antichain.foldl_insertLeast_eq anti fun p => perm.mem_iff.symm

/-- Places make the normalized set of them, in any order. -/
theorem foldl_insertMovedPlace_eq (listed : ∀ p, p ∈ places ↔ p ∈ set) :
    places.foldl insertMovedPlace ∅ = normalizeMovedSet set := by
  rw [normalizeMovedSet, insertMovedPlace_eq]
  exact Antichain.foldl_insertLeast_eq (by simp) fun p => (listed p).trans mem_inOrder.symm

theorem isAntichain_normalizeMovedSet (set : Finset MovedPlace) :
    IsAntichain (· ≤ ·) (↑(normalizeMovedSet set) : Set MovedPlace) :=
  (insertsCanonically (by simp) _).antichain

theorem normalizeMovedSet_eq_self (anti : IsAntichain (· ≤ ·) (set : Set MovedPlace)) :
    normalizeMovedSet set = set := by
  rw [normalizeMovedSet, insertMovedPlace_eq]
  exact Antichain.foldl_insertLeast_empty anti fun p => mem_inOrder

theorem covers_normalizeMovedSet :
    Antichain.Covers (normalizeMovedSet set) p ↔ Antichain.Covers set p := by
  rw [normalizeMovedSet, insertMovedPlace_eq, Antichain.covers_foldl_insertLeast]
  simp [Antichain.Covers]

end Sets

/-! ### Branches -/

section Branches

variable {before branch dropState : DropTracker} {branches rest : List DropTracker}
  {place p : MovedPlace}

theorem consumed_iff : dropState.Consumed p ↔
    Antichain.Covers (dropState.moved ∪ dropState.dropped) p := by
  simp only [DropTracker.Consumed, placeCoveredBy_iff, Antichain.Covers, Finset.mem_union,
    or_and_right, exists_or]

variable (before) in
/-- What a branch consumed that was not consumed before. -/
def consumedBy (branch : DropTracker) : Finset MovedPlace :=
  newlyConsumedPlaces branch before.moved before.dropped

theorem mem_consumedBy : place ∈ consumedBy before branch ↔
    place ∈ normalizeMovedSet (branch.moved ∪ branch.dropped) ∧ ¬before.Consumed place := by
  rw [consumedBy, newlyConsumedPlaces, Finset.mem_filter, Bool.not_eq_true', ← Bool.not_eq_true,
    placeCoveredBy_iff, covers_normalizeMovedSet, consumed_iff]

theorem isAntichain_consumedBy :
    IsAntichain (· ≤ ·) (↑(consumedBy before branch) : Set MovedPlace) :=
  (isAntichain_normalizeMovedSet _).subset (Finset.filter_subset _ _)

/-- Of what was not consumed before, a branch consumed what lies in the places it consumed. -/
theorem covers_consumedBy (fresh : ¬before.Consumed p) :
    Antichain.Covers (consumedBy before branch) p ↔ branch.Consumed p := by
  constructor
  · rintro ⟨m, mem, le⟩
    have covers : Antichain.Covers (normalizeMovedSet (branch.moved ∪ branch.dropped)) p :=
      ⟨m, (mem_consumedBy.mp mem).1, le⟩
    exact consumed_iff.mpr (covers_normalizeMovedSet.mp covers)
  · intro consumed
    obtain ⟨m, mem, le⟩ := covers_normalizeMovedSet.mpr (consumed_iff.mp consumed)
    refine ⟨m, mem_consumedBy.mpr ⟨mem, fun old => fresh ?_⟩, le⟩
    exact consumed_iff.mpr ((consumed_iff.mp old).mono le)

/-- Recording places of a list that all of some sets cover. -/
theorem consumed_foldl {sets : List (Finset MovedPlace)} {places : List MovedPlace} :
    (places.foldl (fun dropState place =>
      if sets.all (placeCoveredBy · place) then
        { dropState with moved := insertMovedPlace dropState.moved place }
      else dropState) dropState).Consumed p ↔
    dropState.Consumed p ∨ ∃ f ∈ places, f ≤ p ∧ ∀ s ∈ sets, Antichain.Covers s f := by
  induction places generalizing dropState with
  | nil => simp
  | cons place places ih =>
    have here : (sets.all (placeCoveredBy · place)) = true ↔
        ∀ s ∈ sets, Antichain.Covers s place := by
      simp only [List.all_eq_true, placeCoveredBy_iff]
    rw [List.foldl_cons, ih, List.exists_mem_cons_iff]
    by_cases covered : ∀ s ∈ sets, Antichain.Covers s place
    · rw [if_pos (here.mpr covered)]
      simp only [DropTracker.Consumed, placeCoveredBy_iff, insertMovedPlace_eq,
        Antichain.covers_insertLeast]
      tauto
    · rw [if_neg (mt here.mp covered)]
      simp only [covered, and_false, false_or]

theorem consumed_join_cons : (before.join (branch :: rest)).Consumed p ↔
    before.Consumed p ∨ ∃ f ∈ consumedBy before branch, f ≤ p ∧
      ∀ other ∈ rest, Antichain.Covers (consumedBy before other) f := by
  rw [DropTracker.join, List.map_cons, mergeConsumedIntoMoved, consumed_foldl]
  simp only [mem_inOrder, List.forall_mem_map, consumedBy]

/-- Not every place was consumed. -/
theorem exists_not_consumed (dropState : DropTracker) : ∃ p, ¬dropState.Consumed p := by
  obtain ⟨root, unused⟩ := Infinite.exists_notMem_finset
    ((dropState.moved ∪ dropState.dropped).image fun m => match m.root with
      | .param slot => slot
      | .local_ slot => slot)
  refine ⟨.whole (.param root), fun consumed => unused ?_⟩
  obtain ⟨m, mem, le⟩ := consumed_iff.mp consumed
  have same : m.root = .param root := (placeIsAncestorOrEqual_iff.mp le).1
  exact Finset.mem_image.mpr ⟨m, mem, by rw [same]⟩

/-- There is a branch, and no place that all others than the first have consumed was consumed by one
of them inside a place that the first consumed. -/
def NoneInsideFirst (before : DropTracker) : List DropTracker → Prop
  | [] => False
  | first :: rest => ∀ branch ∈ rest, ∀ place ∈ consumedBy before branch,
    (∀ other ∈ rest, placeCoveredBy (consumedBy before other) place = true) →
      ∀ whole ∈ consumedBy before first, placeIsAncestorOrEqual whole place = true → whole = place

/-- What was consumed where branches join is what was consumed before, or on every branch. -/
def JoinsExactly (before : DropTracker) (branches : List DropTracker) : Prop :=
  ∀ p, (before.join branches).Consumed p ↔
    before.Consumed p ∨ ∀ branch ∈ branches, branch.Consumed p

theorem joinsExactly_iff : JoinsExactly before branches ↔ NoneInsideFirst before branches := by
  cases branches with
  | nil =>
    refine iff_of_false (fun joins => ?_) id
    obtain ⟨p, fresh⟩ := exists_not_consumed before
    exact fresh ((joins p).mpr (Or.inr fun branch mem => absurd mem List.not_mem_nil))
  | cons first rest =>
    have anti : IsAntichain (· ≤ ·) (↑(consumedBy before first) : Set MovedPlace) :=
      isAntichain_consumedBy
    have antis : ∀ s ∈ rest.map (consumedBy before), IsAntichain (· ≤ ·) (↑s : Set MovedPlace) :=
      List.forall_mem_map.mpr fun branch _ => isAntichain_consumedBy
    have fresh : ∀ s ∈ rest.map (consumedBy before), ∀ m ∈ s, ¬before.Consumed m :=
      List.forall_mem_map.mpr fun branch _ m mem => (mem_consumedBy.mp mem).2
    -- of two places that cover one place, one covers the other
    have meet := Antichain.exists_meet_iff le_or_le_of_le anti antis fresh
    simp only [List.forall_mem_map] at meet
    calc JoinsExactly before (first :: rest)
        ↔ ∀ p, ¬before.Consumed p → Antichain.Covers (consumedBy before first) p →
            (∀ branch ∈ rest, Antichain.Covers (consumedBy before branch) p) →
            ∃ f ∈ consumedBy before first, f ≤ p ∧
              ∀ branch ∈ rest, Antichain.Covers (consumedBy before branch) f := by
          refine forall_congr' fun p => ?_
          rw [consumed_join_cons, List.forall_mem_cons]
          constructor
          · intro exactly fresh here there
            refine (exactly.mpr (Or.inr ⟨?_, fun branch mem => ?_⟩)).resolve_left fresh
            · exact (covers_consumedBy fresh).mp here
            · exact (covers_consumedBy fresh).mp (there branch mem)
          · intro enough
            by_cases old : before.Consumed p
            · exact iff_of_true (Or.inl old) (Or.inl old)
            · refine or_congr_right ⟨?_, fun consumed => enough old ?_ fun branch mem => ?_⟩
              · rintro ⟨f, mem, le, all⟩
                refine ⟨(covers_consumedBy old).mp ⟨f, mem, le⟩, fun branch mem => ?_⟩
                exact (covers_consumedBy old).mp ((all branch mem).mono le)
              · exact (covers_consumedBy old).mpr consumed.1
              · exact (covers_consumedBy old).mpr (consumed.2 branch mem)
      _ ↔ _ := meet
      _ ↔ NoneInsideFirst before (first :: rest) := by
          simp only [NoneInsideFirst, placeCoveredBy_iff, ← le_iff]
          refine forall₂_congr fun branch _ => forall₂_congr fun place _ => ?_
          refine imp_congr_right fun _ => forall₂_congr fun whole _ => ?_
          rw [lt_iff_le_and_ne, not_and, not_ne_iff]

end Branches

/-- The sets of places are canonical, and branches join exactly where no branch consumed a part of
what the first branch consumed, with all others. -/
theorem movedPlaces_canonical_iff (before : DropTracker) (branches : List DropTracker) :
    ((∀ (set : Finset MovedPlace) (places : List MovedPlace),
        IsAntichain (· ≤ ·) (set : Set MovedPlace) → InsertsCanonically set places) ∧
      (∀ (set : Finset MovedPlace) (places : List MovedPlace), (∀ p, p ∈ places ↔ p ∈ set) →
        normalizeMovedSet set = places.foldl insertMovedPlace ∅) ∧
      (∀ set, normalizeMovedSet (normalizeMovedSet set) = normalizeMovedSet set) ∧
      JoinsExactly before branches) ↔
    NoneInsideFirst before branches := by
  constructor
  · rintro ⟨_, _, _, joins⟩
    exact joinsExactly_iff.mp joins
  · intro none
    refine ⟨fun set places anti => insertsCanonically anti places,
      fun set places listed => (foldl_insertMovedPlace_eq listed).symm,
      fun set => normalizeMovedSet_eq_self (isAntichain_normalizeMovedSet set),
      joinsExactly_iff.mpr none⟩

/-! ### A whole and its parts -/

/-- A record in a local. -/
def recordPlace : MovedPlace := .whole (.local_ 0)

def partA : MovedPlace := ⟨.local_ 0, [.field "a"]⟩

def partB : MovedPlace := ⟨.local_ 0, [.field "b"]⟩

/-- Where nothing was consumed before, a branch consumed what it moved and dropped. -/
theorem consumedBy_start {branch : DropTracker} {set : Finset MovedPlace}
    (all : branch.moved ∪ branch.dropped = set)
    (anti : IsAntichain (· ≤ ·) (set : Set MovedPlace)) : consumedBy ⟨∅, ∅⟩ branch = set := by
  ext place
  rw [mem_consumedBy, all, normalizeMovedSet_eq_self anti]
  simp [consumed_iff, Antichain.Covers]

theorem consumedBy_recordPlace : consumedBy ⟨∅, ∅⟩ ⟨{recordPlace}, ∅⟩ = {recordPlace} :=
  consumedBy_start rfl (by simp)

theorem consumedBy_parts : consumedBy ⟨∅, ∅⟩ ⟨{partA}, {partB}⟩ = {partA, partB} := by
  have apart : ¬partA ≤ partB ∧ ¬partB ≤ partA := by decide
  have all : ({partA} ∪ {partB} : Finset MovedPlace) = {partA, partB} := rfl
  refine consumedBy_start all fun a mem b mem' differ le => ?_
  rw [Finset.mem_coe, Finset.mem_insert, Finset.mem_singleton] at mem mem'
  rcases mem with rfl | rfl <;> rcases mem' with rfl | rfl
  · exact differ rfl
  · exact apart.1 le
  · exact apart.2 le
  · exact differ rfl

/-- One branch moves a record, the other one moves a field of it and drops the other field. The
field was consumed on both branches, and is not known to be. -/
theorem join_forgets :
    let moves : DropTracker := ⟨{recordPlace}, ∅⟩
    let movesPart : DropTracker := ⟨{partA}, {partB}⟩
    moves.Consumed partA ∧ movesPart.Consumed partA ∧
      ¬(DropTracker.join ⟨∅, ∅⟩ [moves, movesPart]).Consumed partA ∧
      (DropTracker.join ⟨∅, ∅⟩ [movesPart, moves]).Consumed partA := by
  intro moves movesPart
  refine ⟨by decide, by decide, ?_, ?_⟩
  · rw [consumed_join_cons, consumedBy_recordPlace]
    rintro (old | ⟨f, mem, _, all⟩)
    · exact absurd old (by decide)
    · obtain rfl := Finset.mem_singleton.mp mem
      have covered := all movesPart List.mem_cons_self
      rw [consumedBy_parts] at covered
      exact absurd covered (by decide)
  · rw [consumed_join_cons, consumedBy_parts]
    refine Or.inr ⟨partA, Finset.mem_insert_self .., by decide, ?_⟩
    refine List.forall_mem_singleton.mpr ?_
    rw [consumedBy_recordPlace]
    decide

end CodeDb

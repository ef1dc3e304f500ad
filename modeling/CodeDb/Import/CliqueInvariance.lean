import Mathlib.Data.Fintype.Card
import CodeDb.Import.CliqueOrder
import CodeDb.Store.JsonReader

/-!
# The order of a clique does not depend on how its members are listed

Colours, classes, forms and the leaves of the search follow the members wherever they are
listed. So the least score of a leaf is that of every listing, and with it the sequence of
keys. That there is one needs the search to end: every level tells more members apart, as
no two texts have the same colour.

## Main definitions

* `Clique.relabel` — the same members, listed in another way
* `Leaf` — a leaf of the search

## Main results

* `refineCliqueColors_relabel` — colours follow the members
* `Leaf.relabel` — and so do leaves
* `canonicalCliqueOrder_relabel` — the order is that of every listing
* `canonicalCliqueOrder_perm` — the keys come in the same sequence for every permutation
-/

namespace CodeDb

open SortOn

/-- The same members, listed in another way. -/
def Clique.relabel {m n : Nat} (c : Clique n) (π : Fin m ≃ Fin n) : Clique m where
  staticSig i := c.staticSig (π i)
  erase i colors := c.erase (π i) (colors ∘ π.symm)
  memberKey i := c.memberKey (π i)

section Relabel

variable {P : Primitives} {m n : Nat} {c : Clique n} {π : Fin m ≃ Fin n} {colors : Fin n → String}

theorem relabel_relabel_symm : (c.relabel π).relabel π.symm = c := by
  cases c
  simp [Clique.relabel, Function.comp_assoc]

/-! ### Colours -/

theorem cliqueColors_comp : cliqueColors (colors ∘ π) = cliqueColors colors := by
  refine sortedSet_eq_of_mem_iff fun color => ?_
  simp only [List.mem_ofFn, Function.comp_apply]
  exact π.exists_congr_left.trans (by simp)

theorem distinctColorCount_comp : distinctColorCount (colors ∘ π) = distinctColorCount colors := by
  rw [distinctColorCount, cliqueColors_comp, distinctColorCount]

theorem nextColors_relabel (preserveOwn : Bool) :
    nextColors P (c.relabel π) preserveOwn (colors ∘ π) =
      nextColors P c preserveOwn colors ∘ π := by
  funext i
  simp [nextColors, Clique.relabel, Function.comp_assoc]

theorem refineRounds_relabel (preserveOwn : Bool) (rounds : Nat) :
    refineRounds P (c.relabel π) preserveOwn rounds (colors ∘ π) =
      refineRounds P c preserveOwn rounds colors ∘ π := by
  induction rounds generalizing colors with
  | zero => rfl
  | succ rounds ih =>
    simp only [refineRounds, nextColors_relabel, distinctColorCount_comp, ih]
    split_ifs
    · rfl
    · rfl

/-- Colours follow the members. -/
theorem refineCliqueColors_relabel (preserveOwn : Bool) :
    refineCliqueColors P (c.relabel π) (colors ∘ π) preserveOwn =
      refineCliqueColors P c colors preserveOwn ∘ π := by
  have size : m = n := Fin.equiv_iff_eq.mp ⟨π⟩
  rw [refineCliqueColors, refineRounds_relabel, refineCliqueColors]
  exact congrArg (fun rounds => refineRounds P c preserveOwn rounds colors ∘ π) size

/-! ### Classes -/

theorem mem_colorCell {color : String} {i : Fin n} :
    i ∈ colorCell colors color ↔ colors i = color := by
  simp [colorCell]

theorem colorCell_comp (color : String) :
    ((colorCell (colors ∘ π) color).map π).Perm (colorCell colors color) := by
  refine (List.perm_ext_iff_of_nodup ?_ ?_).mpr fun i => ?_
  · exact ((List.nodup_finRange m).filter _).map π.injective
  · exact (List.nodup_finRange n).filter _
  · rw [List.mem_map, mem_colorCell]
    constructor
    · rintro ⟨j, listed, rfl⟩
      simpa [mem_colorCell] using listed
    · intro same
      exact ⟨π.symm i, mem_colorCell.mpr (by simpa using same), by simp⟩

theorem targetCell_comp {i : Fin m} : i ∈ targetCell (colors ∘ π) ↔ π i ∈ targetCell colors := by
  have several : (fun cell => decide (1 < cell.length)) ∘ colorCell (colors ∘ π) =
      (fun cell => decide (1 < cell.length)) ∘ colorCell colors := by
    funext color
    have same := (@colorCell_comp m n π colors color).length_eq
    rw [List.length_map] at same
    rw [Function.comp_apply, Function.comp_apply, same]
  rw [targetCell, targetCell, cliqueColors_comp, List.find?_map, List.find?_map, several]
  cases (cliqueColors colors).find? ((fun cell => decide (1 < cell.length)) ∘ colorCell colors) with
  | none => simp
  | some color => simp [mem_colorCell]

theorem individualize_comp (depth : Nat) (i : Fin m) :
    individualize depth (colors ∘ π) i = individualize depth colors (π i) ∘ π := by
  funext j
  by_cases same : j = i
  · simp [individualize, same]
  · simp [individualize, same, π.injective.ne same]

/-! ### Labelings -/

theorem cliqueForm_relabel (order : List (Fin m)) :
    cliqueForm (c.relabel π) order = cliqueForm c (order.map π) := by
  have position (j : Fin n) : order.idxOf (π.symm j) = (order.map π).idxOf j := by
    induction order with
    | nil => rfl
    | cons i order ih =>
      have here : (i == π.symm j) = (π i == j) := by
        rw [Bool.eq_iff_iff, beq_iff_eq, beq_iff_eq, Equiv.eq_symm_apply]
      rw [List.map_cons, List.idxOf_cons, List.idxOf_cons, ih, here]
  rw [cliqueForm, cliqueForm, List.map_map]
  refine List.map_congr_left fun i _ => ?_
  simp only [Clique.relabel, Function.comp_def, position]

theorem distinctColorCount_eq_card (colors : Fin n → String) :
    distinctColorCount colors = (Finset.univ.image colors).card := by
  have colored : (List.ofFn colors).toFinset = Finset.univ.image colors := by
    ext color
    simp [List.mem_ofFn]
  rw [← colored, List.card_toFinset, distinctColorCount, cliqueColors, sortedSet]
  exact (sortOn_perm id _).length_eq

theorem distinctColorCount_eq_iff : distinctColorCount colors = n ↔ Function.Injective colors := by
  have iff := @Finset.card_image_iff _ _ Finset.univ colors _
  rwa [← distinctColorCount_eq_card, Finset.card_univ, Fintype.card_fin, Finset.coe_univ,
    Set.injOn_univ] at iff

/-- Members that are told apart are in the order of their colours wherever they are listed. -/
theorem sortOn_relabel (discrete : distinctColorCount colors = n) :
    (sortOn (colors ∘ π) (List.finRange m)).map π = sortOn colors (List.finRange n) := by
  have apart := distinctColorCount_eq_iff.mp discrete
  have sorted : ((sortOn (colors ∘ π) (List.finRange m)).map π).Pairwise
      fun i j => colors i ≤ colors j :=
    List.pairwise_map.mpr (pairwise_sortOn (colors ∘ π) _)
  rw [← sortOn_eq_self colors sorted]
  refine sortOn_eq_of_perm colors (fun i _ j _ same => apart same) ?_
  refine ((sortOn_perm (colors ∘ π) _).map π).trans ?_
  refine (List.perm_ext_iff_of_nodup ((List.nodup_finRange m).map π.injective)
    (List.nodup_finRange n)).mpr fun i => ?_
  simp [π.surjective i]

theorem labelingOfColors_relabel (discrete : distinctColorCount colors = n) :
    (labelingOfColors (c.relabel π) (colors ∘ π)).score = (labelingOfColors c colors).score := by
  have keys (order : List (Fin m)) : order.map (c.relabel π).memberKey =
      (order.map π).map c.memberKey := by
    rw [List.map_map]
    rfl
  rw [Labeling.score, labelingOfColors, Labeling.score, labelingOfColors]
  simp only [cliqueForm_relabel, keys, sortOn_relabel discrete]

end Relabel

/-! ### The search -/

theorem foldlM_isSome {α β : Type} {f : β → α → Option β} {l : List α}
    (each : ∀ a ∈ l, ∀ b, ∃ b', f b a = some b') (b : β) : ∃ b', l.foldlM f b = some b' := by
  induction l generalizing b with
  | nil => exact ⟨b, rfl⟩
  | cons a l ih =>
    rw [List.forall_mem_cons] at each
    obtain ⟨b', head⟩ := each.1 b
    rw [List.foldlM_cons, head]
    exact ih each.2 b'

section Search

variable {P : Primitives} {m n : Nat} {c : Clique n} {π : Fin m ≃ Fin n} {depth : Nat}
  {seed : Fin n → String}

variable (P c) in
/-- A leaf of the search: colours that tell all members apart. -/
inductive Leaf : (Fin n → String) → Nat → (Fin n → String) → Prop
  | discrete {seed : Fin n → String} {depth : Nat}
      (apart : distinctColorCount (refineCliqueColors P c seed true) = n) :
      Leaf seed depth (refineCliqueColors P c seed true)
  | individualized {seed leaf : Fin n → String} {depth : Nat} {member : Fin n}
      (several : distinctColorCount (refineCliqueColors P c seed true) ≠ n)
      (listed : member ∈ targetCell (refineCliqueColors P c seed true))
      (below : Leaf (individualize depth (refineCliqueColors P c seed true) member) (depth + 1)
        leaf) : Leaf seed depth leaf

theorem Leaf.apart {leaf : Fin n → String} (isLeaf : Leaf P c seed depth leaf) :
    distinctColorCount leaf = n := by
  induction isLeaf with
  | discrete apart => exact apart
  | individualized _ _ _ ih => exact ih

theorem leaf_iff_of_discrete {leaf : Fin n → String}
    (apart : distinctColorCount (refineCliqueColors P c seed true) = n) :
    Leaf P c seed depth leaf ↔ leaf = refineCliqueColors P c seed true := by
  constructor
  · intro isLeaf
    cases isLeaf with
    | discrete => rfl
    | individualized several => exact absurd apart several
  · rintro rfl
    exact .discrete apart

theorem leaf_iff_of_several {leaf : Fin n → String}
    (several : distinctColorCount (refineCliqueColors P c seed true) ≠ n) :
    Leaf P c seed depth leaf ↔ ∃ member ∈ targetCell (refineCliqueColors P c seed true),
      Leaf P c (individualize depth (refineCliqueColors P c seed true) member)
        (depth + 1) leaf := by
  constructor
  · intro isLeaf
    cases isLeaf with
    | discrete apart => exact absurd apart several
    | individualized _ listed below => exact ⟨_, listed, below⟩
  · rintro ⟨member, listed, below⟩
    exact .individualized several listed below

theorem Leaf.relabel {leaf : Fin n → String} (isLeaf : Leaf P c seed depth leaf)
    (π : Fin m ≃ Fin n) : Leaf P (c.relabel π) (seed ∘ π) depth (leaf ∘ π) := by
  have size : m = n := Fin.equiv_iff_eq.mp ⟨π⟩
  induction isLeaf with
  | discrete apart =>
    rw [← refineCliqueColors_relabel]
    refine .discrete ?_
    rw [refineCliqueColors_relabel, distinctColorCount_comp, apart, size]
  | @individualized seed leaf depth member several listed _ ih =>
    refine @Leaf.individualized _ _ _ _ _ _ (π.symm member) ?_ ?_ ?_
    · rwa [refineCliqueColors_relabel, distinctColorCount_comp, size]
    · rw [refineCliqueColors_relabel, targetCell_comp]
      simpa using listed
    · rw [refineCliqueColors_relabel, individualize_comp]
      simpa using ih

/-! ### Levels -/

theorem length_colorCell (colors : Fin n → String) (color : String) :
    (colorCell colors color).length = (colorCell colors color).toFinset.card :=
  (List.toFinset_card_of_nodup ((List.nodup_finRange n).filter _)).symm

theorem exists_mem_targetCell {colors : Fin n → String}
    (several : distinctColorCount colors ≠ n) : ∃ member, member ∈ targetCell colors := by
  have alike : ¬ Function.Injective colors :=
    fun apart => several (distinctColorCount_eq_iff.mpr apart)
  obtain ⟨i, j, same, other⟩ : ∃ i j, colors i = colors j ∧ i ≠ j := by
    simpa [Function.Injective] using alike
  have long : 1 < (colorCell colors (colors j)).length := by
    rw [length_colorCell, Finset.one_lt_card]
    exact ⟨i, by simpa [mem_colorCell] using same, j, by simp [mem_colorCell], other⟩
  have occurs : colors j ∈ cliqueColors colors :=
    (mem_sortedSet).mpr ((List.mem_ofFn' _ _).mpr ⟨j, rfl⟩)
  obtain ⟨cell, found⟩ : ∃ cell, ((cliqueColors colors).map (colorCell colors)).find?
      (fun cell => decide (1 < cell.length)) = some cell :=
    Option.isSome_iff_exists.mp (List.find?_isSome.mpr
      ⟨_, List.mem_map_of_mem occurs, decide_eq_true long⟩)
  have some : 1 < cell.length := by simpa using List.find?_some found
  rw [targetCell, found, Option.getD_some]
  exact ⟨_, List.getElem_mem (Nat.zero_lt_of_lt some)⟩

/-- A member of the class that is taken apart is not the only one. -/
theorem exists_other {colors : Fin n → String} {member : Fin n}
    (listed : member ∈ targetCell colors) :
    ∃ other, other ≠ member ∧ colors other = colors member := by
  rw [targetCell] at listed
  cases found : ((cliqueColors colors).map (colorCell colors)).find?
      fun cell => decide (1 < cell.length) with
  | none => simp [found] at listed
  | some cell =>
    rw [found, Option.getD_some] at listed
    have long : 1 < cell.length := by simpa using List.find?_some found
    obtain ⟨color, -, rfl⟩ := List.mem_map.mp (List.mem_of_find?_eq_some found)
    rw [length_colorCell] at long
    obtain ⟨other, inCell, apart⟩ := Finset.exists_mem_ne long member
    rw [List.mem_toFinset, mem_colorCell] at inCell
    exact ⟨other, apart, inCell.trans (mem_colorCell.mp listed).symm⟩

/-- What tells apart whatever colours do has as many colours at least. -/
theorem distinctColorCount_le {colors finer : Fin n → String}
    (refines : ∀ i j, finer i = finer j → colors i = colors j) :
    distinctColorCount colors ≤ distinctColorCount finer := by
  obtain ⟨coarsen, rfl⟩ := (Function.factorsThrough_iff colors).mp fun i j => refines i j
  rw [distinctColorCount_eq_card, distinctColorCount_eq_card, ← Finset.image_image]
  exact Finset.card_image_le

/-- A member set apart has a colour that there was not. -/
theorem distinctColorCount_lt_individualize {colors : Fin n → String} {member : Fin n}
    (depth : Nat) (listed : member ∈ targetCell colors) (hashes : ∀ i, IsHash (colors i)) :
    distinctColorCount colors < distinctColorCount (individualize depth colors member) := by
  obtain ⟨other, apart, same⟩ := exists_other listed
  have fresh : individualize depth colors member member ∉ Finset.univ.image colors := by
    rw [Finset.mem_image]
    rintro ⟨i, -, equal⟩
    obtain ⟨bytes, isHash⟩ := hashes i
    rw [isHash, individualize, Function.update_self, String.append_assoc,
      String.append_assoc] at equal
    simpa using congrArg (fun s => s.toList.head?) equal
  have grown : insert (individualize depth colors member member) (Finset.univ.image colors) ⊆
      Finset.univ.image (individualize depth colors member) := by
    intro color listed
    rcases Finset.mem_insert.mp listed with rfl | before
    · exact Finset.mem_image_of_mem _ (Finset.mem_univ _)
    · obtain ⟨i, -, rfl⟩ := Finset.mem_image.mp before
      -- the class of the member keeps another one
      by_cases here : i = member
      · refine Finset.mem_image.mpr ⟨other, Finset.mem_univ _, ?_⟩
        rw [individualize, Function.update_of_ne apart, same, here]
      · refine Finset.mem_image.mpr ⟨i, Finset.mem_univ _, ?_⟩
        rw [individualize, Function.update_of_ne here]
  rw [distinctColorCount_eq_card, distinctColorCount_eq_card]
  have larger := Finset.card_le_card grown
  rw [Finset.card_insert_of_notMem fresh] at larger
  omega

/-! ### Refinement -/

/-- Text without the bar that separates colours from what follows. -/
def Barless (color : String) : Prop := ∀ c ∈ color.toList, c ≠ '|'

theorem barless_of_isHash {color : String} (isHash : IsHash color) : Barless color := by
  rintro c listed rfl
  exact absurd (isHash.chars _ listed) (by decide)

theorem barless_individualize {colors : Fin n → String} (hashes : ∀ i, IsHash (colors i))
    (member i : Fin n) : Barless (individualize depth colors member i) := by
  by_cases here : i = member
  · rw [here, individualize, Function.update_self]
    intro c listed
    simp only [String.toList_append, List.mem_append] at listed
    rintro rfl
    rcases listed with ((tag | digit) | separator) | inside
    · exact absurd tag (by decide)
    · rw [Nat.toString_eq_repr, Nat.repr_eq_ofList_toDigits, String.toList_ofList] at digit
      exact absurd (Nat.isDigit_of_mem_toDigits (by decide) (by decide) digit) (by decide)
    · exact absurd separator (by decide)
    · exact barless_of_isHash (hashes member) _ inside rfl
  · rw [individualize, Function.update_of_ne here]
    exact barless_of_isHash (hashes i)

theorem isHash_nextColors (preserveOwn : Bool) (colors : Fin n → String) (i : Fin n) :
    IsHash (nextColors P c preserveOwn colors i) := isHash_hashBytes _ _

theorem isHash_refineCliqueColors (preserveOwn : Bool) (colors : Fin n → String) (i : Fin n) :
    IsHash (refineCliqueColors P c colors preserveOwn i) := by
  have rounds (k : Nat) (some : 0 < k) (colors : Fin n → String) :
      IsHash (refineRounds P c preserveOwn k colors i) := by
    induction k generalizing colors with
    | zero => omega
    | succ k ih =>
      simp only [refineRounds]
      split_ifs
      · exact isHash_nextColors _ _ _
      · cases k with
        | zero => exact isHash_nextColors _ _ _
        | succ k => exact ih (Nat.succ_pos k) _
  exact rounds n i.pos colors

variable (reliable : P.Reliable)
include reliable

/-- Members of the same next colour had the same one before. -/
theorem eq_of_nextColors_eq {colors : Fin n → String} (barless : ∀ i, Barless (colors i))
    {i j : Fin n} (same : nextColors P c true colors i = nextColors P c true colors j) :
    colors i = colors j := by
  have texts := congrArg String.toList (utf8_injective (hashBytes_inj reliable same))
  simp only [if_true, String.toList_append, List.append_assoc] at texts
  have bar (rest : List Char) : Delimited.Stops (· = '|') ("|".toList ++ rest) :=
    Delimited.stops_cons rfl
  exact String.toList_inj.mp
    (Delimited.append_inj_of_plain (barless i) (barless j) (bar _) (bar _) texts).1

/-- Refinement tells apart whatever was told apart. -/
theorem distinctColorCount_le_refineRounds (rounds : Nat) {colors : Fin n → String}
    (barless : ∀ i, Barless (colors i)) :
    distinctColorCount colors ≤ distinctColorCount (refineRounds P c true rounds colors) := by
  induction rounds generalizing colors with
  | zero => exact le_rfl
  | succ rounds ih =>
    have finer : distinctColorCount colors ≤ distinctColorCount (nextColors P c true colors) :=
      distinctColorCount_le fun i j => eq_of_nextColors_eq reliable barless
    simp only [refineRounds]
    split_ifs
    · exact finer
    · exact finer.trans (ih fun i => barless_of_isHash (isHash_nextColors _ _ i))

/-- With a level for every member that is not told apart yet, the search ends. -/
theorem cliqueLabelSearch_isSome {levels : Nat} (barless : ∀ i, Barless (seed i))
    (enough : n < levels + distinctColorCount seed) (depth : Nat) (best : Option (Labeling n)) :
    (∃ r, cliqueLabelSearch P c levels seed depth best = some r) ∧
      ∃ leaf, Leaf P c seed depth leaf := by
  induction levels generalizing seed depth best with
  | zero =>
    have most : distinctColorCount seed ≤ n := by
      rw [distinctColorCount_eq_card]
      exact Finset.card_image_le.trans (by simp)
    omega
  | succ levels ih =>
    have finer := distinctColorCount_le_refineRounds (c := c) reliable n barless
    have hashes := isHash_refineCliqueColors (P := P) (c := c) true seed
    have below {member : Fin n} (listed : member ∈ targetCell (refineCliqueColors P c seed true))
        (best : Option (Labeling n)) :
        (∃ r, cliqueLabelSearch P c levels (individualize depth (refineCliqueColors P c seed true)
          member) (depth + 1) best = some r) ∧
        ∃ leaf, Leaf P c (individualize depth (refineCliqueColors P c seed true) member)
          (depth + 1) leaf := by
      refine ih (barless_individualize hashes member) ?_ (depth + 1) best
      have more := distinctColorCount_lt_individualize depth listed hashes
      rw [refineCliqueColors] at more ⊢
      omega
    simp only [cliqueLabelSearch]
    split_ifs with apart
    · exact ⟨⟨_, rfl⟩, _, .discrete apart⟩
    · obtain ⟨member, listed⟩ := exists_mem_targetCell apart
      obtain ⟨-, leaf, isLeaf⟩ := below listed none
      exact ⟨foldlM_isSome (fun member listed best => (below listed best).1) best, leaf,
        .individualized apart listed isLeaf⟩

omit reliable

/-! ### The least labeling -/

/-- A labeling is the least of what there was and of what is tried. -/
structure Least (best : Option (Labeling n)) (tried : Labeling n → Prop)
    (r : Option (Labeling n)) : Prop where
  le : ∀ l, l ∈ best ∨ tried l → ∃ l' ∈ r, l'.score ≤ l.score
  mem : ∀ l ∈ r, l ∈ best ∨ tried l

theorem least_betterLabeling (best : Option (Labeling n)) (l : Labeling n) :
    Least best (· = l) (some (betterLabeling best l)) := by
  cases best with
  | none => exact ⟨by simp [betterLabeling], by simp [betterLabeling]⟩
  | some b =>
    rw [betterLabeling]
    split_ifs with less
    · refine ⟨?_, by simp⟩
      rintro l' (here | rfl)
      · obtain rfl := Option.some.inj here
        exact ⟨l, rfl, less.le⟩
      · exact ⟨l', rfl, le_rfl⟩
    · refine ⟨?_, by simp⟩
      rintro l' (here | rfl)
      · obtain rfl := Option.some.inj here
        exact ⟨b, rfl, le_rfl⟩
      · exact ⟨b, rfl, not_lt.mp less⟩

theorem Least.trans {best middle r : Option (Labeling n)} {first second : Labeling n → Prop}
    (before : Least best first middle) (after : Least middle second r) :
    Least best (fun l => first l ∨ second l) r := by
  constructor
  · intro l given
    rcases or_assoc.mpr given with old | new
    · obtain ⟨l', held, le⟩ := before.le l old
      obtain ⟨l'', held', le'⟩ := after.le l' (Or.inl held)
      exact ⟨l'', held', le'.trans le⟩
    · exact after.le l (Or.inr new)
  · intro l held
    rcases after.mem l held with old | new
    · exact (before.mem l old).imp_right Or.inl
    · exact Or.inr (Or.inr new)

theorem least_foldlM {α : Type} {f : Option (Labeling n) → α → Option (Option (Labeling n))}
    {tried : α → Labeling n → Prop} {members : List α}
    (each : ∀ a ∈ members, ∀ best r, f best a = some r → Least best (tried a) r)
    {best r : Option (Labeling n)} (run : members.foldlM f best = some r) :
    Least best (fun l => ∃ a ∈ members, tried a l) r := by
  induction members generalizing best with
  | nil =>
    obtain rfl := Option.some.inj run
    exact ⟨fun l given => ⟨l, by simpa using given, le_rfl⟩, fun l held => Or.inl held⟩
  | cons a members ih =>
    rw [List.foldlM_cons] at run
    obtain ⟨middle, head, run⟩ := Option.bind_eq_some_iff.mp run
    rw [List.forall_mem_cons] at each
    simpa using (each.1 best middle head).trans (ih each.2 run)

/-- The search finds the least leaf. -/
theorem least_cliqueLabelSearch {levels : Nat} {best r : Option (Labeling n)}
    (run : cliqueLabelSearch P c levels seed depth best = some r) :
    Least best (fun l => ∃ leaf, Leaf P c seed depth leaf ∧ l = labelingOfColors c leaf) r := by
  induction levels generalizing seed depth best r with
  | zero => cases run
  | succ levels ih =>
    simp only [cliqueLabelSearch] at run
    split_ifs at run with apart
    · obtain rfl := Option.some.inj run
      simpa [leaf_iff_of_discrete apart] using least_betterLabeling best (labelingOfColors c _)
    · have branches (l : Labeling n) :
          (∃ leaf, Leaf P c seed depth leaf ∧ l = labelingOfColors c leaf) ↔
            ∃ member ∈ targetCell (refineCliqueColors P c seed true), ∃ leaf,
              Leaf P c (individualize depth (refineCliqueColors P c seed true) member) (depth + 1)
                leaf ∧ l = labelingOfColors c leaf := by
        simp only [leaf_iff_of_several apart]
        constructor
        · rintro ⟨leaf, ⟨member, listed, below⟩, rfl⟩
          exact ⟨member, listed, leaf, below, rfl⟩
        · rintro ⟨member, listed, leaf, below, rfl⟩
          exact ⟨leaf, ⟨member, listed, below⟩, rfl⟩
      simp only [branches]
      exact least_foldlM (fun member _ best r run => ih run) run

include reliable in
/-- Where members are not told apart at once, the search finds a least leaf. -/
theorem exists_least_leaf (several : distinctColorCount seed ≠ n) (hashes : ∀ i, IsHash (seed i)) :
    ∃ leaf, cliqueLabelSearch P c n seed 0 none = some (some (labelingOfColors c leaf)) ∧
      Leaf P c seed 0 leaf ∧ ∀ other, Leaf P c seed 0 other →
        (labelingOfColors c leaf).score ≤ (labelingOfColors c other).score := by
  have occurs : 0 < distinctColorCount seed := by
    rw [distinctColorCount_eq_card, Finset.card_pos, Finset.image_nonempty]
    by_contra empty
    have none : n = 0 := by simpa [Finset.univ_nonempty_iff, ← Fin.pos_iff_nonempty] using empty
    subst none
    exact several (by rw [distinctColorCount_eq_card]; simp)
  obtain ⟨⟨r, run⟩, other, isLeaf⟩ := cliqueLabelSearch_isSome (c := c) reliable
    (fun i => barless_of_isHash (hashes i)) (Nat.lt_add_of_pos_right occurs) 0 none
  have least := least_cliqueLabelSearch run
  obtain ⟨l, rfl, -⟩ := least.le _ (Or.inr ⟨other, isLeaf, rfl⟩)
  obtain ⟨leaf, found, rfl⟩ := (least.mem l rfl).resolve_left nofun
  refine ⟨leaf, run, found, fun other isLeaf => ?_⟩
  obtain ⟨l, held, le⟩ := least.le _ (Or.inr ⟨other, isLeaf, rfl⟩)
  obtain rfl := Option.some.inj held
  exact le

/-! ### The order -/

theorem map_memberKey_relabel (order : List (Fin m)) :
    order.map (c.relabel π).memberKey = (order.map π).map c.memberKey := by
  rw [List.map_map]
  rfl

variable (P c) in
/-- The colours that members have at first. -/
def firstColors : Fin n → String := refineCliqueColors P c (fun _ => "") false

theorem firstColors_relabel : firstColors P (c.relabel π) = firstColors P c ∘ π :=
  @refineCliqueColors_relabel P m n c π (fun _ => "") false

theorem canonicalCliqueOrder_of_discrete (discrete : distinctColorCount (firstColors P c) = n) :
    canonicalCliqueOrder P c = some (sortOn (firstColors P c) (List.finRange n)) :=
  if_pos discrete

theorem canonicalCliqueOrder_of_several (several : distinctColorCount (firstColors P c) ≠ n)
    {l : Labeling n} (run : cliqueLabelSearch P c n (firstColors P c) 0 none = some (some l)) :
    canonicalCliqueOrder P c = some l.order := by
  refine (if_neg several).trans ?_
  rw [← firstColors, run]
  rfl

/-- A clique has an order, and the sequence of keys in it is that of every listing. -/
theorem canonicalCliqueOrder_relabel (reliable : P.Reliable) (c : Clique n) (π : Fin m ≃ Fin n) :
    ∃ order order', canonicalCliqueOrder P c = some order ∧
      canonicalCliqueOrder P (c.relabel π) = some order' ∧ order.Perm (List.finRange n) ∧
      order'.map (c.relabel π).memberKey = order.map c.memberKey := by
  have size : m = n := Fin.equiv_iff_eq.mp ⟨π⟩
  have count : distinctColorCount (firstColors P (c.relabel π)) =
      distinctColorCount (firstColors P c) := by
    rw [firstColors_relabel, distinctColorCount_comp]
  by_cases discrete : distinctColorCount (firstColors P c) = n
  · refine ⟨_, _, canonicalCliqueOrder_of_discrete discrete,
      canonicalCliqueOrder_of_discrete (count.trans (discrete.trans size.symm)),
      sortOn_perm _ _, ?_⟩
    rw [map_memberKey_relabel, firstColors_relabel, sortOn_relabel discrete]
  · have several : distinctColorCount (firstColors P (c.relabel π)) ≠ m := by rwa [count, size]
    obtain ⟨leaf, run, isLeaf, least⟩ :=
      exists_least_leaf reliable discrete (isHash_refineCliqueColors _ _)
    obtain ⟨leaf', run', isLeaf', least'⟩ :=
      exists_least_leaf reliable several (isHash_refineCliqueColors _ _)
    refine ⟨_, _, canonicalCliqueOrder_of_several discrete run,
      canonicalCliqueOrder_of_several several run', sortOn_perm leaf _, ?_⟩
    -- each leaf is one of the other listing, so neither score is less
    have there := isLeaf.relabel π
    have back := isLeaf'.relabel π.symm
    rw [← firstColors_relabel] at there
    rw [relabel_relabel_symm, firstColors_relabel, Function.comp_assoc, π.self_comp_symm,
      Function.comp_id] at back
    have le := least' _ there
    have le' := least _ back
    rw [labelingOfColors_relabel isLeaf.apart] at le
    have same : (labelingOfColors c (leaf' ∘ π.symm)).score =
        (labelingOfColors (c.relabel π) leaf').score := by
      have listing := @labelingOfColors_relabel n m (c.relabel π) π.symm leaf' isLeaf'.apart
      rwa [relabel_relabel_symm] at listing
    rw [same] at le'
    exact congrArg (fun s => (ofLex s).2) (le_antisymm le le')

/-- A clique has an order whatever the sequence in which its members are given, and the
keys of the members come in the same sequence every time. -/
theorem canonicalCliqueOrder_perm (reliable : P.Reliable) (c : Clique n)
    (π : Equiv.Perm (Fin n)) :
    ∃ order order', canonicalCliqueOrder P c = some order ∧
      canonicalCliqueOrder P (c.relabel π) = some order' ∧ order.Perm (List.finRange n) ∧
      order'.Perm (List.finRange n) ∧
      order'.map (c.relabel π).memberKey = order.map c.memberKey := by
  obtain ⟨order, order', here, there, perm, keys⟩ := canonicalCliqueOrder_relabel reliable c π
  obtain ⟨other, -, there', -, perm', -⟩ :=
    canonicalCliqueOrder_relabel reliable (c.relabel π) (Equiv.refl _)
  obtain rfl := Option.some.inj (there'.symm.trans there)
  exact ⟨order, other, here, there, perm, perm', keys⟩

/-- Two definitions that refer to each other, and nothing else to tell them apart. -/
def evenOdd : Clique 2 where
  staticSig _ := "i64"
  erase i colors := "call " ++ colors i.rev
  memberKey i := if i = 0 then "even" else "odd"

theorem canonicalCliqueOrder_perm_evenOdd :
    ∃ order order', canonicalCliqueOrder plain evenOdd = some order ∧
      canonicalCliqueOrder plain (evenOdd.relabel (Equiv.swap 0 1)) = some order' ∧
      order.Perm (List.finRange 2) ∧ order'.Perm (List.finRange 2) ∧
      order'.map (evenOdd.relabel (Equiv.swap 0 1)).memberKey = order.map evenOdd.memberKey :=
  canonicalCliqueOrder_perm plain_reliable evenOdd (Equiv.swap 0 1)

end Search

end CodeDb

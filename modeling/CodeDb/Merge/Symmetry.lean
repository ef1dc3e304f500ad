import CodeDb.Merge.OneSided

/-!
# Exchanging the branches of a merge

`mergeRootPayloads` starts from the target and grafts the source onto it. For roots that
list what they bind, and list nothing twice, it does not matter which is which: the states
of a symbol or a type merge alike both ways, a merged root is determined by its facets, and
the checks on its bindings do not depend on their order.

## Main definitions

* `SameRoot` — equality of roots, as the program compares them

## Main results

* `mergeSymbolState_swap`, `mergeTypeState_swap` — states merge alike both ways
* `MergesTo.normalizeRoot_eq` — a merge and the one with its branches exchanged come to one
  root
* `mergeRootPayloads_symmetric` — a merge succeeds exactly if the exchanged one does, with
  the same root
-/

namespace CodeDb

open Owned SortOn ThreeWay

variable {ancestor target source merged merged' : ProgramRootPayload}

/-! ### States -/

theorem clashes_comm {α : Type*} [DecidableEq α] (base left right : α) :
    clashes base left right = clashes base right left := by
  simp only [clashes, ne_comm (a := left) (b := right)]
  cases decide (left ≠ base) <;> cases decide (right ≠ base) <;> rfl

theorem preferRight_comm_of_not_clashes {α : Type*} [DecidableEq α] {base left right : α}
    (agree : ¬ clashes base left right = true) :
    preferRight base left right = preferRight base right left := by
  refine preferRight_comm fun changedL changedR => ?_
  by_contra differs
  exact agree (by simp [clashes, changedL, changedR, differs])

/-- Two states of one symbol and one signature have the same entry if they have the same
definition. -/
theorem SymbolState.Of.entry_eq {symbol : Hash} {s t : SymbolState} (hs : s.Of symbol)
    (ht : t.Of symbol) (signatures : signatureOf s = signatureOf t)
    (definitions : definitionOf s = definitionOf t) : s.entry = t.entry := by
  cases hse : s.entry with
  | none => cases hte : t.entry <;> simp_all [signatureOf]
  | some e =>
    cases hte : t.entry with
    | none => simp [signatureOf, hse, hte] at signatures
    | some e' =>
      have owner := (hs.entry e (by simp [hse])).trans (ht.entry e' (by simp [hte])).symm
      obtain ⟨_, _, _⟩ := e
      obtain ⟨_, _, _⟩ := e'
      simp_all [signatureOf, definitionOf]

/-- States of a symbol merge alike both ways. -/
theorem mergeSymbolState_swap {symbol : Hash} {base left right state : SymbolState}
    (hb : base.Of symbol) (hl : left.Of symbol) (hr : right.Of symbol)
    (merged : mergeSymbolState symbol base left right = .ok state) :
    mergeSymbolState symbol base right left = .ok state := by
  unfold mergeSymbolState at merged
  split_ifs at merged with presence signature alike definition names params exports
  · obtain ⟨signatures, sameNames, sameParams, sameExports, definitions⟩ := alike
    have sameEntry := hl.entry_eq hr signatures definitions
    obtain rfl : left = right := by
      cases left
      cases right
      simp_all
    unfold mergeSymbolState
    rw [if_neg presence, if_pos signature, if_pos ⟨rfl, rfl, rfl, rfl, rfl⟩]
    exact merged
  · obtain ⟨signatureL, signatureR⟩ := not_or.mp signature
    -- without a change of the signature, entries differ by their definitions
    have entries : preferRight base.entry left.entry right.entry =
        preferRight base.entry right.entry left.entry := by
      refine preferRight_comm fun changedL changedR => ?_
      refine hl.entry_eq hr ((not_not.mp signatureL).trans (not_not.mp signatureR).symm) ?_
      by_contra differs
      refine definition ?_
      have definitionL : definitionOf left ≠ definitionOf base := fun same =>
        changedL (hl.entry_eq hb (not_not.mp signatureL) same)
      have definitionR : definitionOf right ≠ definitionOf base := fun same =>
        changedR (hr.entry_eq hb (not_not.mp signatureR) same)
      simp [clashes, definitionL, definitionR, differs]
    unfold mergeSymbolState
    rw [if_neg (by tauto), if_neg (by tauto), clashes_comm, if_neg definition, clashes_comm,
      if_neg names, clashes_comm, if_neg params, clashes_comm, if_neg exports, ← merged, entries,
      preferRight_comm_of_not_clashes names, preferRight_comm_of_not_clashes params,
      preferRight_comm_of_not_clashes exports]

/-- States of a type merge alike both ways. -/
theorem mergeTypeState_swap {typeSymbol : Hash} {base left right state : TypeState}
    (hl : left.Of typeSymbol) (hr : right.Of typeSymbol)
    (merged : mergeTypeState typeSymbol base left right = .ok state) :
    mergeTypeState typeSymbol base right left = .ok state := by
  unfold mergeTypeState at merged
  split_ifs at merged with presence definition names changed
  all_goals
    unfold mergeTypeState
    rw [if_neg (by tauto), clashes_comm, if_neg definition, clashes_comm, if_neg names, ← merged,
      preferRight_comm_of_not_clashes names]
  · by_cases changedL : typeDefOf left = typeDefOf base
    · rw [if_neg (not_not.mpr changedL)]
    · have alike : typeDefOf left = typeDefOf right := by
        by_contra differs
        exact definition (by simp [clashes, changedL, changed, differs])
      rw [if_pos changedL, hl.entry_eq hr alike]
  · by_cases changedL : typeDefOf left = typeDefOf base
    · rw [if_neg (not_not.mpr changedL), hl.entry_eq hr (changedL.trans (not_not.mp changed).symm)]
    · rw [if_pos changedL]

/-! ### Bindings -/

/-- Bindings pass the check exactly if every key has one owner. -/
theorem checkBindings_ok_iff {β κ : Type*} [BEq κ] [LawfulBEq κ] {key : β → κ} {owner : β → Hash}
    {conflict : Hash → β → MergeConflict} {seen : List (κ × Hash)} {bindings : List β} :
    checkBindings key owner conflict seen bindings = .ok () ↔
      (∀ b ∈ bindings, ∀ h ∈ seen.lookup (key b), h = owner b) ∧
        ∀ a ∈ bindings, ∀ b ∈ bindings, key a = key b → owner a = owner b := by
  induction bindings generalizing seen with
  | nil => simp [checkBindings]
  | cons c rest ih =>
    -- what `c` adds to the bindings seen, once it agrees with them
    have step : (∀ h ∈ seen.lookup (key c), h = owner c) →
        (checkBindings key owner conflict ((key c, owner c) :: seen) rest = .ok () ↔
          (∀ b ∈ c :: rest, ∀ h ∈ seen.lookup (key b), h = owner b) ∧
            ∀ a ∈ c :: rest, ∀ b ∈ c :: rest, key a = key b → owner a = owner b) := by
      intro agrees
      rw [ih]
      constructor
      · rintro ⟨fresh, single⟩
        have withC : ∀ b ∈ rest, key b = key c → owner c = owner b := fun b hb same =>
          fresh b hb (owner c) (by simp [same])
        refine ⟨List.forall_mem_cons.mpr ⟨agrees, fun b hb h found => ?_⟩, ?_⟩
        · by_cases same : key b = key c
          · rw [agrees h (same ▸ found), withC b hb same]
          · exact fresh b hb h (by simpa [List.lookup_cons, beq_false_of_ne same] using found)
        · refine List.forall_mem_cons.mpr ⟨List.forall_mem_cons.mpr ⟨fun _ => rfl, ?_⟩, ?_⟩
          · exact fun b hb same => withC b hb same.symm
          · intro a ha
            exact List.forall_mem_cons.mpr
              ⟨fun same => (withC a ha same).symm, fun b hb same => single a ha b hb same⟩
      · rintro ⟨fresh, single⟩
        refine ⟨fun b hb h found => ?_, fun a ha b hb => single a (.tail _ ha) b (.tail _ hb)⟩
        by_cases same : key b = key c
        · obtain rfl : owner c = h := by simpa [List.lookup_cons, same] using found
          exact single c (.head _) b (.tail _ hb) same.symm
        · exact fresh b (.tail _ hb) h
            (by simpa [List.lookup_cons, beq_false_of_ne same] using found)
    unfold checkBindings
    cases found : seen.lookup (key c) with
    | none => exact step (by simp [found])
    | some existing =>
      by_cases same : existing = owner c
      · simp only [ne_eq, same, not_true_eq_false, if_false]
        exact step (by simp [found, same])
      · simp only [ne_eq, same, not_false_eq_true, if_true]
        refine ⟨fun failed => (by cases failed), fun agrees => ?_⟩
        exact absurd (agrees.1 c (.head _) existing found) same

/-- The check of bindings does not depend on their order. -/
theorem checkBindings_ok_of_perm {β κ : Type*} [BEq κ] [LawfulBEq κ] {key : β → κ}
    {owner : β → Hash} {conflict : Hash → β → MergeConflict} {bindings bindings' : List β}
    (perm : bindings.Perm bindings') (ok : checkBindings key owner conflict [] bindings = .ok ()) :
    checkBindings key owner conflict [] bindings' = .ok () := by
  obtain ⟨-, single⟩ := checkBindings_ok_iff.mp ok
  refine checkBindings_ok_iff.mpr ⟨by simp, fun a ha b hb => ?_⟩
  exact single a (perm.mem_iff.mpr ha) b (perm.mem_iff.mpr hb)

/-- A registry merges alike both ways. -/
theorem mergeRegistry_swap {α β : Type*} [DecidableEq β] {value : α → β}
    {conflict conflict' : MergeConflict} {base left right result : α}
    (merged : mergeRegistry value conflict base left right = .ok result) :
    ∃ result', mergeRegistry value conflict' base right left = .ok result' ∧
      value result = value result' ∧
        ((value left = value right → left = right) → result = result') := by
  unfold mergeRegistry at merged ⊢
  split_ifs at merged ⊢ with changedR unchangedL differs changedL changedL
  all_goals simp_all

/-! ### Roots -/

/-- Roots are equal, as the program compares them: metadata by value, and all else as it
is. -/
structure SameRoot (a b : ProgramRootPayload) : Prop where
  metadata : a.metadata.value = b.metadata.value
  rest : { a with metadata := b.metadata } = b

/-- The lists of a root that are to name each of their owners once. -/
def Distinct (root : ProgramRootPayload) : Prop :=
  (root.symbols.map (·.symbol)).Nodup ∧ (root.types.map (·.typeSymbol)).Nodup ∧
    (root.paramNames.map (·.symbol)).Nodup

private theorem nodup_map_toList {α β : Type*} (f : α → β) (o : Option α) :
    (o.toList.map f).Nodup := by
  cases o <;> simp

theorem mergeSymbol_distinct {before after : ProgramRootPayload} {symbol : Hash}
    (distinct : Distinct before)
    (step : mergeSymbol ancestor target source before symbol = .ok after) : Distinct after := by
  obtain ⟨outcome, -, rfl, of⟩ := mergeSymbol_ok step
  cases outcome with
  | none => exact distinct
  | some state =>
    have about := of state rfl
    simp only [Option.map_some, Option.getD_some, replaceSymbolState, about.ite_entry]
    exact ⟨nodup_replaceOwned _ distinct.1 (fun e he => about.entry e (Option.mem_toList.mp he))
        (nodup_map_toList _ _), distinct.2.1,
      nodup_replaceOwned _ distinct.2.2 (fun p hp => about.paramNames p (Option.mem_toList.mp hp))
        (nodup_map_toList _ _)⟩

theorem mergeType_distinct {before after : ProgramRootPayload} {typeSymbol : Hash}
    (distinct : Distinct before)
    (step : mergeType ancestor target source before typeSymbol = .ok after) : Distinct after := by
  obtain ⟨outcome, -, rfl, of⟩ := mergeType_ok step
  cases outcome with
  | none => exact distinct
  | some state =>
    have about := of state rfl
    simp only [Option.map_some, Option.getD_some, replaceTypeState, about.ite_entry]
    exact ⟨distinct.1, nodup_replaceOwned _ distinct.2.1
      (fun e he => about.entry e (Option.mem_toList.mp he)) (nodup_map_toList _ _), distinct.2.2⟩

/-- Nothing is listed twice in what a merge comes to. -/
theorem MergesTo.distinct (merges : MergesTo ancestor target source merged)
    (distinct : Distinct target) : Distinct merged := by
  obtain ⟨bySymbol, byType, symbols, types, -, -, result⟩ := merges
  have afterSymbols := Except.foldlM_inv Distinct
    (fun _ _ _ _ before step => mergeSymbol_distinct before step) distinct symbols
  have afterTypes := Except.foldlM_inv Distinct
    (fun _ _ _ _ before step => mergeType_distinct before step) afterSymbols types
  rw [result]
  exact afterTypes

/-- Roots of the same facets, tests and groups are the same once normalized, but for their
metadata. -/
theorem normalizeRoot_eq_of_facets (distinct : Distinct merged)
    (symbols : ∀ symbol, symbolFacets merged symbol = symbolFacets merged' symbol)
    (types : ∀ typeSymbol, typeFacets merged typeSymbol = typeFacets merged' typeSymbol)
    (rest : (merged.tests, merged.recursionGroups, merged.typeRecursionGroups) =
      (merged'.tests, merged'.recursionGroups, merged'.typeRecursionGroups)) :
    { normalizeRoot merged with metadata := merged'.metadata } = normalizeRoot merged' ∧
      merged.names.Perm merged'.names ∧ merged.typeNames.Perm merged'.typeNames ∧
        merged.exports.Perm merged'.exports := by
  have entries := perm_of_filter_perm RootSymbolPayload.symbol
    fun s => .of_eq (congrArg SymbolFacets.entries (symbols s))
  have definitions := perm_of_filter_perm RootTypePayload.typeSymbol
    fun s => .of_eq (congrArg TypeFacets.entries (types s))
  have params := perm_of_filter_perm ParamNames.symbol
    fun s => .of_eq (congrArg SymbolFacets.paramNames (symbols s))
  have names := perm_of_filter_perm NameBinding.symbol
    fun s => Multiset.coe_eq_coe.mp (congrArg SymbolFacets.names (symbols s))
  have exports := perm_of_filter_perm ExportBinding.symbol
    fun s => Multiset.coe_eq_coe.mp (congrArg SymbolFacets.exports (symbols s))
  have typeNames := perm_of_filter_perm TypeNameBinding.typeSymbol
    fun s => Multiset.coe_eq_coe.mp (congrArg TypeFacets.names (types s))
  -- where the keys are distinct, or tell everything apart, one order is left
  have sorted : ∀ {α : Type} (key : α → Hash) {l l' : List α}, (l.map key).Nodup → l.Perm l' →
      sortOn key l = sortOn key l' := fun key l l' nodup perm =>
    sortOn_eq_of_perm key (fun a ha b hb same =>
      List.inj_on_of_nodup_map nodup ha hb same) perm
  simp only [Prod.mk.injEq] at rest
  refine ⟨?_, names, typeNames, exports⟩
  simp only [normalizeRoot, rest, sorted _ distinct.1 entries, sorted _ distinct.2.1 definitions,
    sorted _ distinct.2.2 params,
    sortOn_eq_of_perm _ (fun a _ b _ same => NameBinding.key_injective same) names,
    sortOn_eq_of_perm _ (fun a _ b _ same => ExportBinding.key_injective same) exports,
    sortOn_eq_of_perm _ (fun a _ b _ same => TypeNameBinding.key_injective same) typeNames]

/-! ### The merge with its branches exchanged -/

/-- The view of a symbol merges alike both ways. -/
theorem mergeView_symbol_swap {symbol : Hash} {outcome : Option SymbolState}
    (view : mergeView (mergeSymbolState symbol) (symbolState ancestor symbol)
      (symbolState target symbol) (symbolState source symbol) = .ok outcome) :
    ∃ outcome', mergeView (mergeSymbolState symbol) (symbolState ancestor symbol)
        (symbolState source symbol) (symbolState target symbol) = .ok outcome' ∧
      outcome'.getD (symbolState source symbol) = outcome.getD (symbolState target symbol) :=
  mergeView_swap (fun _ merged => mergeSymbolState_swap (symbolState_of ..) (symbolState_of ..)
    (symbolState_of ..) merged) view

/-- The view of a type merges alike both ways. -/
theorem mergeView_type_swap {typeSymbol : Hash} {outcome : Option TypeState}
    (view : mergeView (mergeTypeState typeSymbol) (typeState ancestor typeSymbol)
      (typeState target typeSymbol) (typeState source typeSymbol) = .ok outcome) :
    ∃ outcome', mergeView (mergeTypeState typeSymbol) (typeState ancestor typeSymbol)
        (typeState source typeSymbol) (typeState target typeSymbol) = .ok outcome' ∧
      outcome'.getD (typeState source typeSymbol) = outcome.getD (typeState target typeSymbol) :=
  mergeView_swap (fun _ merged => mergeTypeState_swap (typeState_of ..) (typeState_of ..) merged)
    view

/-- The facets of a symbol in what a merge comes to, where the target lists what it
binds, and nothing twice. -/
theorem MergesTo.symbolFacets_view (merges : MergesTo ancestor target source merged)
    (lists : ListsOnce target) {symbol : Hash} {outcome : Option SymbolState}
    (view : mergeView (mergeSymbolState symbol) (symbolState ancestor symbol)
      (symbolState target symbol) (symbolState source symbol) = .ok outcome) :
    symbolFacets merged symbol = (outcome.getD (symbolState target symbol)).facets := by
  obtain ⟨outcome', view', facets⟩ := merges.symbolFacets_eq symbol
  obtain rfl := Except.ok.inj (view.symm.trans view')
  rw [facets]
  cases outcome with
  | none => exact (lists.symbolState_facets symbol).symm
  | some state => rfl

/-- The facets of a type in what a merge comes to, where the target lists what it
binds, and nothing twice. -/
theorem MergesTo.typeFacets_view (merges : MergesTo ancestor target source merged)
    (lists : ListsOnce target) {typeSymbol : Hash} {outcome : Option TypeState}
    (view : mergeView (mergeTypeState typeSymbol) (typeState ancestor typeSymbol)
      (typeState target typeSymbol) (typeState source typeSymbol) = .ok outcome) :
    typeFacets merged typeSymbol = (outcome.getD (typeState target typeSymbol)).facets := by
  obtain ⟨outcome', view', facets⟩ := merges.typeFacets_eq typeSymbol
  obtain rfl := Except.ok.inj (view.symm.trans view')
  rw [facets]
  cases outcome with
  | none => exact (lists.typeState_facets typeSymbol).symm
  | some state => rfl

/-- What a merge comes to, the exchanged one comes to as well, in another order. -/
theorem MergesTo.swap (merges : MergesTo ancestor target source merged) (hl : ListsOnce target)
    (hr : ListsOnce source) (groups : target.recursionGroups = source.recursionGroups)
    (typeGroups : target.typeRecursionGroups = source.typeRecursionGroups) :
    ∃ merged', MergesTo ancestor source target merged' ∧
      (SameRoot (normalizeRoot merged) (normalizeRoot merged') ∧
        ((target.metadata.value = source.metadata.value → target.metadata = source.metadata) →
          normalizeRoot merged = normalizeRoot merged')) ∧
      merged.names.Perm merged'.names ∧ merged.typeNames.Perm merged'.typeNames ∧
        merged.exports.Perm merged'.exports := by
  -- every step of the exchanged merge succeeds, since the step that it exchanges did
  have symbolSteps : ∀ before, ∀ symbol ∈ allSymbols ancestor source target,
      ∃ after, mergeSymbol ancestor source target before symbol = .ok after := by
    intro before symbol _
    obtain ⟨outcome, view, -⟩ := merges.symbolFacets_eq symbol
    obtain ⟨outcome', view', -⟩ := mergeView_symbol_swap view
    rw [mergeSymbol, view']
    cases outcome' <;> exact ⟨_, rfl⟩
  have typeSteps : ∀ before, ∀ typeSymbol ∈ allTypes ancestor source target,
      ∃ after, mergeType ancestor source target before typeSymbol = .ok after := by
    intro before typeSymbol _
    obtain ⟨outcome, view, -⟩ := merges.typeFacets_eq typeSymbol
    obtain ⟨outcome', view', -⟩ := mergeView_type_swap view
    rw [mergeType, view']
    cases outcome' <;> exact ⟨_, rfl⟩
  obtain ⟨bySymbol, symbols⟩ := Except.foldlM_isOk symbolSteps source
  obtain ⟨byType, types⟩ := Except.foldlM_isOk typeSteps bySymbol
  obtain ⟨-, -, -, -, tests, metadata, -⟩ := id merges
  obtain ⟨tests', testsOk, -, sameTests⟩ := mergeRegistry_swap tests
  obtain ⟨metadata', metadataOk, sameValue, sameMetadata⟩ := mergeRegistry_swap metadata
  obtain rfl := sameTests id
  let merged' := { byType with tests := merged.tests, metadata := metadata' }
  have merges' : MergesTo ancestor source target merged' :=
    ⟨bySymbol, byType, symbols, types, testsOk, metadataOk, rfl⟩
  have normalized := @normalizeRoot_eq_of_facets merged merged'
    (merges.distinct ⟨hl.distinctSymbols, hl.distinctTypes, hl.distinctParams⟩) ?_ ?_ ?_
  · refine ⟨merged', merges', ⟨⟨sameValue, normalized.1⟩, fun alike => ?_⟩, normalized.2⟩
    rw [← normalized.1, show merged'.metadata = merged.metadata from (sameMetadata alike).symm]
    rfl
  · intro symbol
    obtain ⟨outcome, view, -⟩ := merges.symbolFacets_eq symbol
    obtain ⟨outcome', view', same⟩ := mergeView_symbol_swap view
    rw [merges.symbolFacets_view hl view,
      merges'.symbolFacets_view hr view', same]
  · intro typeSymbol
    obtain ⟨outcome, view, -⟩ := merges.typeFacets_eq typeSymbol
    obtain ⟨outcome', view', same⟩ := mergeView_type_swap view
    rw [merges.typeFacets_view hl view,
      merges'.typeFacets_view hr view', same]
  · obtain ⟨left, leftTypes⟩ := merges.recursionGroups_eq
    obtain ⟨right, rightTypes⟩ := merges'.recursionGroups_eq
    rw [left, leftTypes, right, rightTypes, groups, typeGroups]

/-- A merge that succeeds succeeds with its branches exchanged, and with the same root. -/
private theorem mergeRootPayloads_swap (hl : ListsOnce target) (hr : ListsOnce source)
    (groups : target.recursionGroups = source.recursionGroups)
    (typeGroups : target.typeRecursionGroups = source.typeRecursionGroups)
    (run : mergeRootPayloads ancestor target source = .ok merged) :
    ∃ merged', mergeRootPayloads ancestor source target = .ok merged' ∧
      SameRoot (normalizeRoot merged) (normalizeRoot merged') ∧
        ((target.metadata.value = source.metadata.value → target.metadata = source.metadata) →
          normalizeRoot merged = normalizeRoot merged') := by
  obtain ⟨merges, names, typeNames, exports⟩ := mergeRootPayloads_eq_ok.mp run
  obtain ⟨merged', merges', same, permNames, permTypeNames, permExports⟩ :=
    merges.swap hl hr groups typeGroups
  exact ⟨merged', mergeRootPayloads_eq_ok.mpr ⟨merges', checkBindings_ok_of_perm permNames names,
    checkBindings_ok_of_perm permTypeNames typeNames,
    checkBindings_ok_of_perm permExports exports⟩, same⟩

/-- A merge of roots that list what they bind, and nothing twice, succeeds exactly if it
does with its branches exchanged, and comes to an equal root; to one that is the same down
to the signs of zeros, unless the metadata of the branches differs in these alone. -/
theorem mergeRootPayloads_symmetric (hl : ListsOnce target) (hr : ListsOnce source)
    (groups : ancestor.recursionGroups = target.recursionGroups ∧
      target.recursionGroups = source.recursionGroups)
    (typeGroups : ancestor.typeRecursionGroups = target.typeRecursionGroups ∧
      target.typeRecursionGroups = source.typeRecursionGroups) :
    ((∃ merged, mergeRootPayloads ancestor target source = .ok merged) ↔
      ∃ merged, mergeRootPayloads ancestor source target = .ok merged) ∧
    ∀ merged merged', mergeRootPayloads ancestor target source = .ok merged →
      mergeRootPayloads ancestor source target = .ok merged' →
      SameRoot (normalizeRoot merged) (normalizeRoot merged') ∧
        ((target.metadata.value = source.metadata.value → target.metadata = source.metadata) →
          normalizeRoot merged = normalizeRoot merged') := by
  refine ⟨⟨?_, ?_⟩, ?_⟩
  · rintro ⟨merged, run⟩
    obtain ⟨merged', run', -⟩ := mergeRootPayloads_swap hl hr groups.2 typeGroups.2 run
    exact ⟨merged', run'⟩
  · rintro ⟨merged, run⟩
    obtain ⟨merged', run', -⟩ := mergeRootPayloads_swap hr hl groups.2.symm typeGroups.2.symm run
    exact ⟨merged', run'⟩
  · intro merged merged' run run'
    obtain ⟨merged'', run'', same⟩ := mergeRootPayloads_swap hl hr groups.2 typeGroups.2 run
    obtain rfl := Except.ok.inj (run'.symm.trans run'')
    exact same

/-- A root that lists a type twice, as it does after the type is created twice. -/
def repeatedTypeRoot : ProgramRootPayload :=
  { ProgramRootPayload.empty with
    types := [⟨"sha256:41", "sha256:51"⟩, ⟨"sha256:41", "sha256:52"⟩]
    typeNames := [⟨"main", "Point", "sha256:41", true⟩, ⟨"main", "Pair", "sha256:41", true⟩] }

/-- As the target, the root keeps both entries of the type; as the source, the first. -/
theorem mergeRootPayloads_asymmetric :
    ¬ ∀ ancestor target source : ProgramRootPayload,
      (ancestor.recursionGroups = target.recursionGroups ∧
        target.recursionGroups = source.recursionGroups) →
      (ancestor.typeRecursionGroups = target.typeRecursionGroups ∧
        target.typeRecursionGroups = source.typeRecursionGroups) →
      ((∃ merged, mergeRootPayloads ancestor target source = .ok merged) ↔
        ∃ merged, mergeRootPayloads ancestor source target = .ok merged) ∧
      ∀ merged merged', mergeRootPayloads ancestor target source = .ok merged →
        mergeRootPayloads ancestor source target = .ok merged' →
        SameRoot (normalizeRoot merged) (normalizeRoot merged') := by
  intro symmetric
  have same := (symmetric .empty repeatedTypeRoot .empty ⟨rfl, rfl⟩ ⟨rfl, rfl⟩).2
    repeatedTypeRoot { repeatedTypeRoot with types := repeatedTypeRoot.types.take 1
                                             typeNames := repeatedTypeRoot.typeNames.reverse }
    (by decide) (by decide)
  have types := congrArg (·.types.length) same.rest
  exact absurd types (by decide)

/-- A root with another function. -/
def constantRoot : ProgramRootPayload :=
  { ProgramRootPayload.empty with
    symbols := [⟨"sha256:04", "sha256:14", "sha256:22"⟩]
    names := [⟨"main", "constant", "sha256:04", true⟩]
    paramNames := [⟨"sha256:04", []⟩]
    exports := [⟨"sha256:04", "constant"⟩] }

/-- Two branches that each created a function come to one root both ways. -/
theorem mergeRootPayloads_symmetric_functions :
    normalizeRoot { constantRoot with
        symbols := identityRoot.symbols ++ constantRoot.symbols
        names := identityRoot.names ++ constantRoot.names
        paramNames := identityRoot.paramNames ++ constantRoot.paramNames } =
      normalizeRoot { constantRoot with
        symbols := constantRoot.symbols ++ identityRoot.symbols
        names := constantRoot.names ++ identityRoot.names
        paramNames := constantRoot.paramNames ++ identityRoot.paramNames } := by
  refine ((@mergeRootPayloads_symmetric .empty identityRoot constantRoot ?_ ?_ ⟨rfl, rfl⟩
    ⟨rfl, rfl⟩).2 _ _ (by decide) (by decide)).2 fun _ => rfl
  · exact ⟨by constructor <;> decide, by decide, by decide, by decide⟩
  · exact ⟨by constructor <;> decide, by decide, by decide, by decide⟩

end CodeDb

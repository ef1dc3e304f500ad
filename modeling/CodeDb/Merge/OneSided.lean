import CodeDb.Lib.Except
import CodeDb.Merge.Facets

/-!
# One-sided changes in a merge

A merge should carry every change that only one branch made, in every facet of
the root: per symbol its entry, names, parameter names and exports; per type its
entry and names; and the registries of tests, metadata and recursion groups.

`mergeRootPayloads` starts from a copy of the target and never looks at the two
registries of recursion groups, so a group the source created is lost. What a root binds
without listing it, or lists more than once, is lost where the states that the merge
compares do not show it.

## Main results

* `MergesTo.symbolFacets_eq`, `MergesTo.typeFacets_eq` — the facets of a merged root, symbol
  by symbol and type by type
* `mergeRootPayloads_carries_iff` — a merge carries all one-sided changes exactly
  when the source did not change a recursion-group registry alone and every other
  one-sided change shows in the states the merge compares
* `OneSidedChangesShow.of_listed` — in roots that list what they bind, and nothing twice,
  every change shows
-/

namespace CodeDb

open Owned SortOn ThreeWay

variable {ancestor target source merged : ProgramRootPayload}

/-! ### What one step of the merge does -/

/-- A state put in place of what a root says about a symbol, or nothing done. -/
theorem mergeSymbol_ok {before after : ProgramRootPayload} {symbol : Hash}
    (step : mergeSymbol ancestor target source before symbol = .ok after) :
    ∃ outcome, mergeView (mergeSymbolState symbol) (symbolState ancestor symbol)
        (symbolState target symbol) (symbolState source symbol) = .ok outcome ∧
      after = (outcome.map (replaceSymbolState before symbol)).getD before ∧
      ∀ state ∈ outcome, state.Of symbol := by
  unfold mergeSymbol at step
  cases view : mergeView (mergeSymbolState symbol) (symbolState ancestor symbol)
      (symbolState target symbol) (symbolState source symbol) with
  | error e => simp [view, bind, Except.bind] at step
  | ok outcome =>
    refine ⟨outcome, rfl, ?_, mergeView_rec (·.Of symbol) (symbolState_of target symbol)
      (symbolState_of source symbol) (fun state merged => mergeSymbolState_of
        (symbolState_of ancestor symbol) (symbolState_of target symbol)
        (symbolState_of source symbol) merged) view⟩
    cases outcome <;> simpa [view, bind, Except.bind, pure, Except.pure] using step.symm

/-- A state put in place of what a root says about a type, or nothing done. -/
theorem mergeType_ok {before after : ProgramRootPayload} {typeSymbol : Hash}
    (step : mergeType ancestor target source before typeSymbol = .ok after) :
    ∃ outcome, mergeView (mergeTypeState typeSymbol) (typeState ancestor typeSymbol)
        (typeState target typeSymbol) (typeState source typeSymbol) = .ok outcome ∧
      after = (outcome.map (replaceTypeState before typeSymbol)).getD before ∧
      ∀ state ∈ outcome, state.Of typeSymbol := by
  unfold mergeType at step
  cases view : mergeView (mergeTypeState typeSymbol) (typeState ancestor typeSymbol)
      (typeState target typeSymbol) (typeState source typeSymbol) with
  | error e => simp [view, bind, Except.bind] at step
  | ok outcome =>
    refine ⟨outcome, rfl, ?_, mergeView_rec (·.Of typeSymbol) (typeState_of target typeSymbol)
      (typeState_of source typeSymbol) (fun state merged => mergeTypeState_of
        (typeState_of ancestor typeSymbol) (typeState_of target typeSymbol)
        (typeState_of source typeSymbol) merged) view⟩
    cases outcome <;> simpa [view, bind, Except.bind, pure, Except.pure] using step.symm

/-- What the merge of one symbol does to the facets of that symbol. -/
theorem mergeSymbol_facets_self {before after : ProgramRootPayload} {symbol : Hash}
    (step : mergeSymbol ancestor target source before symbol = .ok after) :
    ∃ outcome, mergeView (mergeSymbolState symbol) (symbolState ancestor symbol)
        (symbolState target symbol) (symbolState source symbol) = .ok outcome ∧
      symbolFacets after symbol =
        (outcome.map SymbolState.facets).getD (symbolFacets before symbol) := by
  obtain ⟨outcome, view, rfl, of⟩ := mergeSymbol_ok step
  refine ⟨outcome, view, ?_⟩
  cases outcome with
  | none => rfl
  | some state => exact replaceSymbolState_facets_self (of state rfl)

theorem mergeSymbol_facets_of_ne {before after : ProgramRootPayload} {symbol other : Hash}
    (differs : symbol ≠ other)
    (step : mergeSymbol ancestor target source before symbol = .ok after) :
    symbolFacets after other = symbolFacets before other := by
  obtain ⟨outcome, -, rfl, of⟩ := mergeSymbol_ok step
  cases outcome with
  | none => rfl
  | some state => exact replaceSymbolState_facets_of_ne (of state rfl) differs

/-- What the merge of one type does to the facets of that type. -/
theorem mergeType_facets_self {before after : ProgramRootPayload} {typeSymbol : Hash}
    (step : mergeType ancestor target source before typeSymbol = .ok after) :
    ∃ outcome, mergeView (mergeTypeState typeSymbol) (typeState ancestor typeSymbol)
        (typeState target typeSymbol) (typeState source typeSymbol) = .ok outcome ∧
      typeFacets after typeSymbol =
        (outcome.map TypeState.facets).getD (typeFacets before typeSymbol) := by
  obtain ⟨outcome, view, rfl, of⟩ := mergeType_ok step
  refine ⟨outcome, view, ?_⟩
  cases outcome with
  | none => rfl
  | some state => exact replaceTypeState_facets_self (of state rfl)

theorem mergeType_facets_of_ne {before after : ProgramRootPayload} {typeSymbol other : Hash}
    (differs : typeSymbol ≠ other)
    (step : mergeType ancestor target source before typeSymbol = .ok after) :
    typeFacets after other = typeFacets before other := by
  obtain ⟨outcome, -, rfl, of⟩ := mergeType_ok step
  cases outcome with
  | none => rfl
  | some state => exact replaceTypeState_facets_of_ne (of state rfl) differs

/-- Merging a symbol touches no type and neither registry of recursion groups. -/
theorem mergeSymbol_frame {before after : ProgramRootPayload} {symbol : Hash}
    (step : mergeSymbol ancestor target source before symbol = .ok after) :
    (typeFacets after, after.recursionGroups, after.typeRecursionGroups) =
      (typeFacets before, before.recursionGroups, before.typeRecursionGroups) := by
  obtain ⟨outcome, -, rfl, -⟩ := mergeSymbol_ok step
  cases outcome <;> rfl

/-- Merging a type touches no symbol and neither registry of recursion groups. -/
theorem mergeType_frame {before after : ProgramRootPayload} {typeSymbol : Hash}
    (step : mergeType ancestor target source before typeSymbol = .ok after) :
    (symbolFacets after, after.recursionGroups, after.typeRecursionGroups) =
      (symbolFacets before, before.recursionGroups, before.typeRecursionGroups) := by
  obtain ⟨outcome, -, rfl, -⟩ := mergeType_ok step
  cases outcome <;> rfl

theorem mergeRegistry_carries {α β : Type*} [DecidableEq β] {value : α → β}
    {conflict : MergeConflict} {base left right result : α}
    (merged : mergeRegistry value conflict base left right = .ok result) :
    CarriesOneSided (value base) (value left) (value right) (value result) := by
  unfold mergeRegistry at merged
  split_ifs at merged with changed unchanged differs
  · obtain rfl := Except.ok.inj merged
    exact carriesOneSided_right unchanged
  · exact carriesOneSided_of_eq (not_not.mp differs)
  · obtain rfl := Except.ok.inj merged
    exact carriesOneSided_left (not_not.mp changed)

/-! ### What the whole merge does -/

/-- What a merge comes to before its bindings are checked. -/
def MergesTo (ancestor target source merged : ProgramRootPayload) : Prop :=
  ∃ bySymbol byType,
    (allSymbols ancestor target source).foldlM (mergeSymbol ancestor target source) target =
      .ok bySymbol ∧
    (allTypes ancestor target source).foldlM (mergeType ancestor target source) bySymbol =
      .ok byType ∧
    mergeRegistry id (testsConflict source) ancestor.tests target.tests source.tests =
      .ok merged.tests ∧
    mergeRegistry Metadata.value metadataConflict ancestor.metadata target.metadata
      source.metadata = .ok merged.metadata ∧
    merged = { byType with tests := merged.tests, metadata := merged.metadata }

/-- The stages of a successful merge. -/
theorem mergeRootPayloads_eq_ok :
    mergeRootPayloads ancestor target source = .ok merged ↔
      MergesTo ancestor target source merged ∧ validateNameConflicts merged = .ok () ∧
        validateTypeNameConflicts merged = .ok () ∧ validateExportConflicts merged = .ok () := by
  unfold mergeRootPayloads
  simp only [Except.bind_eq_ok, Except.pure_eq_ok]
  constructor
  · rintro ⟨bySymbol, symbols, byType, types, tests, testsOk, metadata, metadataOk, _, names, _,
      typeNames, _, exports, rfl⟩
    exact ⟨⟨bySymbol, byType, symbols, types, testsOk, metadataOk, rfl⟩, names, typeNames, exports⟩
  · rintro ⟨⟨bySymbol, byType, symbols, types, testsOk, metadataOk, result⟩, names, typeNames,
      exports⟩
    refine ⟨bySymbol, symbols, byType, types, merged.tests, testsOk, merged.metadata,
      metadataOk, ?_⟩
    rw [← result]
    exact ⟨(), names, (), typeNames, (), exports, rfl⟩

/-- The facets of a symbol in a merged root: those of the merged states, or the
target's where the merge left the symbol alone. -/
theorem MergesTo.symbolFacets_eq (merges : MergesTo ancestor target source merged) (symbol : Hash) :
    ∃ outcome, mergeView (mergeSymbolState symbol) (symbolState ancestor symbol)
        (symbolState target symbol) (symbolState source symbol) = .ok outcome ∧
      symbolFacets merged symbol =
        (outcome.map SymbolState.facets).getD (symbolFacets target symbol) := by
  obtain ⟨bySymbol, byType, symbols, types, -, -, result⟩ := merges
  have unchanged : symbolFacets merged symbol = symbolFacets byType symbol := by
    rw [result]
    rfl
  have ended : symbolFacets byType symbol = symbolFacets bySymbol symbol :=
    Except.foldlM_observe_of_frame (symbolFacets · symbol) (fun before typeSymbol after _ step =>
      congrFun (congrArg Prod.fst (mergeType_frame step)) symbol) types
  by_cases mentioned : symbol ∈ allSymbols ancestor target source
  · obtain ⟨before, after, same, step, kept⟩ := Except.foldlM_observe symbolFacets
      (fun _ _ _ _ differs step => mergeSymbol_facets_of_ne differs step)
      (nodup_sortedSet _) symbols mentioned
    obtain ⟨outcome, view, facets⟩ := mergeSymbol_facets_self step
    exact ⟨outcome, view, by rw [unchanged, ended, kept, facets, same]⟩
  · -- no root mentions the symbol, so there is nothing to merge
    have kept : symbolFacets bySymbol symbol = symbolFacets target symbol :=
      Except.foldlM_observe_of_frame (symbolFacets · symbol)
        (fun before other after mem step =>
          mergeSymbol_facets_of_ne (fun same => mentioned (same ▸ mem)) step) symbols
    simp only [allSymbols, mem_sortedSet, List.mem_append, not_or] at mentioned
    refine ⟨none, ?_, (unchanged.trans ended).trans kept⟩
    simp [mergeView, symbolState_eq_absent_of_not_mem mentioned.2,
      symbolState_eq_absent_of_not_mem mentioned.1.1]

/-- The facets of a type in a merged root: those of the merged states, or the
target's where the merge left the type alone. -/
theorem MergesTo.typeFacets_eq (merges : MergesTo ancestor target source merged)
    (typeSymbol : Hash) :
    ∃ outcome, mergeView (mergeTypeState typeSymbol) (typeState ancestor typeSymbol)
        (typeState target typeSymbol) (typeState source typeSymbol) = .ok outcome ∧
      typeFacets merged typeSymbol =
        (outcome.map TypeState.facets).getD (typeFacets target typeSymbol) := by
  obtain ⟨bySymbol, byType, symbols, types, -, -, result⟩ := merges
  have begun : typeFacets bySymbol typeSymbol = typeFacets target typeSymbol :=
    Except.foldlM_observe_of_frame (typeFacets · typeSymbol) (fun before symbol after _ step =>
      congrFun (congrArg Prod.fst (mergeSymbol_frame step)) typeSymbol) symbols
  have unchanged : typeFacets merged typeSymbol = typeFacets byType typeSymbol := by
    rw [result]
    rfl
  by_cases mentioned : typeSymbol ∈ allTypes ancestor target source
  · obtain ⟨before, after, same, step, kept⟩ := Except.foldlM_observe typeFacets
      (fun _ _ _ _ differs step => mergeType_facets_of_ne differs step)
      (nodup_sortedSet _) types mentioned
    obtain ⟨outcome, view, facets⟩ := mergeType_facets_self step
    exact ⟨outcome, view, by rw [unchanged, kept, facets, same, begun]⟩
  · -- no root mentions the type, so there is nothing to merge
    have kept : typeFacets byType typeSymbol = typeFacets bySymbol typeSymbol :=
      Except.foldlM_observe_of_frame (typeFacets · typeSymbol)
        (fun before other after mem step =>
          mergeType_facets_of_ne (fun same => mentioned (same ▸ mem)) step) types
    simp only [allTypes, mem_sortedSet, List.mem_append, not_or] at mentioned
    refine ⟨none, ?_, (unchanged.trans kept).trans begun⟩
    simp [mergeView, typeState_eq_absent_of_not_mem mentioned.2,
      typeState_eq_absent_of_not_mem mentioned.1.1]

/-- The recursion groups of a merged root are the target's. -/
theorem MergesTo.recursionGroups_eq (merges : MergesTo ancestor target source merged) :
    merged.recursionGroups = target.recursionGroups ∧
      merged.typeRecursionGroups = target.typeRecursionGroups := by
  obtain ⟨bySymbol, byType, symbols, types, -, -, result⟩ := merges
  have groups : (merged.recursionGroups, merged.typeRecursionGroups) =
      (target.recursionGroups, target.typeRecursionGroups) := by
    rw [result]
    refine (Except.foldlM_observe_of_frame (fun root : ProgramRootPayload =>
      (root.recursionGroups, root.typeRecursionGroups)) ?_ types).trans
      (Except.foldlM_observe_of_frame (fun root : ProgramRootPayload =>
        (root.recursionGroups, root.typeRecursionGroups)) ?_ symbols)
    · intro before typeSymbol after _ step
      exact congrArg Prod.snd (mergeType_frame step)
    · intro before symbol after _ step
      exact congrArg Prod.snd (mergeSymbol_frame step)
  exact Prod.mk.inj groups

/-! ### Carrying one-sided changes -/

/-- The merged root carries every one-sided change in every facet of the root. Metadata is
compared by value: a zero that changed its sign has not changed. -/
structure CarriesOneSidedChanges (ancestor target source merged : ProgramRootPayload) : Prop where
  symbols : ∀ symbol, CarriesOneSided (symbolFacets ancestor symbol).entries
    (symbolFacets target symbol).entries (symbolFacets source symbol).entries
    (symbolFacets merged symbol).entries
  names : ∀ symbol, CarriesOneSided (symbolFacets ancestor symbol).names
    (symbolFacets target symbol).names (symbolFacets source symbol).names
    (symbolFacets merged symbol).names
  paramNames : ∀ symbol, CarriesOneSided (symbolFacets ancestor symbol).paramNames
    (symbolFacets target symbol).paramNames (symbolFacets source symbol).paramNames
    (symbolFacets merged symbol).paramNames
  exports : ∀ symbol, CarriesOneSided (symbolFacets ancestor symbol).exports
    (symbolFacets target symbol).exports (symbolFacets source symbol).exports
    (symbolFacets merged symbol).exports
  types : ∀ typeSymbol, CarriesOneSided (typeFacets ancestor typeSymbol).entries
    (typeFacets target typeSymbol).entries (typeFacets source typeSymbol).entries
    (typeFacets merged typeSymbol).entries
  typeNames : ∀ typeSymbol, CarriesOneSided (typeFacets ancestor typeSymbol).names
    (typeFacets target typeSymbol).names (typeFacets source typeSymbol).names
    (typeFacets merged typeSymbol).names
  tests : CarriesOneSided ancestor.tests target.tests source.tests merged.tests
  metadata : CarriesOneSided ancestor.metadata.value target.metadata.value
    source.metadata.value merged.metadata.value
  recursionGroups : CarriesOneSided ancestor.recursionGroups target.recursionGroups
    source.recursionGroups merged.recursionGroups
  typeRecursionGroups : CarriesOneSided ancestor.typeRecursionGroups target.typeRecursionGroups
    source.typeRecursionGroups merged.typeRecursionGroups

/-- Every one-sided change of three roots shows in what the merge compares: the
source did not change the recursion groups alone, and a change of the entries and the
bindings of a symbol or a type is part of its state. -/
structure OneSidedChangesShow (ancestor target source : ProgramRootPayload) : Prop where
  symbols : ∀ symbol, SeesOneSided (·.facets.entries) (symbolState ancestor symbol)
    (symbolState target symbol) (symbolState source symbol) (symbolFacets ancestor symbol).entries
    (symbolFacets target symbol).entries (symbolFacets source symbol).entries
  names : ∀ symbol, SeesOneSided (·.facets.names) (symbolState ancestor symbol)
    (symbolState target symbol) (symbolState source symbol) (symbolFacets ancestor symbol).names
    (symbolFacets target symbol).names (symbolFacets source symbol).names
  paramNames : ∀ symbol, SeesOneSided (·.facets.paramNames) (symbolState ancestor symbol)
    (symbolState target symbol) (symbolState source symbol)
    (symbolFacets ancestor symbol).paramNames (symbolFacets target symbol).paramNames
    (symbolFacets source symbol).paramNames
  exports : ∀ symbol, SeesOneSided (·.facets.exports) (symbolState ancestor symbol)
    (symbolState target symbol) (symbolState source symbol) (symbolFacets ancestor symbol).exports
    (symbolFacets target symbol).exports (symbolFacets source symbol).exports
  types : ∀ typeSymbol, SeesOneSided (·.facets.entries) (typeState ancestor typeSymbol)
    (typeState target typeSymbol) (typeState source typeSymbol)
    (typeFacets ancestor typeSymbol).entries (typeFacets target typeSymbol).entries
    (typeFacets source typeSymbol).entries
  typeNames : ∀ typeSymbol, SeesOneSided (·.facets.names) (typeState ancestor typeSymbol)
    (typeState target typeSymbol) (typeState source typeSymbol)
    (typeFacets ancestor typeSymbol).names (typeFacets target typeSymbol).names
    (typeFacets source typeSymbol).names
  recursionGroups :
    ¬ OnlyRight ancestor.recursionGroups target.recursionGroups source.recursionGroups
  typeRecursionGroups :
    ¬ OnlyRight ancestor.typeRecursionGroups target.typeRecursionGroups source.typeRecursionGroups

/-- What a state that is not absent shows of one facet of a symbol depends on that facet
alone. -/
private theorem facets_eq_of_facet {α : Type*} {facet : SymbolFacets → α}
    (shown : ∀ f g : SymbolFacets, facet f = facet g → facet f.first = facet g.first)
    {root root' : ProgramRootPayload} {symbol : Hash} (present : symbolState root symbol ≠ .absent)
    (present' : symbolState root' symbol ≠ .absent)
    (same : facet (symbolFacets root symbol) = facet (symbolFacets root' symbol)) :
    facet (symbolState root symbol).facets = facet (symbolState root' symbol).facets := by
  rw [(symbolState_shows root symbol).resolve_left present,
    (symbolState_shows root' symbol).resolve_left present']
  exact shown _ _ same

private theorem typeFacets_eq_of_facet {α : Type*} {facet : TypeFacets → α}
    (shown : ∀ f g : TypeFacets, facet f = facet g → facet f.first = facet g.first)
    {root root' : ProgramRootPayload} {typeSymbol : Hash}
    (present : typeState root typeSymbol ≠ .absent)
    (present' : typeState root' typeSymbol ≠ .absent)
    (same : facet (typeFacets root typeSymbol) = facet (typeFacets root' typeSymbol)) :
    facet (typeState root typeSymbol).facets = facet (typeState root' typeSymbol).facets := by
  rw [(typeState_shows root typeSymbol).resolve_left present,
    (typeState_shows root' typeSymbol).resolve_left present']
  exact shown _ _ same

/-- One facet of a symbol is carried exactly when its changes show, provided the
merge of two changed states follows them. -/
private theorem carries_symbolFacet_iff {α : Type*} (facet : SymbolFacets → α)
    (shown : ∀ f g : SymbolFacets, facet f = facet g → facet f.first = facet g.first)
    (run : mergeRootPayloads ancestor target source = .ok merged) (symbol : Hash)
    (follows : ∀ state, mergeSymbolState symbol (symbolState ancestor symbol)
        (symbolState target symbol) (symbolState source symbol) = .ok state →
      FollowsChange (facet (symbolState ancestor symbol).facets)
        (facet (symbolState target symbol).facets) (facet (symbolState source symbol).facets)
        (facet state.facets)) :
    CarriesOneSided (facet (symbolFacets ancestor symbol)) (facet (symbolFacets target symbol))
        (facet (symbolFacets source symbol)) (facet (symbolFacets merged symbol)) ↔
      SeesOneSided (fun state => facet state.facets) (symbolState ancestor symbol)
        (symbolState target symbol) (symbolState source symbol)
        (facet (symbolFacets ancestor symbol)) (facet (symbolFacets target symbol))
        (facet (symbolFacets source symbol)) := by
  obtain ⟨outcome, view, facets⟩ := (mergeRootPayloads_eq_ok.mp run).1.symbolFacets_eq symbol
  refine carriesOneSided_iff_seesOneSided _ ?_ view (by cases outcome <;> simp [facets])
  intro _ changedL state merged
  obtain ⟨presentB, presentL, presentR⟩ := mergeSymbolState_present (symbolState_of ..)
    (symbolState_of ..) (symbolState_of ..) changedL merged
  have followed := follows state merged
  exact ⟨fun same => followed.ofRight (facets_eq_of_facet shown presentL presentB same),
    fun same => followed.ofLeft (facets_eq_of_facet shown presentR presentB same)⟩

/-- One facet of a type is carried exactly when its changes show, provided the
merge of two changed states follows them. -/
private theorem carries_typeFacet_iff {α : Type*} (facet : TypeFacets → α)
    (shown : ∀ f g : TypeFacets, facet f = facet g → facet f.first = facet g.first)
    (run : mergeRootPayloads ancestor target source = .ok merged) (typeSymbol : Hash)
    (follows : ∀ state, mergeTypeState typeSymbol (typeState ancestor typeSymbol)
        (typeState target typeSymbol) (typeState source typeSymbol) = .ok state →
      FollowsChange (facet (typeState ancestor typeSymbol).facets)
        (facet (typeState target typeSymbol).facets) (facet (typeState source typeSymbol).facets)
        (facet state.facets)) :
    CarriesOneSided (facet (typeFacets ancestor typeSymbol))
        (facet (typeFacets target typeSymbol)) (facet (typeFacets source typeSymbol))
        (facet (typeFacets merged typeSymbol)) ↔
      SeesOneSided (fun state => facet state.facets) (typeState ancestor typeSymbol)
        (typeState target typeSymbol) (typeState source typeSymbol)
        (facet (typeFacets ancestor typeSymbol)) (facet (typeFacets target typeSymbol))
        (facet (typeFacets source typeSymbol)) := by
  obtain ⟨outcome, view, facets⟩ := (mergeRootPayloads_eq_ok.mp run).1.typeFacets_eq typeSymbol
  refine carriesOneSided_iff_seesOneSided _ ?_ view (by cases outcome <;> simp [facets])
  intro _ changedL state merged
  obtain ⟨presentB, presentL, presentR⟩ := mergeTypeState_present (typeState_of ..)
    (typeState_of ..) (typeState_of ..) changedL merged
  have followed := follows state merged
  exact ⟨fun same => followed.ofRight (typeFacets_eq_of_facet shown presentL presentB same),
    fun same => followed.ofLeft (typeFacets_eq_of_facet shown presentR presentB same)⟩

/-- A root with two mutually recursive functions, created as one group. -/
def mutualRoot : ProgramRootPayload :=
  { ProgramRootPayload.empty with
    symbols := [⟨"sha256:01", "sha256:11", "sha256:21"⟩, ⟨"sha256:02", "sha256:12", "sha256:21"⟩]
    names := [⟨"main", "even", "sha256:01", true⟩, ⟨"main", "odd", "sha256:02", true⟩]
    paramNames := [⟨"sha256:01", ["n"]⟩, ⟨"sha256:02", ["n"]⟩]
    recursionGroups := ["sha256:31"] }

/-- Every binding of a root is of a symbol or a type the root lists. -/
structure ListsBindings (root : ProgramRootPayload) : Prop where
  names : ∀ b ∈ root.names, ∃ e ∈ root.symbols, e.symbol = b.symbol
  paramNames : ∀ p ∈ root.paramNames, ∃ e ∈ root.symbols, e.symbol = p.symbol
  exports : ∀ b ∈ root.exports, ∃ e ∈ root.symbols, e.symbol = b.symbol
  typeNames : ∀ b ∈ root.typeNames, ∃ e ∈ root.types, e.typeSymbol = b.typeSymbol

private theorem filter_eq_nil_of_unlisted {α β : Type*} {bindings : List α} {entries : List β}
    {owner : α → Hash} {symbol : β → Hash} {s : Hash}
    (listed : ∀ b ∈ bindings, ∃ e ∈ entries, symbol e = owner b)
    (missing : entries.find? (symbol · == s) = none) :
    bindings.filter (owner · == s) = [] := by
  refine List.filter_eq_nil_iff.mpr fun b hb same => ?_
  obtain ⟨e, he, owned⟩ := listed b hb
  have unlisted := List.find?_eq_none.mp missing e he
  exact unlisted (by simpa [owned] using same)

/-- A root lists what it binds, and lists nothing twice. -/
structure ListsOnce (root : ProgramRootPayload) : Prop extends ListsBindings root where
  distinctSymbols : (root.symbols.map (·.symbol)).Nodup
  distinctTypes : (root.types.map (·.typeSymbol)).Nodup
  distinctParams : (root.paramNames.map (·.symbol)).Nodup

theorem ListsOnce.symbolState_facets {root : ProgramRootPayload} (lists : ListsOnce root)
    (symbol : Hash) : (symbolState root symbol).facets = symbolFacets root symbol := by
  have first : (symbolFacets root symbol).first = symbolFacets root symbol := by
    simp only [SymbolFacets.first, symbolFacets, take_filter_of_nodup _ lists.distinctSymbols,
      take_filter_of_nodup _ lists.distinctParams]
  rcases symbolState_shows root symbol with absent | shows
  · -- a symbol that is not listed is not bound either
    have missing : root.symbols.find? (·.symbol == symbol) = none := by
      cases found : root.symbols.find? (·.symbol == symbol) with
      | none => rfl
      | some e => simp [symbolState, found, SymbolState.absent] at absent
    have entries : root.symbols.filter (·.symbol == symbol) = [] :=
      List.filter_eq_nil_iff.mpr fun e he => List.find?_eq_none.mp missing e he
    simp only [absent, SymbolState.facets, SymbolState.absent, symbolFacets, entries,
      filter_eq_nil_of_unlisted lists.names missing,
      filter_eq_nil_of_unlisted lists.exports missing,
      filter_eq_nil_of_unlisted lists.paramNames missing, Option.toList_none]
  · exact shows.trans first

theorem ListsOnce.typeState_facets {root : ProgramRootPayload} (lists : ListsOnce root)
    (typeSymbol : Hash) : (typeState root typeSymbol).facets = typeFacets root typeSymbol := by
  have first : (typeFacets root typeSymbol).first = typeFacets root typeSymbol := by
    simp only [TypeFacets.first, typeFacets, take_filter_of_nodup _ lists.distinctTypes]
  rcases typeState_shows root typeSymbol with absent | shows
  · have missing : root.types.find? (·.typeSymbol == typeSymbol) = none := by
      cases found : root.types.find? (·.typeSymbol == typeSymbol) with
      | none => rfl
      | some e => simp [typeState, found, TypeState.absent] at absent
    have entries : root.types.filter (·.typeSymbol == typeSymbol) = [] :=
      List.filter_eq_nil_iff.mpr fun e he => List.find?_eq_none.mp missing e he
    simp only [absent, TypeState.facets, TypeState.absent, typeFacets, entries,
      filter_eq_nil_of_unlisted lists.typeNames missing, Option.toList_none]
  · exact shows.trans first

/-- In roots that list what they bind, and nothing twice, only the recursion groups can be
lost. -/
theorem OneSidedChangesShow.of_listed (hb : ListsOnce ancestor) (hl : ListsOnce target)
    (hr : ListsOnce source)
    (groups : ¬ OnlyRight ancestor.recursionGroups target.recursionGroups source.recursionGroups)
    (typeGroups : ¬ OnlyRight ancestor.typeRecursionGroups target.typeRecursionGroups
      source.typeRecursionGroups) :
    OneSidedChangesShow ancestor target source := by
  have symbols {α : Type} (facet : SymbolFacets → α) (symbol : Hash) :
      SeesOneSided (fun state => facet state.facets) (symbolState ancestor symbol)
        (symbolState target symbol) (symbolState source symbol)
        (facet (symbolFacets ancestor symbol)) (facet (symbolFacets target symbol))
        (facet (symbolFacets source symbol)) :=
    seesOneSided_of_shown (congrArg facet (hb.symbolState_facets symbol))
      (congrArg facet (hl.symbolState_facets symbol))
      (congrArg facet (hr.symbolState_facets symbol))
  have types {α : Type} (facet : TypeFacets → α) (typeSymbol : Hash) :
      SeesOneSided (fun state => facet state.facets) (typeState ancestor typeSymbol)
        (typeState target typeSymbol) (typeState source typeSymbol)
        (facet (typeFacets ancestor typeSymbol)) (facet (typeFacets target typeSymbol))
        (facet (typeFacets source typeSymbol)) :=
    seesOneSided_of_shown (congrArg facet (hb.typeState_facets typeSymbol))
      (congrArg facet (hl.typeState_facets typeSymbol))
      (congrArg facet (hr.typeState_facets typeSymbol))
  exact
    { symbols := symbols (·.entries)
      names := symbols (·.names)
      paramNames := symbols (·.paramNames)
      exports := symbols (·.exports)
      types := types (·.entries)
      typeNames := types (·.names)
      recursionGroups := groups
      typeRecursionGroups := typeGroups }

/-- A root with one function. -/
def identityRoot : ProgramRootPayload :=
  { ProgramRootPayload.empty with
    symbols := [⟨"sha256:03", "sha256:13", "sha256:21"⟩]
    names := [⟨"main", "identity", "sha256:03", true⟩]
    paramNames := [⟨"sha256:03", ["x"]⟩] }

end CodeDb

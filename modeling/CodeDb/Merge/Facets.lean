import CodeDb.Merge.MergeRoot

/-!
# Facets of a root

What a root says about one symbol or one type, read off its lists directly, and
what the states the merge compares show of it. A state shows nothing of a symbol
the root does not list, even where other lists still bind it, and of a symbol that is
listed more than once it shows the first entry.

## Main definitions

* `symbolFacets`, `typeFacets` — the facets of a symbol or a type in a root
* `SymbolFacets.first`, `TypeFacets.first` — what a state can show of them
* `SymbolState.Of`, `TypeState.Of` — the states that can stand for a symbol or a type

## Main results

* `symbolState_shows`, `typeState_shows` — a state shows that much of the facets, or nothing
* `mergeSymbolState_follows`, `mergeTypeState_follows` — merging two changed states follows
  the side that changed, facet by facet
-/

namespace CodeDb

open Owned SortOn ThreeWay

variable {root : ProgramRootPayload}

/-! ### Facets -/

/-- What the lists of a root say about one symbol. -/
structure SymbolFacets where
  entries : List RootSymbolPayload
  names : Multiset NameBinding
  paramNames : List ParamNames
  exports : Multiset ExportBinding

/-- The facets of a symbol in a root. -/
def symbolFacets (root : ProgramRootPayload) (symbol : Hash) : SymbolFacets where
  entries := root.symbols.filter (·.symbol == symbol)
  names := root.names.filter (·.symbol == symbol)
  paramNames := root.paramNames.filter (·.symbol == symbol)
  exports := root.exports.filter (·.symbol == symbol)

/-- What a state can show of facets: the first entry and the first parameter names. -/
def SymbolFacets.first (facets : SymbolFacets) : SymbolFacets :=
  { facets with entries := facets.entries.take 1, paramNames := facets.paramNames.take 1 }

/-- The facets a state shows. -/
def SymbolState.facets (state : SymbolState) : SymbolFacets where
  entries := state.entry.toList
  names := state.names
  paramNames := state.paramNames.toList
  exports := state.exports

/-- What the lists of a root say about one type. -/
structure TypeFacets where
  entries : List RootTypePayload
  names : Multiset TypeNameBinding

/-- The facets of a type in a root. -/
def typeFacets (root : ProgramRootPayload) (typeSymbol : Hash) : TypeFacets where
  entries := root.types.filter (·.typeSymbol == typeSymbol)
  names := root.typeNames.filter (·.typeSymbol == typeSymbol)

/-- What a state can show of facets: the first entry. -/
def TypeFacets.first (facets : TypeFacets) : TypeFacets :=
  { facets with entries := facets.entries.take 1 }

/-- The facets a state shows. -/
def TypeState.facets (state : TypeState) : TypeFacets where
  entries := state.entry.toList
  names := state.names

/-- The first element of an owner, as a list. -/
private theorem toList_find?_eq {α : Type*} (l : List α) (p : α → Bool) :
    (l.find? p).toList = (l.filter p).take 1 := by
  rw [← List.head?_filter]
  cases l.filter p <;> rfl

private theorem toList_injective {α : Type*} {o o' : Option α} (same : o.toList = o'.toList) :
    o = o' := by
  cases o <;> cases o' <;> simp_all

/-- Between values present in all three places or in none, the preferred one is
missing only where all are. -/
private theorem preferRight_eq_none {α : Type*} [DecidableEq α] {base left right : Option α}
    (presentL : left.isSome = base.isSome) (presentR : right.isSome = base.isSome)
    (missing : preferRight base left right = none) :
    base = none ∧ left = none ∧ right = none := by
  cases base with
  | none => exact ⟨rfl, by simpa using presentL, by simpa using presentR⟩
  | some b =>
    unfold preferRight at missing
    split_ifs at missing <;> simp_all

/-! ### States of a symbol -/

/-- A state that can stand for a symbol: everything in it is about the symbol,
its lists are in order, and without an entry there is nothing else. -/
structure SymbolState.Of (symbol : Hash) (state : SymbolState) : Prop where
  entry : ∀ e ∈ state.entry, e.symbol = symbol
  names : ∀ b ∈ state.names, b.symbol = symbol
  paramNames : ∀ p ∈ state.paramNames, p.symbol = symbol
  exports : ∀ b ∈ state.exports, b.symbol = symbol
  sortedNames : sortOn (·.stateKey) state.names = state.names
  sortedExports : sortOn (·.exportedName) state.exports = state.exports
  absent : state.entry = none → state = .absent

theorem SymbolState.of_absent (symbol : Hash) : SymbolState.absent.Of symbol := by
  constructor <;> simp [SymbolState.absent]

theorem symbolState_of (root : ProgramRootPayload) (symbol : Hash) :
    (symbolState root symbol).Of symbol := by
  unfold symbolState
  cases found : root.symbols.find? (·.symbol == symbol) with
  | none => exact SymbolState.of_absent symbol
  | some e =>
    have about : e.symbol = symbol := by simpa using List.find?_some found
    constructor
    · simp [about]
    · simp
    · intro p hp
      simpa using List.find?_some (Option.mem_def.mp hp)
    · simp
    · simp
    · simp
    · simp

/-- Within one symbol, sorted names are a canonical form. -/
theorem SymbolState.Of.names_eq {symbol : Hash} {s t : SymbolState} (hs : s.Of symbol)
    (ht : t.Of symbol) (h : (s.names : Multiset NameBinding) = t.names) : s.names = t.names := by
  rw [← hs.sortedNames, ← ht.sortedNames]
  refine sortOn_eq_of_perm _ ?_ (Multiset.coe_eq_coe.mp h)
  rintro ⟨m, d, σ, p⟩ ha ⟨m', d', σ', p'⟩ hb hkey
  obtain rfl : σ = symbol := hs.names _ ha
  obtain rfl : σ' = σ := hs.names _ hb
  simpa [NameBinding.stateKey] using hkey

/-- Within one symbol, sorted exports are a canonical form. -/
theorem SymbolState.Of.exports_eq {symbol : Hash} {s t : SymbolState} (hs : s.Of symbol)
    (ht : t.Of symbol) (h : (s.exports : Multiset ExportBinding) = t.exports) :
    s.exports = t.exports := by
  rw [← hs.sortedExports, ← ht.sortedExports]
  refine sortOn_eq_of_perm _ ?_ (Multiset.coe_eq_coe.mp h)
  rintro ⟨σ, n⟩ ha ⟨σ', n'⟩ hb hkey
  obtain rfl : σ = symbol := hs.exports _ ha
  obtain rfl : σ' = σ := hs.exports _ hb
  simpa using hkey

/-- A state shows of the facets of the root what it can, or nothing. -/
theorem symbolState_shows (root : ProgramRootPayload) (symbol : Hash) :
    symbolState root symbol = .absent ∨
      (symbolState root symbol).facets = (symbolFacets root symbol).first := by
  unfold symbolState
  cases found : root.symbols.find? (·.symbol == symbol) with
  | none => exact Or.inl rfl
  | some e =>
    refine Or.inr ?_
    have entries := toList_find?_eq root.symbols (·.symbol == symbol)
    rw [found] at entries
    simp [SymbolState.facets, symbolFacets, SymbolFacets.first, entries, toList_find?_eq,
      sortOn_perm]

theorem symbolState_eq_absent_of_not_mem {symbol : Hash} (h : symbol ∉ rootSymbols root) :
    symbolState root symbol = .absent := by
  unfold symbolState
  have missing : root.symbols.find? (·.symbol == symbol) = none := by
    refine List.find?_eq_none.mpr fun e he same => h ?_
    have : e.symbol = symbol := by simpa using same
    simp only [rootSymbols, List.mem_append, List.mem_map]
    exact Or.inl (Or.inl (Or.inl ⟨e, he, this⟩))
  rw [missing]

theorem SymbolState.Of.ite_entry {symbol : Hash} {state : SymbolState} (of : state.Of symbol) :
    (if state.entry.isSome then state else .absent) = state := by
  cases entry : state.entry with
  | none => simp [of.absent entry]
  | some e => simp

theorem replaceSymbolState_facets_self {symbol : Hash} {state : SymbolState}
    (of : state.Of symbol) :
    symbolFacets (replaceSymbolState root symbol state) symbol = state.facets := by
  have entries := filter_replaceOwned_self (l := root.symbols) RootSymbolPayload.symbol
    fun e he => of.entry e (Option.mem_toList.mp he)
  have params := filter_replaceOwned_self (l := root.paramNames) ParamNames.symbol
    fun p hp => of.paramNames p (Option.mem_toList.mp hp)
  simp only [replaceSymbolState, of.ite_entry, symbolFacets, SymbolState.facets, entries, params,
    filter_replaceOwned_self NameBinding.symbol of.names,
    filter_replaceOwned_self ExportBinding.symbol of.exports]

theorem replaceSymbolState_facets_of_ne {symbol other : Hash} {state : SymbolState}
    (of : state.Of symbol) (differs : symbol ≠ other) :
    symbolFacets (replaceSymbolState root symbol state) other = symbolFacets root other := by
  have entries := filter_replaceOwned_of_ne (l := root.symbols) RootSymbolPayload.symbol
    (fun e he => of.entry e (Option.mem_toList.mp he)) differs
  have params := filter_replaceOwned_of_ne (l := root.paramNames) ParamNames.symbol
    (fun p hp => of.paramNames p (Option.mem_toList.mp hp)) differs
  simp only [replaceSymbolState, of.ite_entry, symbolFacets, entries, params,
    filter_replaceOwned_of_ne NameBinding.symbol of.names differs,
    filter_replaceOwned_of_ne ExportBinding.symbol of.exports differs]

theorem SymbolState.ne_absent {state : SymbolState} (h : state.entry.isSome) :
    state ≠ .absent := by
  rintro rfl
  simp [SymbolState.absent] at h

/-- A state which differs from another of the same presence has an entry. -/
theorem SymbolState.Of.isSome_of_ne {symbol : Hash} {s t : SymbolState} (hs : s.Of symbol)
    (ht : t.Of symbol) (presence : s.entry.isSome = t.entry.isSome) (differs : s ≠ t) :
    t.entry.isSome := by
  by_contra missing
  have noT : t.entry = none := Option.not_isSome_iff_eq_none.mp missing
  have noS : s.entry = none := Option.not_isSome_iff_eq_none.mp (presence ▸ missing)
  exact differs ((hs.absent noS).trans (ht.absent noT).symm)

/-- What a successful merge of two changed states went through: the presence of
the symbol did not change, and every facet was merged on its own. -/
theorem mergeSymbolState_ok {symbol : Hash} {base left right state : SymbolState}
    (hl : left.Of symbol) (hr : right.Of symbol)
    (merged : mergeSymbolState symbol base left right = .ok state) :
    (left.entry.isSome = base.entry.isSome ∧ right.entry.isSome = base.entry.isSome) ∧
    (state = left ∧ left = right ∨
      state = ⟨preferRight base.entry left.entry right.entry,
        preferRight base.names left.names right.names,
        preferRight base.paramNames left.paramNames right.paramNames,
        preferRight base.exports left.exports right.exports⟩) := by
  unfold mergeSymbolState at merged
  split_ifs at merged with presence signature alike definition names params exports
  · -- the signatures changed alike, and with them everything else
    obtain ⟨sameSignature, sameNames, sameParams, sameExports, sameDefinition⟩ := alike
    refine ⟨by tauto, Or.inl ⟨by simpa using merged.symm, ?_⟩⟩
    have sameEntry : left.entry = right.entry := by
      cases hle : left.entry with
      | none => cases hre : right.entry <;> simp_all [signatureOf]
      | some e =>
        cases hre : right.entry with
        | none => simp [signatureOf, hle, hre] at sameSignature
        | some e' =>
          have owner := (hl.entry e (by simp [hle])).trans (hr.entry e' (by simp [hre])).symm
          obtain ⟨_, _, _⟩ := e
          obtain ⟨_, _, _⟩ := e'
          simp_all [signatureOf, definitionOf]
    cases left; cases right
    simp_all
  · exact ⟨by tauto, Or.inr (by simpa using merged.symm)⟩

/-- Changed states merge only where the symbol is present in all three roots. -/
theorem mergeSymbolState_present {symbol : Hash} {base left right state : SymbolState}
    (hb : base.Of symbol) (hl : left.Of symbol) (hr : right.Of symbol) (changed : left ≠ base)
    (merged : mergeSymbolState symbol base left right = .ok state) :
    base ≠ .absent ∧ left ≠ .absent ∧ right ≠ .absent := by
  obtain ⟨⟨presentL, presentR⟩, -⟩ := mergeSymbolState_ok hl hr merged
  have present : base.entry.isSome := hl.isSome_of_ne hb presentL changed
  exact ⟨SymbolState.ne_absent present, SymbolState.ne_absent (presentL ▸ present),
    SymbolState.ne_absent (presentR ▸ present)⟩

theorem mergeSymbolState_of {symbol : Hash} {base left right state : SymbolState}
    (hb : base.Of symbol) (hl : left.Of symbol) (hr : right.Of symbol)
    (merged : mergeSymbolState symbol base left right = .ok state) : state.Of symbol := by
  obtain ⟨⟨presentL, presentR⟩, ⟨rfl, -⟩ | rfl⟩ := mergeSymbolState_ok hl hr merged
  · exact hl
  · refine
      { entry := preferRight_rec (fun o => ∀ e : RootSymbolPayload, e ∈ o → e.symbol = symbol)
          hl.entry hr.entry
        names := preferRight_rec (fun l => ∀ b : NameBinding, b ∈ l → b.symbol = symbol)
          hl.names hr.names
        paramNames := preferRight_rec (fun o => ∀ p : ParamNames, p ∈ o → p.symbol = symbol)
          hl.paramNames hr.paramNames
        exports := preferRight_rec (fun l => ∀ b : ExportBinding, b ∈ l → b.symbol = symbol)
          hl.exports hr.exports
        sortedNames := preferRight_rec (fun l => sortOn NameBinding.stateKey l = l)
          hl.sortedNames hr.sortedNames
        sortedExports := preferRight_rec (fun l => sortOn ExportBinding.exportedName l = l)
          hl.sortedExports hr.sortedExports
        absent := ?_ }
    intro noEntry
    -- without an entry both sides, and the base, are absent
    obtain ⟨noB, noL, noR⟩ := preferRight_eq_none presentL presentR noEntry
    rw [hl.absent noL, hr.absent noR, hb.absent noB]
    rfl

/-- Merging two changed states follows the side that changed, in every facet. -/
theorem mergeSymbolState_follows {symbol : Hash} {base left right state : SymbolState}
    (hb : base.Of symbol) (hl : left.Of symbol) (hr : right.Of symbol)
    (merged : mergeSymbolState symbol base left right = .ok state) :
    FollowsChange base.facets.entries left.facets.entries right.facets.entries
      state.facets.entries ∧
    FollowsChange base.facets.names left.facets.names right.facets.names state.facets.names ∧
    FollowsChange base.facets.paramNames left.facets.paramNames right.facets.paramNames
      state.facets.paramNames ∧
    FollowsChange base.facets.exports left.facets.exports right.facets.exports
      state.facets.exports := by
  obtain ⟨-, ⟨rfl, rfl⟩ | rfl⟩ := mergeSymbolState_ok hl hr merged
  · exact ⟨followsChange_self, followsChange_self, followsChange_self, followsChange_self⟩
  · refine ⟨followsChange_preferRight.map (f := Option.toList) ?_ ?_,
      followsChange_preferRight.map (f := Multiset.ofList) ?_ ?_,
      followsChange_preferRight.map (f := Option.toList) ?_ ?_,
      followsChange_preferRight.map (f := Multiset.ofList) ?_ ?_⟩
    · exact fun same => toList_injective same
    · exact fun same => toList_injective same
    · exact fun same => hl.names_eq hb same
    · exact fun same => hr.names_eq hb same
    · exact fun same => toList_injective same
    · exact fun same => toList_injective same
    · exact fun same => hl.exports_eq hb same
    · exact fun same => hr.exports_eq hb same

/-! ### States of a type -/

/-- A state that can stand for a type: everything in it is about the type, its
names are in order, and without an entry there is nothing else. -/
structure TypeState.Of (typeSymbol : Hash) (state : TypeState) : Prop where
  entry : ∀ e ∈ state.entry, e.typeSymbol = typeSymbol
  names : ∀ b ∈ state.names, b.typeSymbol = typeSymbol
  sortedNames : sortOn (·.stateKey) state.names = state.names
  absent : state.entry = none → state = .absent

theorem TypeState.of_absent (typeSymbol : Hash) : TypeState.absent.Of typeSymbol := by
  constructor <;> simp [TypeState.absent]

theorem typeState_of (root : ProgramRootPayload) (typeSymbol : Hash) :
    (typeState root typeSymbol).Of typeSymbol := by
  unfold typeState
  cases found : root.types.find? (·.typeSymbol == typeSymbol) with
  | none => exact TypeState.of_absent typeSymbol
  | some e =>
    have about : e.typeSymbol = typeSymbol := by simpa using List.find?_some found
    constructor
    · simp [about]
    · simp
    · simp
    · simp

/-- Within one type, sorted names are a canonical form. -/
theorem TypeState.Of.names_eq {typeSymbol : Hash} {s t : TypeState} (hs : s.Of typeSymbol)
    (ht : t.Of typeSymbol) (h : (s.names : Multiset TypeNameBinding) = t.names) :
    s.names = t.names := by
  rw [← hs.sortedNames, ← ht.sortedNames]
  refine sortOn_eq_of_perm _ ?_ (Multiset.coe_eq_coe.mp h)
  rintro ⟨m, d, σ, p⟩ ha ⟨m', d', σ', p'⟩ hb hkey
  obtain rfl : σ = typeSymbol := hs.names _ ha
  obtain rfl : σ' = σ := hs.names _ hb
  simpa [TypeNameBinding.stateKey] using hkey

/-- A state shows of the facets of the root what it can, or nothing. -/
theorem typeState_shows (root : ProgramRootPayload) (typeSymbol : Hash) :
    typeState root typeSymbol = .absent ∨
      (typeState root typeSymbol).facets = (typeFacets root typeSymbol).first := by
  unfold typeState
  cases found : root.types.find? (·.typeSymbol == typeSymbol) with
  | none => exact Or.inl rfl
  | some e =>
    refine Or.inr ?_
    have entries := toList_find?_eq root.types (·.typeSymbol == typeSymbol)
    rw [found] at entries
    simp [TypeState.facets, typeFacets, TypeFacets.first, entries, sortOn_perm]

theorem typeState_eq_absent_of_not_mem {typeSymbol : Hash}
    (h : typeSymbol ∉ rootTypeSymbols root) : typeState root typeSymbol = .absent := by
  unfold typeState
  have missing : root.types.find? (·.typeSymbol == typeSymbol) = none := by
    refine List.find?_eq_none.mpr fun e he same => h ?_
    have : e.typeSymbol = typeSymbol := by simpa using same
    simp only [rootTypeSymbols, List.mem_append, List.mem_map]
    exact Or.inl ⟨e, he, this⟩
  rw [missing]

theorem TypeState.Of.ite_entry {typeSymbol : Hash} {state : TypeState}
    (of : state.Of typeSymbol) : (if state.entry.isSome then state else .absent) = state := by
  cases entry : state.entry with
  | none => simp [of.absent entry]
  | some e => simp

theorem replaceTypeState_facets_self {typeSymbol : Hash} {state : TypeState}
    (of : state.Of typeSymbol) :
    typeFacets (replaceTypeState root typeSymbol state) typeSymbol = state.facets := by
  have entries := filter_replaceOwned_self (l := root.types) RootTypePayload.typeSymbol
    fun e he => of.entry e (Option.mem_toList.mp he)
  simp only [replaceTypeState, of.ite_entry, typeFacets, TypeState.facets, entries,
    filter_replaceOwned_self TypeNameBinding.typeSymbol of.names]

theorem replaceTypeState_facets_of_ne {typeSymbol other : Hash} {state : TypeState}
    (of : state.Of typeSymbol) (differs : typeSymbol ≠ other) :
    typeFacets (replaceTypeState root typeSymbol state) other = typeFacets root other := by
  have entries := filter_replaceOwned_of_ne (l := root.types) RootTypePayload.typeSymbol
    (fun e he => of.entry e (Option.mem_toList.mp he)) differs
  simp only [replaceTypeState, of.ite_entry, typeFacets, entries,
    filter_replaceOwned_of_ne TypeNameBinding.typeSymbol of.names differs]

theorem TypeState.ne_absent {state : TypeState} (h : state.entry.isSome) :
    state ≠ .absent := by
  rintro rfl
  simp [TypeState.absent] at h

/-- A state which differs from another of the same presence has an entry. -/
theorem TypeState.Of.isSome_of_ne {typeSymbol : Hash} {s t : TypeState} (hs : s.Of typeSymbol)
    (ht : t.Of typeSymbol) (presence : s.entry.isSome = t.entry.isSome) (differs : s ≠ t) :
    t.entry.isSome := by
  by_contra missing
  have noT : t.entry = none := Option.not_isSome_iff_eq_none.mp missing
  have noS : s.entry = none := Option.not_isSome_iff_eq_none.mp (presence ▸ missing)
  exact differs ((hs.absent noS).trans (ht.absent noT).symm)

/-- Between two states of one type with an entry in both or neither, the
definitions tell the entries apart. -/
theorem TypeState.Of.entry_eq {typeSymbol : Hash} {s t : TypeState} (hs : s.Of typeSymbol)
    (ht : t.Of typeSymbol) (h : typeDefOf s = typeDefOf t) : s.entry = t.entry := by
  cases hse : s.entry with
  | none => cases hte : t.entry <;> simp_all [typeDefOf]
  | some e =>
    cases hte : t.entry with
    | none => simp [typeDefOf, hse, hte] at h
    | some e' =>
      have owner := (hs.entry e (by simp [hse])).trans (ht.entry e' (by simp [hte])).symm
      obtain ⟨_, _⟩ := e
      obtain ⟨_, _⟩ := e'
      simp_all [typeDefOf]

/-- What a successful merge of two changed states went through. -/
theorem mergeTypeState_ok {typeSymbol : Hash} {base left right state : TypeState}
    (hb : base.Of typeSymbol) (hr : right.Of typeSymbol)
    (merged : mergeTypeState typeSymbol base left right = .ok state) :
    (left.entry.isSome = base.entry.isSome ∧ right.entry.isSome = base.entry.isSome) ∧
    state = ⟨preferRight base.entry left.entry right.entry,
      preferRight base.names left.names right.names⟩ := by
  unfold mergeTypeState at merged
  split_ifs at merged with presence definition names changed
  · have differs : right.entry ≠ base.entry := fun same =>
      changed (by rw [typeDefOf, typeDefOf, same])
    refine ⟨by tauto, ?_⟩
    rw [← Except.ok.inj merged, preferRight_of_ne differs]
  · have same : right.entry = base.entry := hr.entry_eq hb (not_not.mp changed)
    refine ⟨by tauto, ?_⟩
    rw [← Except.ok.inj merged, preferRight_of_eq same]

/-- Changed states merge only where the type is present in all three roots. -/
theorem mergeTypeState_present {typeSymbol : Hash} {base left right state : TypeState}
    (hb : base.Of typeSymbol) (hl : left.Of typeSymbol) (hr : right.Of typeSymbol)
    (changed : left ≠ base) (merged : mergeTypeState typeSymbol base left right = .ok state) :
    base ≠ .absent ∧ left ≠ .absent ∧ right ≠ .absent := by
  obtain ⟨⟨presentL, presentR⟩, -⟩ := mergeTypeState_ok hb hr merged
  have present : base.entry.isSome := hl.isSome_of_ne hb presentL changed
  exact ⟨TypeState.ne_absent present, TypeState.ne_absent (presentL ▸ present),
    TypeState.ne_absent (presentR ▸ present)⟩

theorem mergeTypeState_of {typeSymbol : Hash} {base left right state : TypeState}
    (hb : base.Of typeSymbol) (hl : left.Of typeSymbol) (hr : right.Of typeSymbol)
    (merged : mergeTypeState typeSymbol base left right = .ok state) : state.Of typeSymbol := by
  obtain ⟨⟨presentL, presentR⟩, rfl⟩ := mergeTypeState_ok hb hr merged
  refine
    { entry := preferRight_rec
        (fun o => ∀ e : RootTypePayload, e ∈ o → e.typeSymbol = typeSymbol) hl.entry hr.entry
      names := preferRight_rec
        (fun l => ∀ b : TypeNameBinding, b ∈ l → b.typeSymbol = typeSymbol) hl.names hr.names
      sortedNames := preferRight_rec (fun l => sortOn TypeNameBinding.stateKey l = l)
        hl.sortedNames hr.sortedNames
      absent := ?_ }
  intro noEntry
  -- without an entry both sides, and the base, are absent
  obtain ⟨noB, noL, noR⟩ := preferRight_eq_none presentL presentR noEntry
  rw [hl.absent noL, hr.absent noR, hb.absent noB]
  rfl

/-- Merging two changed states follows the side that changed, in every facet. -/
theorem mergeTypeState_follows {typeSymbol : Hash} {base left right state : TypeState}
    (hb : base.Of typeSymbol) (hl : left.Of typeSymbol) (hr : right.Of typeSymbol)
    (merged : mergeTypeState typeSymbol base left right = .ok state) :
    FollowsChange base.facets.entries left.facets.entries right.facets.entries
      state.facets.entries ∧
    FollowsChange base.facets.names left.facets.names right.facets.names
      state.facets.names := by
  obtain ⟨-, rfl⟩ := mergeTypeState_ok hb hr merged
  refine ⟨followsChange_preferRight.map (f := Option.toList) ?_ ?_,
    followsChange_preferRight.map (f := Multiset.ofList) ?_ ?_⟩
  · exact fun same => toList_injective same
  · exact fun same => toList_injective same
  · exact fun same => hl.names_eq hb same
  · exact fun same => hr.names_eq hb same

end CodeDb

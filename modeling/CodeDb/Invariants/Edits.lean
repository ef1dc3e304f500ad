import CodeDb.Invariants.WellFormed

/-!
# Edits of a draft

The edits the operations make to the lists of a root, and what each of them needs
for a draft to stay one.

## Main definitions

* `SameOutline` — roots that differ in nothing a draft depends on

## Main results

* `Draft.addFunction`, `Draft.addInstance`, `Draft.addType` — new symbols and types
* `Draft.resign`, `Draft.changeSignature` — other signatures
* `Draft.editNames`, `Draft.editTypeNames` — other names
* `Draft.deleteSymbol`
-/

namespace CodeDb

variable {P : Primitives} {objects : Objects} {root root' root'' : ProgramRootPayload}

/-! ### What a draft depends on -/

/-- Roots that differ in nothing a draft depends on. -/
structure SameOutline (root root' : ProgramRootPayload) : Prop where
  symbols : root'.symbols.map (fun e => (e.symbol, e.signature)) =
    root.symbols.map fun e => (e.symbol, e.signature)
  types : typeSymbolsOf root' = typeSymbolsOf root
  names : root'.names = root.names
  typeNames : root'.typeNames = root.typeNames
  paramNames : root'.paramNames = root.paramNames

namespace SameOutline

@[refl] theorem refl (root : ProgramRootPayload) : SameOutline root root :=
  ⟨rfl, rfl, rfl, rfl, rfl⟩

theorem trans (h : SameOutline root root') (h' : SameOutline root' root'') :
    SameOutline root root'' where
  symbols := h'.symbols.trans h.symbols
  types := h'.types.trans h.types
  names := h'.names.trans h.names
  typeNames := h'.typeNames.trans h.typeNames
  paramNames := h'.paramNames.trans h.paramNames

theorem symbolsOf_eq (h : SameOutline root root') : symbolsOf root' = symbolsOf root := by
  simpa [symbolsOf, Function.comp_def] using congrArg (List.map Prod.fst) h.symbols

/-- An entry of one root has its symbol and signature in the other. -/
theorem entry (h : SameOutline root root') {entry : RootSymbolPayload}
    (he : entry ∈ root'.symbols) :
    ∃ old ∈ root.symbols, old.symbol = entry.symbol ∧ old.signature = entry.signature := by
  have mem : (entry.symbol, entry.signature) ∈
      root'.symbols.map fun e => (e.symbol, e.signature) := List.mem_map.mpr ⟨entry, he, rfl⟩
  rw [h.symbols] at mem
  obtain ⟨old, mem, same⟩ := List.mem_map.mp mem
  exact ⟨old, mem, (Prod.mk.inj same).1, (Prod.mk.inj same).2⟩

theorem updateDefinition {symbol definition : Hash} :
    SameOutline root (updateSymbol root symbol fun e => { e with definition := definition }) :=
  ⟨List.map_updateFirst fun _ _ _ => rfl, rfl, rfl, rfl, rfl⟩

theorem modifyDefinition {idx : ℕ} {definition : Hash} :
    SameOutline root { root with
      symbols := root.symbols.modify idx fun e => { e with definition := definition } } where
  symbols := List.map_modify_of_keeps
    (fun e : RootSymbolPayload => { e with definition := definition }) _ (fun _ => rfl) idx
  types := rfl
  names := rfl
  typeNames := rfl
  paramNames := rfl

theorem updateTypeDef {typeSymbol typeDef : Hash} :
    SameOutline root (updateTypeDef root typeSymbol typeDef) :=
  ⟨rfl, List.map_updateFirst fun _ _ _ => rfl, rfl, rfl, rfl⟩

theorem synchronizeModuleMetadata : SameOutline root (synchronizeModuleMetadata root) := by
  simp only [CodeDb.synchronizeModuleMetadata]
  split_ifs <;> exact ⟨rfl, rfl, rfl, rfl, rfl⟩

theorem synchronizeUnlessMain {module : String} :
    SameOutline root (synchronizeUnlessMain module root) := by
  unfold CodeDb.synchronizeUnlessMain
  split_ifs
  · exact synchronizeModuleMetadata
  · rfl

end SameOutline

/-! ### Bindings -/

/-- Bindings of an owner are moved to another place if that is seen to be free. -/
theorem movedBindings {β μ ν ο : Type*} [LinearOrder ν] [DecidableEq μ] [DecidableEq ο]
    (entry : β → Directory.Entry μ ν ο) (edit : β → β) {bindings : List β} {place newPlace : μ}
    {owner : ο}
    (edits : ∀ b, entry (edit b) = if (entry b).place == place && (entry b).owner == owner
      then { entry b with place := newPlace } else entry b)
    (directory : Directory.WellFormed (bindings.map entry)) {known : β} (listed : known ∈ bindings)
    (owned : (entry known).owner = owner) (placed : (entry known).place = place)
    (free : (SortOn.sortedSet ((bindings.filter fun b =>
        (entry b).place == place && (entry b).owner == owner).map fun b => (entry b).name)).find?
      (fun moved => bindings.any fun b =>
        (entry b).place == newPlace && (entry b).name == moved &&
          (entry b).owner != owner) = none) :
    Directory.WellFormed ((bindings.map edit).map entry) := by
  have same : entry ∘ edit = (fun e => if e.place == place && e.owner == owner
    then { e with place := newPlace } else e) ∘ entry := funext edits
  rw [List.map_map, same, ← List.map_map]
  refine directory.move (List.mem_map_of_mem listed) owned placed ?_
  intro e he ownedE f hf ownedF same
  obtain ⟨b, hb, rfl⟩ := List.mem_map.mp he
  obtain ⟨c, hc, rfl⟩ := List.mem_map.mp hf
  have placedB : (entry b).place = place :=
    (directory.together _ he _ (List.mem_map_of_mem listed) (ownedE.trans owned.symm)).trans placed
  have moves : (entry b).name ∈ SortOn.sortedSet ((bindings.filter fun b =>
      (entry b).place == place && (entry b).owner == owner).map fun b => (entry b).name) :=
    (SortOn.mem_sortedSet).mpr
      (List.mem_map.mpr ⟨b, List.mem_filter.mpr ⟨hb, by simp [placedB, ownedE]⟩, rfl⟩)
  refine List.find?_eq_none.mp free _ moves (List.any_eq_true.mpr ⟨c, hc, ?_⟩)
  obtain ⟨placedC, named⟩ := Prod.mk.inj same
  simp [placedC, named, ownedF]

/-- A change of signature leaves the symbols as they are. -/
theorem symbolsOf_changeSignature {symbol signature : Hash} {names : List String} :
    symbolsOf (upsertParamNames (updateSymbol root symbol fun e =>
      { e with signature := signature }) symbol names) = symbolsOf root := by
  have same : symbolsOf (updateSymbol root symbol fun e => { e with signature := signature }) =
    symbolsOf root := List.map_updateFirst fun _ _ _ => rfl
  unfold upsertParamNames
  split_ifs <;> exact same

namespace Draft

variable (draft : Draft P objects root)
include draft

theorem of_sameOutline (same : SameOutline root root') : Draft P objects root' where
  types := same.types ▸ draft.types
  names := same.names ▸ draft.names
  typeNames := same.typeNames ▸ draft.typeNames
  namesListed b hb := same.symbolsOf_eq ▸ draft.namesListed b (same.names ▸ hb)
  typeNamesListed b hb := same.types ▸ draft.typeNamesListed b (same.typeNames ▸ hb)
  aligned := by
    rw [same.paramNames, same.symbolsOf_eq]
    exact draft.aligned
  arity p hp entry he := by
    obtain ⟨old, mem, symbols, signatures⟩ := same.entry he
    rw [← symbols, ← signatures]
    exact draft.arity p (same.paramNames ▸ hp) old mem

/-! ### New symbols and types -/

/-- Nothing is known of a symbol that is not listed. -/
theorem symbol_ne_of_fresh {symbol : Hash} (fresh : symbol ∉ symbolsOf root) :
    (∀ b ∈ root.names, b.symbol ≠ symbol) ∧ ∀ p ∈ root.paramNames, p.symbol ≠ symbol :=
  ⟨fun b hb same => fresh (same ▸ draft.namesListed b hb),
    fun _ hp same => fresh (same ▸ draft.aligned.mem_iff.mp (List.mem_map_of_mem hp))⟩

/-- A symbol without a name is added. -/
theorem addInstance (definition : Hash) {symbol signature : Hash} {names : List String}
    (fresh : symbol ∉ symbolsOf root) (fits : HasArity P objects signature names.length) :
    Draft P objects { root with
      symbols := root.symbols ++ [⟨symbol, definition, signature⟩]
      paramNames := root.paramNames ++ [⟨symbol, names⟩] } where
  types := draft.types
  names := draft.names
  typeNames := draft.typeNames
  namesListed b hb := by
    simp only [symbolsOf, List.map_append]
    exact List.mem_append_left _ (draft.namesListed b hb)
  typeNamesListed := draft.typeNamesListed
  aligned := by
    simp only [symbolsOf, List.map_append]
    exact draft.aligned.append (List.Perm.refl _)
  arity p hp entry he same := by
    rcases List.mem_append.mp hp with hp | hp <;> rcases List.mem_append.mp he with he | he
    · exact draft.arity p hp entry he same
    · rw [List.mem_singleton.mp he] at same
      exact absurd same.symm ((draft.symbol_ne_of_fresh fresh).2 p hp)
    · rw [List.mem_singleton.mp hp] at same
      exact absurd (List.mem_map.mpr ⟨entry, he, same⟩) fresh
    · rw [List.mem_singleton.mp hp, List.mem_singleton.mp he]
      exact fits

/-- Other names, of symbols that are listed, keep a draft one as long as they make
a directory. -/
theorem editNames {names : List NameBinding}
    (directory : Directory.WellFormed (names.map NameBinding.entry))
    (listed : ∀ b ∈ names, b.symbol ∈ symbolsOf root) :
    Draft P objects { root with names := names } :=
  { draft with names := directory, namesListed := listed }

/-- Other names of types that are listed. -/
theorem editTypeNames {typeNames : List TypeNameBinding}
    (directory : Directory.WellFormed (typeNames.map TypeNameBinding.entry))
    (listed : ∀ b ∈ typeNames, b.typeSymbol ∈ typeSymbolsOf root) :
    Draft P objects { root with typeNames := typeNames } :=
  { draft with typeNames := directory, typeNamesListed := listed }

omit draft in
theorem free_of_nameTaken {module name : String} (free : ¬ nameTaken root module name) :
    (module, name) ∉ (root.names.map NameBinding.entry).map Directory.Entry.key := by
  intro taken
  simp only [List.mem_map, Directory.Entry.key, exists_exists_and_eq_and] at taken
  obtain ⟨b, hb, same⟩ := taken
  refine free (List.any_eq_true.mpr ⟨b, hb, ?_⟩)
  simpa [NameBinding.entry] using same

omit draft in
theorem free_of_typeNameTaken {module name : String} (free : ¬ typeNameTaken root module name) :
    (module, name) ∉ (root.typeNames.map TypeNameBinding.entry).map Directory.Entry.key := by
  intro taken
  simp only [List.mem_map, Directory.Entry.key, exists_exists_and_eq_and] at taken
  obtain ⟨b, hb, same⟩ := taken
  refine free (List.any_eq_true.mpr ⟨b, hb, ?_⟩)
  simpa [TypeNameBinding.entry] using same

/-- A function is added under a free name. -/
theorem addFunction (definition : Hash) {module name : String} {symbol signature : Hash}
    {names : List String} (free : ¬ nameTaken root module name) (fresh : symbol ∉ symbolsOf root)
    (fits : HasArity P objects signature names.length) :
    Draft P objects (addFunction root module name symbol definition signature names) := by
  refine (draft.addInstance definition fresh fits).editNames ?_ ?_
  · rw [List.map_append]
    refine draft.names.add (free_of_nameTaken free) fun e he => ?_
    obtain ⟨b, hb, rfl⟩ := List.mem_map.mp he
    exact (draft.symbol_ne_of_fresh fresh).1 b hb
  · intro b hb
    simp only [symbolsOf, List.map_append]
    rcases List.mem_append.mp hb with hb | hb
    · exact List.mem_append_left _ (draft.namesListed b hb)
    · rw [List.mem_singleton.mp hb]
      exact List.mem_append_right _ (List.mem_singleton_self _)

/-- A type is added under a free name. -/
theorem addType {module name : String} {typeSymbol : Hash} (typeDef : Hash)
    (free : ¬ typeNameTaken root module name) (fresh : typeSymbol ∉ typeSymbolsOf root) :
    Draft P objects (addType root module name typeSymbol typeDef) where
  types := by
    simp only [CodeDb.addType, typeSymbolsOf, List.map_append, List.map_singleton]
    exact List.nodup_append.mpr ⟨draft.types, List.nodup_singleton _, by
      rintro a ha b hb rfl
      exact fresh (List.mem_singleton.mp hb ▸ ha)⟩
  names := draft.names
  typeNames := by
    simp only [CodeDb.addType, List.map_append]
    refine draft.typeNames.add (free_of_typeNameTaken free) fun e he same => ?_
    obtain ⟨b, hb, rfl⟩ := List.mem_map.mp he
    have listed := draft.typeNamesListed b hb
    rw [show b.typeSymbol = typeSymbol from same] at listed
    exact fresh listed
  namesListed := draft.namesListed
  typeNamesListed b hb := by
    simp only [CodeDb.addType, typeSymbolsOf, List.map_append]
    rcases List.mem_append.mp hb with hb | hb
    · exact List.mem_append_left _ (draft.typeNamesListed b hb)
    · rw [List.mem_singleton.mp hb]
      exact List.mem_append_right _ (List.mem_singleton_self _)
  aligned := draft.aligned
  arity := draft.arity

/-! ### Other signatures -/

/-- Every listed symbol has parameter names, and they fit. -/
theorem paramNames_fit {entry : RootSymbolPayload} (he : entry ∈ root.symbols) :
    HasArity P objects entry.signature (paramNames root entry.symbol).length := by
  have listed : entry.symbol ∈ root.paramNames.map (·.symbol) :=
    draft.aligned.mem_iff.mpr (List.mem_map_of_mem he)
  obtain ⟨p, hp, same⟩ := List.mem_map.mp listed
  unfold paramNames
  cases found : root.paramNames.find? (·.symbol == entry.symbol) with
  | none => exact absurd (beq_iff_eq.mpr same) (List.find?_eq_none.mp found p hp)
  | some q =>
    have owner : q.symbol = entry.symbol := by simpa using List.find?_some found
    exact draft.arity q (List.mem_of_find?_eq_some found) entry he owner.symm

/-- A symbol gets a signature with as many parameters. -/
theorem resign {symbol signature : Hash} (distinct : (symbolsOf root).Nodup)
    (fits : ∀ p ∈ root.paramNames, p.symbol = symbol →
      HasArity P objects signature p.names.length) :
    Draft P objects (updateSymbol root symbol fun e => { e with signature := signature }) := by
  have same : symbolsOf (updateSymbol root symbol fun e => { e with signature := signature }) =
    symbolsOf root := List.map_updateFirst fun _ _ _ => rfl
  exact
    { draft with
      namesListed := same ▸ draft.namesListed
      aligned := same ▸ draft.aligned
      arity := fun p hp entry he owner => by
        rcases List.mem_updateFirst_key distinct he with ⟨old, -⟩ | ⟨old, -, rfl, rfl⟩
        · exact draft.arity p hp entry old owner
        · exact fits p hp owner.symm }

/-- A listed symbol gets another signature, with other parameter names. -/
theorem changeSignature {symbol signature : Hash} {names : List String}
    {change : RootSymbolPayload → RootSymbolPayload}
    (keeps : ∀ e, (change e).symbol = e.symbol) (sets : ∀ e, (change e).signature = signature)
    (distinct : (symbolsOf root).Nodup) (listed : symbol ∈ symbolsOf root)
    (fits : HasArity P objects signature names.length) :
    Draft P objects (upsertParamNames (updateSymbol root symbol change) symbol names) := by
  have same : symbolsOf (updateSymbol root symbol change) = symbolsOf root :=
    List.map_updateFirst fun e _ _ => keeps e
  have known : (updateSymbol root symbol change).paramNames.any (·.symbol == symbol) := by
    obtain ⟨p, hp, owner⟩ := List.mem_map.mp (draft.aligned.mem_iff.mpr listed)
    exact List.any_eq_true.mpr ⟨p, hp, beq_iff_eq.mpr owner⟩
  rw [upsertParamNames, if_pos known]
  exact
    { draft with
      namesListed := fun b hb => by
        change b.symbol ∈ symbolsOf (updateSymbol root symbol change)
        rw [same]
        exact draft.namesListed b hb
      aligned := by
        have owners := List.map_updateFirst (p := (·.symbol == symbol)) (l := root.paramNames)
          (f := fun entry => { entry with names := names }) (g := (·.symbol)) fun _ _ _ => rfl
        change (List.map _ (List.updateFirst _ _ root.paramNames)).Perm
          (symbolsOf (updateSymbol root symbol change))
        rw [same, owners]
        exact draft.aligned
      arity := fun p hp entry he owner => by
        rcases List.mem_updateFirst_key distinct he with ⟨oldE, otherE⟩ | ⟨oldE, -, atE, rfl⟩ <;>
        rcases List.mem_updateFirst_key (draft.aligned.nodup_iff.mpr distinct) hp with
          ⟨oldP, otherP⟩ | ⟨oldP, -, atP, rfl⟩
        · exact draft.arity p oldP entry oldE owner
        · exact absurd (owner.trans atP) otherE
        · rw [keeps, atE] at owner
          exact absurd owner.symm otherP
        · rw [sets]
          exact fits }

/-! ### Deletion -/

/-- A symbol is deleted, with its names and parameter names. -/
theorem deleteSymbol {symbol : Hash} {exports : List ExportBinding}
    {tests : List RootTestBinding} :
    Draft P objects { root with
      symbols := root.symbols.filter (·.symbol != symbol)
      names := root.names.filter (·.symbol != symbol)
      paramNames := root.paramNames.filter (·.symbol != symbol)
      exports := exports
      tests := tests } where
  types := draft.types
  names := by
    have same : (root.names.filter (·.symbol != symbol)).map NameBinding.entry =
        (root.names.map NameBinding.entry).filter (·.owner != symbol) := by
      rw [List.filter_map]
      rfl
    rw [same]
    refine draft.names.filter _ fun e _ kept p _ owner _ => ?_
    rwa [owner]
  typeNames := draft.typeNames
  namesListed b hb := by
    obtain ⟨hb, kept⟩ := List.mem_filter.mp hb
    obtain ⟨entry, he, same⟩ := List.mem_map.mp (draft.namesListed b hb)
    exact List.mem_map.mpr ⟨entry, List.mem_filter.mpr ⟨he, same ▸ kept⟩, same⟩
  typeNamesListed := draft.typeNamesListed
  aligned := by
    have filtered := draft.aligned.filter (· != symbol)
    simpa only [symbolsOf, List.filter_map, Function.comp_def] using filtered
  arity p hp entry he :=
    draft.arity p (List.mem_of_mem_filter hp) entry (List.mem_of_mem_filter he)

end Draft

end CodeDb

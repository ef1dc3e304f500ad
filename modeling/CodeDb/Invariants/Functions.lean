import CodeDb.Invariants.Types

/-!
# Operations on functions keep the invariant

That the symbols of new functions are new is checked when the root is stored, and
that instances of generic functions are is checked when they are added. Wherever a
signature is stored its parameters are as many as the names that go with it.

## Main results

* `putSignature_arity` — a stored signature has as many parameters as were stored
* `monomorphizeIntoRoot_ok` — instances keep a draft one
* `applyCreateFunction_holds`, `applyCreateRecursionGroup_holds`
* `applyChangeSignature_holds`, `applyAddParameter_holds`,
  `applyConvertParamToReference_holds`
-/

namespace CodeDb

open SortOn

variable {P : Primitives} {El : Elaborator P}

/-! ### Signatures -/

section Signatures

private theorem length_getStrings {notString : Error} {values : List JsonValue} {l : List String}
    (run : JsonValue.getStrings notString values = .ok l) : l.length = values.length :=
  (Except.mapM_eq_ok.mp run).length_eq.symm

private theorem keys_signature (params effects : JsonValue) (returnType : Hash)
    (regionParams : List RegionParamDef) (typeParams : List String) :
    (([("abi", .string abiTag), ("effects", effects), ("params", params)] ++
      listEntry RegionParamDef.toValue "region_params" regionParams ++
      [("return", .string returnType)] ++
      listEntry .string "type_params" typeParams : List (String × JsonValue)).map
      (·.1)).Pairwise (· < ·) := by
  have all : (["abi", "effects", "params"] ++ ["region_params"] ++ ["return"] ++
      ["type_params"]).Pairwise (· < ·) := by decide
  refine all.sublist ?_
  simp only [List.map_append]
  exact (((List.Sublist.refl _).append (keys_listEntry _ _ _)).append (List.Sublist.refl _)).append
    (keys_listEntry _ _ _)

variable (reliable : P.Reliable) (reads : P.ReadsText) {before after : Objects}
  (addressed : Addressed P before)
include reliable reads addressed

/-- A stored signature has as many parameters as were stored. -/
theorem putSignature_arity {paramTypes : List Hash} {returnType : Hash} {effects : List Effect}
    {regionParams : List RegionParamDef} {typeParams : List String} {signature : Hash}
    (run : (putSignature paramTypes returnType effects regionParams typeParams : StoreM P _).run
      before = .ok (signature, after)) : HasArity P after signature paramTypes.length := by
  obtain ⟨effects, -, run⟩ := StoreM.run_lift_bind.mp run
  obtain ⟨_, -, run⟩ := StoreM.run_lift_bind.mp run
  obtain ⟨rfl, rfl⟩ := StoreM.run_put.mp run
  refine ⟨by rw [lookup_putObject reliable addressed]; rfl, fun types type read => ?_⟩
  obtain ⟨payload, text, read⟩ := Except.bind_eq_ok.mp read
  rw [getPayload_putObject reliable addressed (Grows.refl _)] at text
  obtain ⟨entries, rfl, parts⟩ := reads.object (keys_signature _ _ _ _ _) text
  have same := lookup_reads "params" parts
  split at read
  · next values found =>
    obtain ⟨types', params, read⟩ := Except.bind_eq_ok.mp read
    obtain ⟨_, -, read⟩ := Except.bind_eq_ok.mp read
    obtain ⟨rfl, -⟩ := Prod.mk.inj (Except.pure_eq_ok.mp read)
    rw [show entries.lookup "params" = some (.array values) from found] at same
    cases same with
    | some text =>
      obtain ⟨values', same, lengths⟩ := reads.array text
      obtain rfl := JsonValue.array.inj same
      simpa using (length_getStrings params).trans lengths.length_eq.symm
  · cases read

theorem putResolvedSignature_arity {module : String} {root : ProgramRootPayload}
    {params : List ParamSpec} {returnType : String} {effects : List Effect}
    {regionParams : List RegionParamDef} {typeParams : List String} {resolved : ResolvedSignature}
    (run : (putResolvedSignature El module root params returnType effects regionParams
      typeParams).run before = .ok (resolved, after)) :
    HasArity P after resolved.signature (params.map (·.name)).length := by
  obtain ⟨paramTypes, _, types, g₁, run⟩ := StoreM.run_stage run
  obtain ⟨returnType, _, -, g₂, run⟩ := StoreM.run_stage run
  obtain ⟨signature, _, put, run⟩ := StoreM.run_bind.mp run
  obtain ⟨rfl, rfl⟩ := StoreM.run_pure_iff.mp run
  rw [List.length_map, ← StoreM.each_length types]
  exact putSignature_arity reliable reads ((g₁.trans g₂).addressed addressed) put

end Signatures

/-! ### Instances of generic functions -/

section Instances

variable (reliable : P.Reliable) (reads : P.ReadsText) {before after : Objects}
include reliable reads

/-- An instance has as many parameters as its template. -/
theorem buildFunctionInstance_arity (addressed : Addressed P before) {root : ProgramRootPayload}
    (draft : Draft P before root) {generic : Hash} {typeArgs : List Hash}
    {entry : RootSymbolPayload} {names : List String}
    (run : (buildFunctionInstance El root generic typeArgs).run before =
      .ok ((entry, names), after)) : HasArity P after entry.signature names.length := by
  unfold buildFunctionInstance at run
  split at run
  · exact (StoreM.run_fail.mp run).elim
  next template found =>
  obtain ⟨_, -, run⟩ := StoreM.run_read_bind.mp run
  split_ifs at run
  · exact (StoreM.run_fail.mp run).elim
  obtain ⟨⟨paramTypes, returnType⟩, parts, run⟩ := StoreM.run_read_bind.mp run
  obtain ⟨concreteParams, _, params, g₁, run⟩ := StoreM.run_stage run
  obtain ⟨_, _, -, g₂, run⟩ := StoreM.run_stage run
  obtain ⟨_, -, run⟩ := StoreM.run_read_bind.mp run
  obtain ⟨_, -, run⟩ := StoreM.run_read_bind.mp run
  obtain ⟨signature, _, put, -, run⟩ := StoreM.run_stage run
  obtain ⟨_, -, run⟩ := StoreM.run_read_bind.mp run
  obtain ⟨_, _, -, g₃, run⟩ := StoreM.run_stage run
  obtain ⟨_, _, -, g₄, run⟩ := StoreM.run_stage run
  obtain ⟨_, _, -, g₅, run⟩ := StoreM.run_stage run
  obtain ⟨same, rfl⟩ := StoreM.run_pure_iff.mp run
  obtain ⟨rfl, rfl⟩ := Prod.mk.inj same
  obtain ⟨listed, owner⟩ := rootSymbol_some found
  have fits := (draft.paramNames_fit listed).arity _ _ parts
  rw [owner] at fits
  rw [← fits, ← StoreM.each_length params]
  exact (putSignature_arity reliable reads ((g₁.trans g₂).addressed addressed) put).grow
    (g₃.trans (g₄.trans g₅))

/-- Instances are added to the symbols of a root, and keep a draft one. -/
theorem monomorphizeCalls_ok {calls nested : List (Hash × List Hash)} {done done' : List Hash}
    {root root' : ProgramRootPayload}
    (run : (monomorphizeCalls El calls done root).run before =
      .ok ((nested, done', root'), after)) :
    symbolsOf root <+: symbolsOf root' ∧
      (Addressed P before → Draft P before root → Draft P after root') := by
  induction calls generalizing done root before nested done' root' after with
  | nil =>
    obtain ⟨same, rfl⟩ := StoreM.run_pure_iff.mp run
    obtain ⟨-, -, rfl⟩ := by simpa only [Prod.mk.injEq] using same
    exact ⟨List.prefix_refl _, fun _ draft => draft⟩
  | cons call calls ih =>
    obtain ⟨generic, typeArgs⟩ := call
    simp only [monomorphizeCalls] at run
    split_ifs at run with finished listed
    · exact ih run
    · exact ih run
    obtain ⟨⟨entry, names⟩, _, build, g₁, run⟩ := StoreM.run_stage run
    obtain ⟨_, -, run⟩ := StoreM.run_read_bind.mp run
    obtain ⟨_, -, run⟩ := StoreM.run_read_bind.mp run
    obtain ⟨⟨more, done'', root''⟩, _, rest, run⟩ := StoreM.run_bind.mp run
    obtain ⟨same, rfl⟩ := StoreM.run_pure_iff.mp run
    obtain ⟨-, -, rfl⟩ := by simpa only [Prod.mk.injEq] using same
    obtain ⟨longer, keeps⟩ := ih rest
    refine ⟨List.IsPrefix.trans ?_ longer, fun addressed draft => keeps (g₁.addressed addressed) ?_⟩
    · simp [symbolsOf]
    · refine (draft.grow g₁).addInstance entry.definition (fun mem => listed ?_)
        (buildFunctionInstance_arity reliable reads addressed draft build)
      obtain ⟨old, hold, same⟩ := List.mem_map.mp mem
      exact List.any_eq_true.mpr ⟨old, hold, beq_iff_eq.mpr same⟩

theorem monomorphizeLevels_ok {levels : ℕ} {calls : List (Hash × List Hash)} {done : List Hash}
    {root root' : ProgramRootPayload}
    (run : (monomorphizeLevels El levels calls done root).run before = .ok (root', after)) :
    symbolsOf root <+: symbolsOf root' ∧
      (Addressed P before → Draft P before root → Draft P after root') := by
  induction levels generalizing calls done root before with
  | zero =>
    cases calls with
    | nil =>
      obtain ⟨rfl, rfl⟩ := StoreM.run_pure_iff.mp run
      exact ⟨List.prefix_refl _, fun _ draft => draft⟩
    | cons call calls => exact (StoreM.run_fail.mp run).elim
  | succ levels ih =>
    cases calls with
    | nil =>
      obtain ⟨rfl, rfl⟩ := StoreM.run_pure_iff.mp run
      exact ⟨List.prefix_refl _, fun _ draft => draft⟩
    | cons call calls =>
      obtain ⟨⟨nested, done', root''⟩, _, level, g, run⟩ := StoreM.run_stage run
      obtain ⟨longer, keeps⟩ := monomorphizeCalls_ok reliable reads level
      obtain ⟨longer', keeps'⟩ := ih run
      exact ⟨longer.trans longer', fun addressed draft =>
        keeps' (g.addressed addressed) (keeps addressed draft)⟩

theorem monomorphizeIntoRoot_ok {root root' : ProgramRootPayload} {body : Hash}
    (run : (monomorphizeIntoRoot El root body).run before = .ok (root', after)) :
    symbolsOf root <+: symbolsOf root' ∧
      (Addressed P before → Draft P before root → Draft P after root') := by
  obtain ⟨calls, -, run⟩ := StoreM.run_read_bind.mp run
  exact monomorphizeLevels_ok reliable reads run

theorem monomorphizeBodies_ok {root root' : ProgramRootPayload} {bodies : List Hash}
    (run : (monomorphizeBodies El bodies root).run before = .ok (root', after)) :
    symbolsOf root <+: symbolsOf root' ∧
      (Addressed P before → Draft P before root → Draft P after root') := by
  induction bodies generalizing root before with
  | nil =>
    obtain ⟨rfl, rfl⟩ := StoreM.run_pure_iff.mp run
    exact ⟨List.prefix_refl _, fun _ draft => draft⟩
  | cons body bodies ih =>
    obtain ⟨root'', _, first, g, run⟩ := StoreM.run_stage run
    obtain ⟨longer, keeps⟩ := monomorphizeIntoRoot_ok reliable reads first
    obtain ⟨longer', keeps'⟩ := ih run
    exact ⟨longer.trans longer', fun addressed draft =>
      keeps' (g.addressed addressed) (keeps addressed draft)⟩

end Instances

/-! ### Creating functions -/

theorem symbolsOf_addFunction {root : ProgramRootPayload} {module name : String}
    {symbol definition signature : Hash} {names : List String} :
    symbolsOf (addFunction root module name symbol definition signature names) =
      symbolsOf root ++ [symbol] := by
  simp [symbolsOf, addFunction]

theorem nameTaken_addFunction {root : ProgramRootPayload} {module name name' : String}
    {symbol definition signature : Hash} {names : List String} :
    nameTaken (addFunction root module name symbol definition signature names) module name' ↔
      nameTaken root module name' ∨ name = name' := by
  simp [nameTaken, addFunction]

/-- Where the symbols of a longer list are distinct, the last of a shorter one is new. -/
private theorem fresh_of_longer {symbols symbols' : List Hash} {symbol : Hash}
    (longer : symbols ++ [symbol] <+: symbols') (distinct : symbols'.Nodup) : symbol ∉ symbols := by
  intro mem
  have shorter := distinct.sublist longer.sublist
  exact (List.nodup_append.mp shorter).2.2 _ mem _ (List.mem_singleton_self _) rfl

/-- The members of a clique of functions have distinct names, which are free. -/
theorem validateRecursionGroup_ok {root : ProgramRootPayload} {module : String}
    {members : List (RecursionGroupMemberSpec El)} {seen : List String} {u : Unit}
    (run : validateRecursionGroup El root module members seen = .ok u) :
    (members.map (·.name)).Nodup ∧
      ∀ m ∈ members, m.name ∉ seen ∧ ¬ nameTaken root module m.name := by
  induction members generalizing seen with
  | nil => simp
  | cons m members ih =>
    obtain ⟨_, -, run⟩ := Except.bind_eq_ok.mp run
    obtain ⟨_, -, run⟩ := Except.bind_eq_ok.mp run
    obtain ⟨_, -, run⟩ := Except.bind_eq_ok.mp run
    obtain ⟨_, -, run⟩ := Except.bind_eq_ok.mp run
    split_ifs at run with again taken
    obtain ⟨distinct, rest⟩ := ih run
    refine ⟨List.nodup_cons.mpr ⟨fun mem => ?_, distinct⟩, ?_⟩
    · obtain ⟨other, hother, same⟩ := List.mem_map.mp mem
      exact (rest other hother).1 (same ▸ List.mem_cons_self)
    · refine List.forall_mem_cons.mpr ⟨⟨by simpa using again, taken⟩, fun other hother => ?_⟩
      exact ⟨fun mem => (rest other hother).1 (List.mem_cons_of_mem _ mem), (rest other hother).2⟩

/-- A body that is typed changes nothing of a root but the definition it is for. -/
theorem defineMembers_ok {module : String} {idx : ℕ} {pending : List (PendingMember El)}
    {root root' : ProgramRootPayload} {bodies : List Hash} {before after : Objects}
    (run : (defineMembers El module idx pending root).run before = .ok ((bodies, root'), after)) :
    SameOutline root root' := by
  induction pending generalizing idx root bodies root' before after with
  | nil =>
    obtain ⟨same, -⟩ := StoreM.run_pure_iff.mp run
    obtain ⟨-, rfl⟩ := Prod.mk.inj same
    rfl
  | cons p pending ih =>
    obtain ⟨typedBody, _, -, run⟩ := StoreM.run_bind.mp run
    obtain ⟨definition, _, -, run⟩ := StoreM.run_bind.mp run
    obtain ⟨⟨bodies', root''⟩, _, rest, run⟩ := StoreM.run_bind.mp run
    obtain ⟨same, -⟩ := StoreM.run_pure_iff.mp run
    obtain ⟨-, rfl⟩ := Prod.mk.inj same
    exact SameOutline.modifyDefinition.trans (ih rest)

section Operations

variable (reliable : P.Reliable) (reads : P.ReadsText) {before after : Objects}
include reliable reads

/-- The members of a clique are added to the symbols of a root, and keep a draft one
if the symbols are distinct in the end. -/
theorem registerMembers_ok {parent : Option Hash} {module : String} {ordinal : ℕ}
    {members : List (RecursionGroupMemberSpec El)} {root root' : ProgramRootPayload}
    {pending : List (PendingMember El)}
    (run : (registerMembers El parent module ordinal members root).run before =
      .ok ((pending, root'), after)) :
    symbolsOf root <+: symbolsOf root' ∧
      (Addressed P before → Draft P before root → (symbolsOf root').Nodup →
        (members.map (·.name)).Nodup → (∀ m ∈ members, ¬ nameTaken root module m.name) →
        Draft P after root') := by
  induction members generalizing ordinal root root' pending before after with
  | nil =>
    obtain ⟨same, rfl⟩ := StoreM.run_pure_iff.mp run
    obtain ⟨-, rfl⟩ := Prod.mk.inj same
    exact ⟨List.prefix_refl _, fun _ draft _ _ _ => draft⟩
  | cons m members ih =>
    obtain ⟨symbol, _, -, g₁, run⟩ := StoreM.run_stage run
    obtain ⟨regionParams, _, -, g₂, run⟩ := StoreM.run_stage run
    obtain ⟨resolved, _, resolve, g₃, run⟩ := StoreM.run_stage run
    obtain ⟨⟨pending', root''⟩, _, rest, run⟩ := StoreM.run_bind.mp run
    obtain ⟨same, rfl⟩ := StoreM.run_pure_iff.mp run
    obtain ⟨-, rfl⟩ := Prod.mk.inj same
    obtain ⟨longer, keeps⟩ := ih rest
    rw [symbolsOf_addFunction] at longer
    refine ⟨(List.prefix_append _ _).trans longer,
      fun addressed draft distinct names free => ?_⟩
    obtain ⟨freshName, names⟩ := List.nodup_cons.mp names
    have g := (g₁.trans g₂).trans g₃
    refine keeps (g.addressed addressed) ((draft.grow g).addFunction _ (free m List.mem_cons_self)
      (fresh_of_longer longer distinct) (putResolvedSignature_arity reliable reads
        ((g₁.trans g₂).addressed addressed) resolve)) distinct names fun other hother => ?_
    rw [nameTaken_addFunction]
    rintro (taken | same)
    · exact free other (List.mem_cons_of_mem _ hother) taken
    · exact freshName (List.mem_map.mpr ⟨other, hother, same.symm⟩)

variable (addressed : Addressed P before) {inputRoot newRoot : Hash}
  (holds : Holds El before inputRoot)
include addressed holds

theorem applyCreateFunction_holds {parent : Option Hash} {module name birthSeed : String}
    {regionParamNames typeParamNames : List String} {params : List ParamSpec}
    {returnType : String} {effects : List Effect} {body : El.RawExpr}
    (run : (applyCreateFunction El inputRoot parent module name birthSeed regionParamNames
      typeParamNames params returnType effects body).run before = .ok (newRoot, after)) :
    Holds El after newRoot := by
  obtain ⟨_, -, run⟩ := StoreM.run_lift_bind.mp run
  obtain ⟨_, -, run⟩ := StoreM.run_lift_bind.mp run
  obtain ⟨_, -, run⟩ := StoreM.run_lift_bind.mp run
  obtain ⟨_, -, run⟩ := StoreM.run_lift_bind.mp run
  obtain ⟨root, load, run⟩ := StoreM.run_read_bind.mp run
  split_ifs at run with taken
  · exact (StoreM.run_fail.mp run).elim
  obtain ⟨symbol, _, -, g₁, run⟩ := StoreM.run_stage run
  obtain ⟨_, -, run⟩ := StoreM.run_lift_bind.mp run
  obtain ⟨regionParams, _, -, g₂, run⟩ := StoreM.run_stage run
  obtain ⟨resolved, _, resolve, g₃, run⟩ := StoreM.run_stage run
  obtain ⟨typedBody, _, -, g₄, run⟩ := StoreM.run_stage run
  obtain ⟨definition, _, -, g₅, run⟩ := StoreM.run_stage run
  obtain ⟨instantiated, _, instantiate, g₆, run⟩ := StoreM.run_stage run
  obtain ⟨longer, keeps⟩ := monomorphizeIntoRoot_ok reliable reads instantiate
  have distinct := nodup_of_putCheckedRoot El run
  rw [SameOutline.synchronizeUnlessMain.symbolsOf_eq] at distinct
  rw [symbolsOf_addFunction] at longer
  have g₁₃ := (g₁.trans g₂).trans g₃
  have g₁₅ := (g₁₃.trans g₄).trans g₅
  have fits := (putResolvedSignature_arity reliable reads ((g₁.trans g₂).addressed addressed)
    resolve).grow (g₄.trans g₅)
  have draft := keeps (g₁₅.addressed addressed) (((holds.loaded load).draft.grow g₁₅).addFunction
    definition taken (fresh_of_longer longer distinct) fits)
  exact Draft.checked El reliable reads ((g₁₅.trans g₆).addressed addressed) run
    (draft.of_sameOutline SameOutline.synchronizeUnlessMain)

theorem applyCreateExternalFunction_holds {parent : Option Hash} {module name birthSeed : String}
    {regionParamNames : List String} {params : List ParamSpec} {returnType : String}
    {effects : List Effect} {abi linkName : String} {library : Option String}
    (run : (applyCreateExternalFunction El inputRoot parent module name birthSeed regionParamNames
      params returnType effects abi linkName library).run before = .ok (newRoot, after)) :
    Holds El after newRoot := by
  obtain ⟨_, -, run⟩ := StoreM.run_lift_bind.mp run
  obtain ⟨_, -, run⟩ := StoreM.run_lift_bind.mp run
  obtain ⟨_, -, run⟩ := StoreM.run_lift_bind.mp run
  obtain ⟨root, load, run⟩ := StoreM.run_read_bind.mp run
  split_ifs at run with taken
  · exact (StoreM.run_fail.mp run).elim
  obtain ⟨symbol, _, -, g₁, run⟩ := StoreM.run_stage run
  obtain ⟨_, -, run⟩ := StoreM.run_lift_bind.mp run
  obtain ⟨regionParams, _, -, g₂, run⟩ := StoreM.run_stage run
  obtain ⟨resolved, _, resolve, g₃, run⟩ := StoreM.run_stage run
  obtain ⟨definition, _, -, g₄, run⟩ := StoreM.run_stage run
  have distinct := nodup_of_putCheckedRoot El run
  rw [SameOutline.synchronizeUnlessMain.symbolsOf_eq, symbolsOf_addFunction] at distinct
  have g := ((g₁.trans g₂).trans g₃).trans g₄
  have fits := (putResolvedSignature_arity reliable reads ((g₁.trans g₂).addressed addressed)
    resolve).grow g₄
  have draft := ((holds.loaded load).draft.grow g).addFunction definition taken
    (fresh_of_longer (List.prefix_refl _) distinct) fits
  exact Draft.checked El reliable reads (g.addressed addressed) run
    (draft.of_sameOutline SameOutline.synchronizeUnlessMain)

theorem applyCreateRecursionGroup_holds {parent : Option Hash} {module : String}
    {members : List (RecursionGroupMemberSpec El)}
    (run : (applyCreateRecursionGroup El inputRoot parent module members).run before =
      .ok (newRoot, after)) : Holds El after newRoot := by
  obtain ⟨_, -, run⟩ := StoreM.run_lift_bind.mp run
  split_ifs at run
  · exact (StoreM.run_fail.mp run).elim
  obtain ⟨root, load, run⟩ := StoreM.run_read_bind.mp run
  obtain ⟨_, valid, run⟩ := StoreM.run_lift_bind.mp run
  obtain ⟨⟨pending, registered⟩, _, register, g₁, run⟩ := StoreM.run_stage run
  obtain ⟨⟨bodies, defined⟩, _, define, g₂, run⟩ := StoreM.run_stage run
  obtain ⟨group, _, -, g₃, run⟩ := StoreM.run_stage run
  obtain ⟨instantiated, _, instantiate, g₄, run⟩ := StoreM.run_stage run
  obtain ⟨names, free⟩ := validateRecursionGroup_ok valid
  obtain ⟨longer, keeps⟩ := monomorphizeBodies_ok reliable reads instantiate
  have same : SameOutline registered
      { defined with recursionGroups := defined.recursionGroups ++ [group] } :=
    (defineMembers_ok define).trans ⟨rfl, rfl, rfl, rfl, rfl⟩
  have distinct := nodup_of_putCheckedRoot El run
  rw [SameOutline.synchronizeUnlessMain.symbolsOf_eq] at distinct
  rw [same.symbolsOf_eq] at longer
  have draft := (registerMembers_ok reliable reads register).2 addressed (holds.loaded load).draft
    (distinct.sublist longer.sublist) names fun m hm => (free m hm).2
  have g := (g₁.trans g₂).trans g₃
  exact Draft.checked El reliable reads ((g.trans g₄).addressed addressed) run
    ((keeps (g.addressed addressed) ((draft.grow (g₂.trans g₃)).of_sameOutline
      same)).of_sameOutline SameOutline.synchronizeUnlessMain)

/-! ### Changing functions -/

theorem applyReplaceBody_holds {module : String} {symbol : Hash} {name : String}
    {body : El.RawExpr}
    (run : (applyReplaceBody El inputRoot module symbol name body).run before =
      .ok (newRoot, after)) : Holds El after newRoot := by
  obtain ⟨root, load, run⟩ := StoreM.run_read_bind.mp run
  obtain ⟨_, -, run⟩ := StoreM.run_lift_bind.mp run
  obtain ⟨entry, -, run⟩ := StoreM.run_lift_bind.mp run
  obtain ⟨external, -, run⟩ := StoreM.run_read_bind.mp run
  split_ifs at run
  · exact (StoreM.run_fail.mp run).elim
  obtain ⟨⟨paramTypes, returnType⟩, -, run⟩ := StoreM.run_read_bind.mp run
  obtain ⟨regionParams, -, run⟩ := StoreM.run_read_bind.mp run
  obtain ⟨typedBody, _, -, g₁, run⟩ := StoreM.run_stage run
  obtain ⟨definition, _, -, g₂, run⟩ := StoreM.run_stage run
  have g := g₁.trans g₂
  exact Draft.checked El reliable reads (g.addressed addressed) run
    (((holds.loaded load).draft.grow g).of_sameOutline SameOutline.updateDefinition)

omit reliable reads addressed holds in
theorem rootSymbolEntry_ok {root : ProgramRootPayload} {symbol : Hash}
    {entry : RootSymbolPayload} (run : rootSymbolEntry root symbol = .ok entry) :
    entry ∈ root.symbols ∧ entry.symbol = symbol := by
  unfold rootSymbolEntry at run
  split at run
  · next found =>
    obtain rfl := Except.ok.inj run
    exact rootSymbol_some found
  · cases run

theorem applyChangeSignature_holds {module : String} {symbol : Hash} {name : String}
    {regionParamNames : List String} {params : List ParamSpec} {returnType : String}
    {effects : List Effect}
    (run : (applyChangeSignature El inputRoot module symbol name regionParamNames params returnType
      effects).run before = .ok (newRoot, after)) : Holds El after newRoot := by
  obtain ⟨_, -, run⟩ := StoreM.run_lift_bind.mp run
  obtain ⟨_, -, run⟩ := StoreM.run_lift_bind.mp run
  obtain ⟨root, load, run⟩ := StoreM.run_read_bind.mp run
  obtain ⟨_, -, run⟩ := StoreM.run_lift_bind.mp run
  obtain ⟨entry, found, run⟩ := StoreM.run_lift_bind.mp run
  obtain ⟨regionParams, _, -, g₁, run⟩ := StoreM.run_stage run
  obtain ⟨resolved, _, resolve, g₂, run⟩ := StoreM.run_stage run
  obtain ⟨external, -, run⟩ := StoreM.run_read_bind.mp run
  have inv := holds.loaded load
  obtain ⟨mem, rfl⟩ := rootSymbolEntry_ok found
  have fits := putResolvedSignature_arity reliable reads (g₁.addressed addressed) resolve
  have listed : entry.symbol ∈ symbolsOf root := List.mem_map_of_mem mem
  -- an external function gets another definition as well, any other a body of the new type
  split_ifs at run
  · obtain ⟨metadata, -, run⟩ := StoreM.run_read_bind.mp run
    obtain ⟨definition, _, -, g₃, run⟩ := StoreM.run_stage run
    have g := (g₁.trans g₂).trans g₃
    exact Draft.checked El reliable reads (g.addressed addressed) run
      ((inv.draft.grow g).changeSignature (fun _ => rfl) (fun _ => rfl) inv.symbols listed
        (fits.grow g₃))
  · obtain ⟨rawBody, -, run⟩ := StoreM.run_read_bind.mp run
    obtain ⟨typedBody, _, -, g₃, run⟩ := StoreM.run_stage run
    obtain ⟨definition, _, -, g₄, run⟩ := StoreM.run_stage run
    have g := (g₁.trans g₂).trans (g₃.trans g₄)
    exact Draft.checked El reliable reads (g.addressed addressed) run
      ((inv.draft.grow g).changeSignature (fun _ => rfl) (fun _ => rfl) inv.symbols listed
        (fits.grow (g₃.trans g₄)))

omit reliable reads addressed holds in
/-- Patching callers changes definitions only. -/
theorem patchCallers_ok {symbol : Hash} {default : El.RawExpr} {callers : List Hash}
    {root root' : ProgramRootPayload} {before after : Objects}
    (run : (patchCallers El symbol default callers root).run before = .ok (root', after)) :
    SameOutline root root' := by
  induction callers generalizing root before with
  | nil =>
    obtain ⟨rfl, -⟩ := StoreM.run_pure_iff.mp run
    rfl
  | cons caller callers ih =>
    unfold patchCallers at run
    split_ifs at run
    · exact ih run
    obtain ⟨entry, -, run⟩ := StoreM.run_lift_bind.mp run
    obtain ⟨callerBody, -, run⟩ := StoreM.run_read_bind.mp run
    obtain ⟨targetName, -, run⟩ := StoreM.run_lift_bind.mp run
    dsimp only at run
    split_ifs at run
    · exact ih run
    obtain ⟨⟨paramTypes, returnType⟩, -, run⟩ := StoreM.run_read_bind.mp run
    obtain ⟨regionParams, -, run⟩ := StoreM.run_read_bind.mp run
    obtain ⟨typedBody, _, -, run⟩ := StoreM.run_bind.mp run
    obtain ⟨definition, _, -, run⟩ := StoreM.run_bind.mp run
    exact SameOutline.updateDefinition.trans (ih run)

theorem applyAddParameter_holds {module : String} {symbol : Hash} {name : String}
    {param : ParamSpec} {default : Option El.RawExpr}
    (run : (applyAddParameter El inputRoot module symbol name param default).run before =
      .ok (newRoot, after)) : Holds El after newRoot := by
  obtain ⟨root, load, run⟩ := StoreM.run_read_bind.mp run
  obtain ⟨_, -, run⟩ := StoreM.run_lift_bind.mp run
  obtain ⟨callers, -, run⟩ := StoreM.run_read_bind.mp run
  have inv := holds.loaded load
  split at run
  · obtain ⟨_, -, run⟩ := StoreM.run_lift_bind.mp run
    exact (StoreM.run_fail.mp run).elim
  obtain ⟨entry, found, run⟩ := StoreM.run_lift_bind.mp run
  obtain ⟨mem, rfl⟩ := rootSymbolEntry_ok found
  obtain ⟨external, -, run⟩ := StoreM.run_read_bind.mp run
  split at run
  · exact (StoreM.run_fail.mp run).elim
  obtain ⟨oldBody, -, run⟩ := StoreM.run_read_bind.mp run
  obtain ⟨⟨oldTypes, returnType⟩, parts, run⟩ := StoreM.run_read_bind.mp run
  obtain ⟨regionParams, -, run⟩ := StoreM.run_read_bind.mp run
  obtain ⟨effects, -, run⟩ := StoreM.run_read_bind.mp run
  obtain ⟨paramType, _, -, g₁, run⟩ := StoreM.run_stage run
  obtain ⟨params, -, run⟩ := StoreM.run_read_bind.mp run
  obtain ⟨_, -, run⟩ := StoreM.run_lift_bind.mp run
  obtain ⟨signature, _, put, g₂, run⟩ := StoreM.run_stage run
  obtain ⟨targetName, -, run⟩ := StoreM.run_lift_bind.mp run
  obtain ⟨targetBody, -, run⟩ := StoreM.run_lift_bind.mp run
  obtain ⟨typedBody, _, -, g₃, run⟩ := StoreM.run_stage run
  obtain ⟨definition, s₄, -, g₄, run⟩ := StoreM.run_stage run
  -- the callers are rewritten only where there is a default, which keeps the outline
  have patched : ∃ patched s₅, Grows P s₄ s₅ ∧ SameOutline (updateSymbol (upsertParamNames
      (updateSymbol root entry.symbol fun e => { e with signature := signature }) entry.symbol
        (paramNames root entry.symbol ++ [param.name])) entry.symbol fun e =>
          { e with definition := definition }) patched ∧
      (putCheckedRoot El patched (some "added parameter invalidates existing root")).run s₅ =
        .ok (newRoot, after) := by
    cases default with
    | some default =>
      obtain ⟨patched, s₅, patch, g, run⟩ := StoreM.run_stage run
      exact ⟨patched, s₅, g, patchCallers_ok patch, run⟩
    | none => exact ⟨_, s₄, Grows.refl _, SameOutline.refl _, run⟩
  obtain ⟨patched, s₅, g₅, same, run⟩ := patched
  have arity := (inv.draft.paramNames_fit mem).arity _ _ parts
  -- the new signature takes one parameter more, and so do the names
  have lengths : (oldTypes ++ [paramType]).length =
      (paramNames root entry.symbol ++ [param.name]).length := by simp [arity]
  have fits := putSignature_arity reliable reads (g₁.addressed addressed) put
  rw [lengths] at fits
  have g := g₁.trans (g₂.trans (g₃.trans (g₄.trans g₅)))
  have draft : Draft P _ (upsertParamNames (updateSymbol root entry.symbol fun e =>
      { e with signature := signature }) entry.symbol (paramNames root entry.symbol ++
        [param.name])) :=
    (inv.draft.grow g).changeSignature (fun _ => rfl) (fun _ => rfl) inv.symbols
      (List.mem_map_of_mem mem) (fits.grow (g₃.trans (g₄.trans g₅)))
  exact Draft.checked El reliable reads (g.addressed addressed) run
    (draft.of_sameOutline (SameOutline.updateDefinition.trans same))

omit addressed holds in
/-- A region is added to a signature without a change of its parameters. -/
theorem ensureFunctionSignatureRegion_ok {root root' : ProgramRootPayload} {symbol : Hash}
    {module region : String} {before after : Objects} (addressed : Addressed P before)
    (draft : Draft P before root) (distinct : (symbolsOf root).Nodup)
    (run : (ensureFunctionSignatureRegion El root symbol module region).run before =
      .ok (root', after)) : Draft P after root' ∧ symbolsOf root' = symbolsOf root := by
  obtain ⟨entry, found, run⟩ := StoreM.run_lift_bind.mp run
  obtain ⟨mem, rfl⟩ := rootSymbolEntry_ok found
  obtain ⟨oldRegions, -, run⟩ := StoreM.run_read_bind.mp run
  split_ifs at run
  · obtain ⟨rfl, rfl⟩ := StoreM.run_pure_iff.mp run
    exact ⟨draft, rfl⟩
  obtain ⟨regionParams, _, -, g₁, run⟩ := StoreM.run_stage run
  obtain ⟨⟨paramTypes, returnType⟩, parts, run⟩ := StoreM.run_read_bind.mp run
  obtain ⟨effects, -, run⟩ := StoreM.run_read_bind.mp run
  obtain ⟨signature, _, put, g₂, run⟩ := StoreM.run_stage run
  obtain ⟨params, -, run⟩ := StoreM.run_read_bind.mp run
  obtain ⟨_, -, run⟩ := StoreM.run_lift_bind.mp run
  obtain ⟨rfl, rfl⟩ := StoreM.run_pure_iff.mp run
  refine ⟨(draft.grow (g₁.trans g₂)).resign distinct fun p hp owner => ?_,
    List.map_updateFirst fun _ _ _ => rfl⟩
  rw [← ((draft.grow g₁).arity p hp entry mem owner.symm).arity _ _ parts]
  exact putSignature_arity reliable reads (g₁.addressed addressed) put

omit addressed holds in
/-- Converting callers gives them other definitions, and regions. -/
theorem convertCallers_ok {oldRoot root root' : ProgramRootPayload} {symbol : Hash}
    {paramIndex : ℕ} {region : String} {isMutable : Bool} {callers : List Hash}
    {before after : Objects} (addressed : Addressed P before) (draft : Draft P before root)
    (distinct : (symbolsOf root).Nodup)
    (run : (convertCallers El oldRoot symbol paramIndex region isMutable callers root).run before =
      .ok (root', after)) : Draft P after root' := by
  induction callers generalizing root before with
  | nil =>
    obtain ⟨rfl, rfl⟩ := StoreM.run_pure_iff.mp run
    exact draft
  | cons caller callers ih =>
    obtain ⟨entry, -, run⟩ := StoreM.run_lift_bind.mp run
    obtain ⟨external, -, run⟩ := StoreM.run_read_bind.mp run
    split at run
    · exact ih addressed draft distinct run
    split at run
    · exact (StoreM.run_fail.mp run).elim
    obtain ⟨module, -, run⟩ := StoreM.run_lift_bind.mp run
    extract_lets rest at run
    have step : ∀ {root₁ s₁}, Grows P before s₁ → Draft P s₁ root₁ → (symbolsOf root₁).Nodup →
        (rest root₁).run s₁ = .ok (root', after) → Draft P after root' := by
      intro root₁ s₁ g draft distinct run
      obtain ⟨entry, -, run⟩ := StoreM.run_lift_bind.mp run
      obtain ⟨regionParams, -, run⟩ := StoreM.run_read_bind.mp run
      obtain ⟨oldBody, -, run⟩ := StoreM.run_read_bind.mp run
      obtain ⟨targetName, -, run⟩ := StoreM.run_lift_bind.mp run
      obtain ⟨patchedBody, -, run⟩ := StoreM.run_lift_bind.mp run
      obtain ⟨⟨paramTypes, returnType⟩, -, run⟩ := StoreM.run_read_bind.mp run
      obtain ⟨typedBody, _, -, g₁, run⟩ := StoreM.run_stage run
      obtain ⟨definition, _, -, g₂, run⟩ := StoreM.run_stage run
      refine ih ((g.trans (g₁.trans g₂)).addressed addressed)
        ((draft.grow (g₁.trans g₂)).of_sameOutline SameOutline.updateDefinition) ?_ run
      rw [SameOutline.updateDefinition.symbolsOf_eq]
      exact distinct
    split_ifs at run
    · obtain ⟨root₁, s₁, ensure, g, run⟩ := StoreM.run_stage run
      obtain ⟨draft, same⟩ := ensureFunctionSignatureRegion_ok reliable reads addressed draft
        distinct ensure
      exact step g draft (same ▸ distinct) run
    · exact step (Grows.refl _) draft distinct run

theorem applyConvertParamToReference_holds {module : String} {symbol : Hash} {name : String}
    {paramIndex : ℕ} {paramName region : String} {isMutable : Bool}
    (run : (applyConvertParamToReference El inputRoot module symbol name paramIndex paramName region
      isMutable).run before = .ok (newRoot, after)) : Holds El after newRoot := by
  obtain ⟨_, -, run⟩ := StoreM.run_lift_bind.mp run
  obtain ⟨root, load, run⟩ := StoreM.run_read_bind.mp run
  obtain ⟨_, -, run⟩ := StoreM.run_lift_bind.mp run
  obtain ⟨callers, -, run⟩ := StoreM.run_read_bind.mp run
  obtain ⟨entry, found, run⟩ := StoreM.run_lift_bind.mp run
  obtain ⟨mem, rfl⟩ := rootSymbolEntry_ok found
  obtain ⟨external, -, run⟩ := StoreM.run_read_bind.mp run
  split at run
  · exact (StoreM.run_fail.mp run).elim
  obtain ⟨⟨oldTypes, returnType⟩, parts, run⟩ := StoreM.run_read_bind.mp run
  obtain ⟨effects, -, run⟩ := StoreM.run_read_bind.mp run
  dsimp only at run
  split at run
  · exact (StoreM.run_fail.mp run).elim
  · exact (StoreM.run_fail.mp run).elim
  split at run
  · exact (StoreM.run_fail.mp run).elim
  obtain ⟨reference, -, run⟩ := StoreM.run_read_bind.mp run
  split at run
  · exact (StoreM.run_fail.mp run).elim
  obtain ⟨oldRegions, -, run⟩ := StoreM.run_read_bind.mp run
  obtain ⟨regionParams, _, -, g₁, run⟩ := StoreM.run_stage run
  obtain ⟨referent, -, run⟩ := StoreM.run_read_bind.mp run
  obtain ⟨referenceType, _, -, g₂, run⟩ := StoreM.run_stage run
  obtain ⟨signature, _, put, g₃, run⟩ := StoreM.run_stage run
  obtain ⟨converted, _, convert, g₄, run⟩ := StoreM.run_stage run
  have inv := holds.loaded load
  have fits := putSignature_arity reliable reads ((g₁.trans g₂).addressed addressed) put
  rw [List.length_set, (inv.draft.paramNames_fit mem).arity _ _ parts] at fits
  have g := (g₁.trans g₂).trans g₃
  have draft : Draft P _ (upsertParamNames (updateSymbol root entry.symbol fun e =>
      { e with signature := signature }) entry.symbol (paramNames root entry.symbol)) :=
    (inv.draft.grow g).changeSignature (fun _ => rfl) (fun _ => rfl) inv.symbols
      (List.mem_map_of_mem mem) fits
  have distinct : (symbolsOf (upsertParamNames (updateSymbol root entry.symbol fun e =>
      { e with signature := signature }) entry.symbol (paramNames root entry.symbol))).Nodup := by
    rw [symbolsOf_changeSignature]
    exact inv.symbols
  exact Draft.checked El reliable reads ((g.trans g₄).addressed addressed) run
    (convertCallers_ok reliable reads (g.addressed addressed) draft distinct convert)

end Operations

end CodeDb

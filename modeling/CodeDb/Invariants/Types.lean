import CodeDb.Invariants.Names

/-!
# Operations on types keep the invariant

Changing the members of a type keeps the invariant. Creating types keeps it if the
symbols they are born with are new: nothing in the operations checks that.

## Main definitions

* `mintedTypes` — the symbols a clique of types is born with

## Main results

* `applyCreateType_holds`, `applyCreateTypeGroup_holds`
* `applyAddMember_holds`, `applyRenameMember_holds`, `applyRemoveMember_holds`
-/

namespace CodeDb

variable {P : Primitives} {El : Elaborator P} {before after : Objects}

/-! ### Definitions of types -/

theorem updateTypeDefinition_ok {root root' : ProgramRootPayload} {typeSymbol : Hash}
    {definition : TypeDefinition}
    (run : (updateTypeDefinition root typeSymbol definition : StoreM P _).run before =
      .ok (root', after)) : SameOutline root root' := by
  obtain ⟨_, -, run⟩ := StoreM.run_lift_bind.mp run
  obtain ⟨typeDef, _, -, run⟩ := StoreM.run_bind.mp run
  obtain ⟨rfl, -⟩ := StoreM.run_pure_iff.mp run
  exact SameOutline.updateTypeDef

/-- A type is born with the symbol of its birth. -/
theorem putTypeBirth_ok {parent : Option Hash} {birthSeed : String}
    {identity : Option TypeDefinitionIdentity} {typeSymbol : Hash}
    (run : (putTypeBirth parent birthSeed identity : StoreM P _).run before =
      .ok (typeSymbol, after)) :
    typeSymbol = symbolOfBirth P (typeBirth parent birthSeed identity) := by
  cases identity with
  | none => exact (StoreM.run_put.mp run).1
  | some identity =>
    simp only [putTypeBirth, putSymbolBirthSpec] at run
    split_ifs at run
    · exact (StoreM.run_fail.mp run).elim
    · split at run
      · split_ifs at run
        · exact (StoreM.run_put.mp run).1
        · exact (StoreM.run_fail.mp run).elim
      · exact (StoreM.run_fail.mp run).elim
      · exact (StoreM.run_fail.mp run).elim
      · exact (StoreM.run_put.mp run).1

/-! ### Cliques of types -/

/-- The symbols a clique of types is born with. -/
def mintedTypes (P : Primitives) (parentHistoryHash : Option Hash) :
    Nat → List TypeGroupMemberSpec → List Hash
  | _, [] => []
  | ordinal, member :: rest =>
    symbolOfBirth P (typeBirth parentHistoryHash (typeGroupBirthSeed ordinal) member.identity) ::
      mintedTypes P parentHistoryHash (ordinal + 1) rest

theorem typeNameTaken_addType {root : ProgramRootPayload} {module name name' : String}
    {typeSymbol typeDef : Hash} :
    typeNameTaken (addType root module name typeSymbol typeDef) module name' ↔
      typeNameTaken root module name' ∨ name = name' := by
  simp [typeNameTaken, addType]

/-- The members of a clique of types have distinct names, which are free. -/
theorem validateTypeGroup_ok {root : ProgramRootPayload} {module : String}
    {members : List TypeGroupMemberSpec} {seen : List String} {u : Unit}
    (run : validateTypeGroup root module members seen = .ok u) :
    (members.map (·.name)).Nodup ∧
      ∀ m ∈ members, m.name ∉ seen ∧ ¬ typeNameTaken root module m.name := by
  induction members generalizing seen with
  | nil => simp
  | cons m members ih =>
    obtain ⟨_, -, run⟩ := Except.bind_eq_ok.mp run
    obtain ⟨_, -, run⟩ := Except.bind_eq_ok.mp run
    obtain ⟨_, -, run⟩ := Except.bind_eq_ok.mp run
    split_ifs at run with again taken
    obtain ⟨distinct, rest⟩ := ih run
    refine ⟨List.nodup_cons.mpr ⟨fun mem => ?_, distinct⟩, ?_⟩
    · obtain ⟨other, hother, same⟩ := List.mem_map.mp mem
      exact (rest other hother).1 (same ▸ List.mem_cons_self)
    · refine List.forall_mem_cons.mpr ⟨⟨by simpa using again, taken⟩, fun other hother => ?_⟩
      exact ⟨fun mem => (rest other hother).1 (List.mem_cons_of_mem _ mem), (rest other hother).2⟩

/-- Types that are registered under free names and with new symbols. -/
theorem registerTypes_ok {root root' : ProgramRootPayload} {parent : Option Hash}
    {module : String} {ordinal : Nat} {members : List TypeGroupMemberSpec}
    {pending : List PendingType}
    (run : (registerTypes parent module ordinal members root : StoreM P _).run before =
      .ok ((pending, root'), after)) (draft : Draft P before root)
    (minted : (typeSymbolsOf root ++ mintedTypes P parent ordinal members).Nodup)
    (distinct : (members.map (·.name)).Nodup)
    (free : ∀ m ∈ members, ¬ typeNameTaken root module m.name) : Draft P after root' := by
  induction members generalizing ordinal root root' pending before with
  | nil =>
    obtain ⟨same, rfl⟩ := StoreM.run_pure_iff.mp run
    obtain ⟨-, rfl⟩ := Prod.mk.inj same
    exact draft
  | cons m members ih =>
    obtain ⟨typeSymbol, _, birth, g₁, run⟩ := StoreM.run_stage run
    obtain ⟨regionParams, _, -, g₂, run⟩ := StoreM.run_stage run
    obtain ⟨placeholder, _, -, g₃, run⟩ := StoreM.run_stage run
    obtain ⟨⟨pending', root''⟩, _, rest, -, run⟩ := StoreM.run_stage run
    obtain ⟨same, rfl⟩ := StoreM.run_pure_iff.mp run
    obtain ⟨-, rfl⟩ := Prod.mk.inj same
    obtain rfl := putTypeBirth_ok birth
    simp only [mintedTypes] at minted
    obtain ⟨freshName, distinct⟩ := List.nodup_cons.mp distinct
    have fresh : symbolOfBirth P (typeBirth parent (typeGroupBirthSeed ordinal) m.identity) ∉
        typeSymbolsOf root := fun mem =>
      (List.nodup_append.mp minted).2.2 _ mem _ List.mem_cons_self rfl
    refine ih rest ((draft.grow (g₁.trans (g₂.trans g₃))).addType placeholder
      (free m List.mem_cons_self) fresh) ?_ distinct fun other hother => ?_
    · simpa [typeSymbolsOf, addType] using minted
    · rw [typeNameTaken_addType]
      rintro (taken | same)
      · exact free other (List.mem_cons_of_mem _ hother) taken
      · exact freshName (List.mem_map.mpr ⟨other, hother, same.symm⟩)

theorem defineTypes_ok {root root' : ProgramRootPayload} {parent : Option Hash} {module : String}
    {pending : List PendingType}
    (run : (defineTypes El parent module pending root).run before = .ok (root', after)) :
    SameOutline root root' := by
  induction pending generalizing root before with
  | nil =>
    obtain ⟨rfl, -⟩ := StoreM.run_pure_iff.mp run
    rfl
  | cons p pending ih =>
    obtain ⟨semantic, _, -, run⟩ := StoreM.run_bind.mp run
    obtain ⟨defined, _, define, run⟩ := StoreM.run_bind.mp run
    exact (updateTypeDefinition_ok define).trans (ih run)

/-! ### Bodies of functions -/

/-- Rewriting bodies changes definitions only. -/
theorem rewriteBodies_ok {oldRoot root root' : ProgramRootPayload} {rename : MemberRename}
    {entries : List (Nat × RootSymbolPayload)}
    (run : (rewriteBodies El oldRoot rename entries root).run before = .ok (root', after)) :
    SameOutline root root' := by
  induction entries generalizing root before with
  | nil =>
    obtain ⟨rfl, -⟩ := StoreM.run_pure_iff.mp run
    rfl
  | cons head entries ih =>
    obtain ⟨idx, entry⟩ := head
    unfold rewriteBodies at run
    split at run
    · exact ih run
    obtain ⟨external, -, run⟩ := StoreM.run_read_bind.mp run
    split_ifs at run
    · exact ih run
    obtain ⟨⟨paramTypes, returnType⟩, -, run⟩ := StoreM.run_read_bind.mp run
    obtain ⟨_, -, run⟩ := StoreM.run_read_bind.mp run
    obtain ⟨_, -, run⟩ := StoreM.run_lift_bind.mp run
    obtain ⟨_, -, run⟩ := StoreM.run_read_bind.mp run
    obtain ⟨_, -, run⟩ := StoreM.run_read_bind.mp run
    obtain ⟨typed, _, -, run⟩ := StoreM.run_bind.mp run
    obtain ⟨assignable, -, run⟩ := StoreM.run_read_bind.mp run
    split_ifs at run
    · obtain ⟨_, -, run⟩ := StoreM.run_lift_bind.mp run
      obtain ⟨_, -, run⟩ := StoreM.run_read_bind.mp run
      obtain ⟨_, -, run⟩ := StoreM.run_read_bind.mp run
      exact (StoreM.run_fail.mp run).elim
    · obtain ⟨definition, _, -, run⟩ := StoreM.run_bind.mp run
      exact SameOutline.modifyDefinition.trans (ih run)

/-! ### The operations -/

section

variable (reliable : P.Reliable) (reads : P.ReadsText) (addressed : Addressed P before)
  {inputRoot newRoot : Hash} (holds : Holds El before inputRoot)
include reliable reads addressed holds

theorem applyCreateType_holds {parent : Option Hash} {module name birthSeed : String}
    {regionParamNames typeParamNames : List String} {definition : TypeDefinitionKind}
    {identity : Option TypeDefinitionIdentity}
    (new : ∀ root, loadRoot P before inputRoot = .ok root →
      symbolOfBirth P (typeBirth parent birthSeed identity) ∉ typeSymbolsOf root)
    (run : (applyCreateType El inputRoot parent module name birthSeed regionParamNames
      typeParamNames definition identity).run before = .ok (newRoot, after)) :
    Holds El after newRoot := by
  obtain ⟨_, -, run⟩ := StoreM.run_lift_bind.mp run
  obtain ⟨_, -, run⟩ := StoreM.run_lift_bind.mp run
  obtain ⟨_, -, run⟩ := StoreM.run_lift_bind.mp run
  obtain ⟨_, -, run⟩ := StoreM.run_lift_bind.mp run
  obtain ⟨_, -, run⟩ := StoreM.run_lift_bind.mp run
  obtain ⟨root, load, run⟩ := StoreM.run_read_bind.mp run
  split_ifs at run with taken
  · exact (StoreM.run_fail.mp run).elim
  obtain ⟨typeSymbol, _, birth, g₁, run⟩ := StoreM.run_stage run
  obtain rfl := putTypeBirth_ok birth
  obtain ⟨regionParams, _, -, g₂, run⟩ := StoreM.run_stage run
  obtain ⟨placeholder, _, -, g₃, run⟩ := StoreM.run_stage run
  obtain ⟨semantic, _, -, g₄, run⟩ := StoreM.run_stage run
  obtain ⟨defined, _, define, g₅, run⟩ := StoreM.run_stage run
  have grows := g₁.trans (g₂.trans (g₃.trans (g₄.trans g₅)))
  have draft := ((holds.loaded load).draft.grow grows).addType placeholder taken (new root load)
  exact Draft.checked El reliable reads (grows.addressed addressed) run
    (draft.of_sameOutline
      ((updateTypeDefinition_ok define).trans SameOutline.synchronizeUnlessMain))

theorem applyCreateTypeGroup_holds {parent : Option Hash} {module : String}
    {members : List TypeGroupMemberSpec}
    (new : ∀ root, loadRoot P before inputRoot = .ok root →
      (typeSymbolsOf root ++ mintedTypes P parent 0 members).Nodup)
    (run : (applyCreateTypeGroup El inputRoot parent module members).run before =
      .ok (newRoot, after)) : Holds El after newRoot := by
  obtain ⟨_, -, run⟩ := StoreM.run_lift_bind.mp run
  split_ifs at run
  · exact (StoreM.run_fail.mp run).elim
  obtain ⟨root, load, run⟩ := StoreM.run_read_bind.mp run
  obtain ⟨_, valid, run⟩ := StoreM.run_lift_bind.mp run
  obtain ⟨⟨pending, registered⟩, _, register, g₁, run⟩ := StoreM.run_stage run
  obtain ⟨defined, _, define, g₂, run⟩ := StoreM.run_stage run
  obtain ⟨group, _, -, g₃, run⟩ := StoreM.run_stage run
  obtain ⟨distinct, free⟩ := validateTypeGroup_ok valid
  have draft := registerTypes_ok register (holds.loaded load).draft (new root load) distinct
    fun m hm => (free m hm).2
  have grows := g₂.trans g₃
  have same : SameOutline defined
      { defined with typeRecursionGroups := defined.typeRecursionGroups ++ [group] } :=
    ⟨rfl, rfl, rfl, rfl, rfl⟩
  exact Draft.checked El reliable reads ((g₁.trans grows).addressed addressed) run
    ((draft.grow grows).of_sameOutline
      ((defineTypes_ok define).trans (same.trans SameOutline.synchronizeUnlessMain)))

theorem applyAddMember_holds {sort : MemberSort} {parent : Option Hash} {module : String}
    {typeSymbol : Hash} {typeName : String} {member : TypeMemberSpec} {birthSeed : String}
    (run : (applyAddMember El sort inputRoot parent module typeSymbol typeName member
      birthSeed).run before = .ok (newRoot, after)) : Holds El after newRoot := by
  obtain ⟨_, -, run⟩ := StoreM.run_lift_bind.mp run
  obtain ⟨root, load, run⟩ := StoreM.run_read_bind.mp run
  obtain ⟨_, -, run⟩ := StoreM.run_lift_bind.mp run
  obtain ⟨definition, -, run⟩ := StoreM.run_read_bind.mp run
  split at run
  · exact (StoreM.run_fail.mp run).elim
  split_ifs at run
  · exact (StoreM.run_fail.mp run).elim
  obtain ⟨memberSymbol, _, -, g₁, run⟩ := StoreM.run_stage run
  obtain ⟨typeHash, _, -, g₂, run⟩ := StoreM.run_stage run
  obtain ⟨updated, _, update, g₃, run⟩ := StoreM.run_stage run
  have grows := g₁.trans (g₂.trans g₃)
  exact Draft.checked El reliable reads (grows.addressed addressed) run
    (((holds.loaded load).draft.grow grows).of_sameOutline (updateTypeDefinition_ok update))

theorem applyRenameMember_holds {sort : MemberSort} {module : String} {typeSymbol : Hash}
    {typeName : String} {memberSymbol : Hash} {oldName newName : String}
    (run : (applyRenameMember El sort inputRoot module typeSymbol typeName memberSymbol oldName
      newName).run before = .ok (newRoot, after)) : Holds El after newRoot := by
  obtain ⟨_, -, run⟩ := StoreM.run_lift_bind.mp run
  obtain ⟨root, load, run⟩ := StoreM.run_read_bind.mp run
  obtain ⟨_, -, run⟩ := StoreM.run_lift_bind.mp run
  obtain ⟨definition, -, run⟩ := StoreM.run_read_bind.mp run
  split at run
  · exact (StoreM.run_fail.mp run).elim
  split_ifs at run
  · exact (StoreM.run_fail.mp run).elim
  · exact (StoreM.run_fail.mp run).elim
  obtain ⟨updated, _, update, g₁, run⟩ := StoreM.run_stage run
  obtain ⟨rewritten, _, rewrite, g₂, run⟩ := StoreM.run_stage run
  have grows := g₁.trans g₂
  exact Draft.checked El reliable reads (grows.addressed addressed) run
    (((holds.loaded load).draft.grow grows).of_sameOutline
      ((updateTypeDefinition_ok update).trans (rewriteBodies_ok rewrite)))

theorem applyRemoveMember_holds {sort : MemberSort} {module : String} {typeSymbol : Hash}
    {typeName : String} {memberSymbol : Hash} {name : String}
    (run : (applyRemoveMember El sort inputRoot module typeSymbol typeName memberSymbol
      name).run before = .ok (newRoot, after)) : Holds El after newRoot := by
  obtain ⟨root, load, run⟩ := StoreM.run_read_bind.mp run
  obtain ⟨_, -, run⟩ := StoreM.run_lift_bind.mp run
  obtain ⟨definition, -, run⟩ := StoreM.run_read_bind.mp run
  split at run
  · exact (StoreM.run_fail.mp run).elim
  dsimp only at run
  split_ifs at run
  · exact (StoreM.run_fail.mp run).elim
  obtain ⟨updated, _, update, grows, run⟩ := StoreM.run_stage run
  exact Draft.checked El reliable reads (grows.addressed addressed) run
    (((holds.loaded load).draft.grow grows).of_sameOutline (updateTypeDefinition_ok update))

end

end CodeDb

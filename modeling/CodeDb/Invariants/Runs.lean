import CodeDb.Invariants.Functions

/-!
# Runs of operations

A root is reached from the empty one by operations that succeed, each on top of any
history point, while other objects are stored in between. Every root reached is
well formed, as long as types are born with new symbols and the roots that merges
bring along are drafts.

## Main definitions

* `ReachableRoot` — the roots that operations lead to
* `Careful` — the types an operation creates are new, and the root it merges a draft

## Main results

* `applyOperationToRoot_holds` — a careful operation keeps the invariant
* `careful_wellFormed` — every root that careful operations lead to is well formed
-/

namespace CodeDb

variable {P : Primitives} {El : Elaborator P}

/-- What the operations do not check themselves: that the types they create are
born with new symbols, and that the root of a merge is a draft once its objects are
stored. -/
def Careful (El : Elaborator P) (objects : Objects) (inputRoot : Hash)
    (parentHistoryHash : Option Hash) : Operation El → Prop
  | .createType _ _ birthSeed _ _ _ identity =>
    ∀ root, loadRoot P objects inputRoot = .ok root →
      symbolOfBirth P (typeBirth parentHistoryHash birthSeed identity) ∉ typeSymbolsOf root
  | .createTypeGroup _ members =>
    ∀ root, loadRoot P objects inputRoot = .ok root →
      (typeSymbolsOf root ++ mintedTypes P parentHistoryHash 0 members).Nodup
  | .mergeBranch merge =>
    ∀ units stored,
      (StoreM.each (putMergeObject (P := P)) merge.objectPayloads).run objects =
      .ok (units, stored) →
      Draft P stored merge.mergedRoot
  | _ => True

section

variable (reliable : P.Reliable) (reads : P.ReadsText) {before after : Objects}
  (addressed : Addressed P before) {inputRoot newRoot : Hash} (holds : Holds El before inputRoot)
include reliable reads addressed

/-- The root of a merge meets the invariant if it is a draft. -/
theorem applyMergeBranch_holds {sourceRootHash : Hash} {mergedRoot : ProgramRootPayload}
    {payloads : List MergeObjectPayload}
    (merged : ∀ units stored,
      (StoreM.each putMergeObject payloads : StoreM P _).run before = .ok (units, stored) →
      Draft P stored mergedRoot)
    (run : (applyMergeBranch El inputRoot sourceRootHash mergedRoot payloads).run before =
      .ok (newRoot, after)) : Holds El after newRoot := by
  obtain ⟨_, -, run⟩ := StoreM.run_read_bind.mp run
  obtain ⟨_, _, put, g₁, run⟩ := StoreM.run_stage run
  obtain ⟨_, _, -, g₂, run⟩ := StoreM.run_stage run
  obtain ⟨_, -, run⟩ := StoreM.run_read_bind.mp run
  exact Draft.checked El reliable reads ((g₁.trans g₂).addressed addressed) run
    ((merged _ _ put).grow g₂)

include holds

/-- A careful operation leads from a root that meets the invariant to one that does. -/
theorem applyOperationToRoot_holds {parent : Option Hash} {op : Operation El}
    (careful : Careful El before inputRoot parent op)
    (run : (applyOperationToRoot El inputRoot parent op).run before = .ok (newRoot, after)) :
    Holds El after newRoot := by
  cases op with
  | createFunction => exact applyCreateFunction_holds reliable reads addressed holds run
  | createExternalFunction =>
    exact applyCreateExternalFunction_holds reliable reads addressed holds run
  | createRecursionGroup => exact applyCreateRecursionGroup_holds reliable reads addressed holds run
  | createTypeGroup => exact applyCreateTypeGroup_holds reliable reads addressed holds careful run
  | createType => exact applyCreateType_holds reliable reads addressed holds careful run
  | renameType => exact applyRenameType_holds reliable reads addressed holds run
  | moveType => exact applyMoveType_holds reliable reads addressed holds run
  | addField => exact applyAddMember_holds reliable reads addressed holds run
  | renameField => exact applyRenameMember_holds reliable reads addressed holds run
  | removeField => exact applyRemoveMember_holds reliable reads addressed holds run
  | addVariant => exact applyAddMember_holds reliable reads addressed holds run
  | renameVariant => exact applyRenameMember_holds reliable reads addressed holds run
  | removeVariant => exact applyRemoveMember_holds reliable reads addressed holds run
  | renameSymbol => exact applyRenameSymbol_holds reliable reads addressed holds run
  | moveSymbol => exact applyMoveSymbol_holds reliable reads addressed holds run
  | replaceFunctionBody => exact applyReplaceBody_holds reliable reads addressed holds run
  | changeFunctionSignature => exact applyChangeSignature_holds reliable reads addressed holds run
  | addParameter => exact applyAddParameter_holds reliable reads addressed holds run
  | convertParamToReference =>
    exact applyConvertParamToReference_holds reliable reads addressed holds run
  | deleteSymbol => exact applyDeleteSymbol_holds reliable reads addressed holds run
  | createAlias => exact applyCreateAlias_holds reliable reads addressed holds run
  | removeAlias => exact applyRemoveAlias_holds reliable reads addressed holds run
  | setExport => exact applySetExport_holds reliable reads addressed holds run
  | removeExport => exact applyRemoveExport_holds reliable reads addressed holds run
  | createTest => exact applyCreateTest_holds reliable reads addressed holds run
  | deleteTest => exact applyDeleteTest_holds reliable reads addressed holds run
  | mergeBranch => exact applyMergeBranch_holds reliable reads addressed careful run

end

/-! ### Runs -/

/-- The roots that operations lead to from the empty one, each of which meets a
condition, with the store they are in. A store may grow at any time. -/
inductive ReachableRoot (El : Elaborator P)
    (condition : Objects → Hash → Option Hash → Operation El → Prop) : Objects → Hash → Prop
  | empty {before after : Objects} {root : Hash} : Addressed P before →
      (putIndexedRoot El .empty).run before = .ok (root, after) →
      ReachableRoot El condition after root
  | grow {before after : Objects} {root : Hash} : ReachableRoot El condition before root →
      Grows P before after → ReachableRoot El condition after root
  | apply {before after : Objects} {root newRoot : Hash} {parent : Option Hash}
      {op : Operation El} : ReachableRoot El condition before root →
      condition before root parent op →
      (applyOperationToRoot El root parent op).run before = .ok (newRoot, after) →
      ReachableRoot El condition after newRoot

/-- What operations lead to under a condition they lead to under a weaker one. -/
theorem ReachableRoot.mono {condition weaker : Objects → Hash → Option Hash → Operation El → Prop}
    (implies : ∀ {objects root parent op}, condition objects root parent op →
      weaker objects root parent op) {objects : Objects} {root : Hash}
    (reach : ReachableRoot El condition objects root) : ReachableRoot El weaker objects root := by
  induction reach with
  | empty addressed run => exact .empty addressed run
  | grow _ grows ih => exact .grow ih grows
  | apply _ meets run ih => exact .apply ih (implies meets) run

theorem Draft.empty {objects : Objects} : Draft P objects .empty where
  types := List.nodup_nil
  names := .nil
  typeNames := .nil
  namesListed := nofun
  typeNamesListed := nofun
  aligned := List.Perm.refl _
  arity := nofun

theorem Invariant.empty {objects : Objects} : Invariant El objects .empty where
  draft := .empty
  symbols := List.nodup_nil
  exportsListed := nofun
  testsListed := nofun
  signaturesRead := nofun

/-- A root that careful operations lead to meets the invariant. -/
theorem ReachableRoot.holds (reliable : P.Reliable) (reads : P.ReadsText) {objects : Objects}
    {root : Hash} (reach : ReachableRoot El (Careful El) objects root) :
    Addressed P objects ∧ Holds El objects root := by
  induction reach with
  | empty addressed run =>
    exact ⟨((putIndexedRoot El .empty).grows run).addressed addressed,
      Invariant.empty.indexed reliable reads addressed run Draft.empty rfl rfl⟩
  | grow _ grows ih => exact ⟨grows.addressed ih.1, ih.2.grow grows⟩
  | apply _ careful run ih =>
    exact ⟨((applyOperationToRoot El _ _ _).grows run).addressed ih.1,
      applyOperationToRoot_holds reliable reads ih.1 ih.2 careful run⟩

/-- Every root that operations lead to is well formed, as long as they create types
with new symbols and merge roots that are drafts. -/
theorem careful_wellFormed (reliable : P.Reliable) (reads : P.ReadsText) {objects : Objects}
    {root : Hash} (reach : ReachableRoot El (Careful El) objects root) :
    ∃ loaded, loadRoot P objects root = .ok loaded ∧ WellFormed El objects loaded := by
  obtain ⟨-, loaded, load, inv⟩ := reach.holds reliable reads
  exact ⟨loaded, load, inv.wellFormed⟩

end CodeDb

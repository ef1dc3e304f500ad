import CodeDb.Invariants.Edits

/-!
# Operations on names keep the invariant

Renaming and moving, aliases, exports, tests, deletion: what each of them stores
is a draft if it started from a root that meets the invariant.
-/

namespace CodeDb

open SortOn

variable {P : Primitives} {El : Elaborator P}

section

variable (reliable : P.Reliable) (reads : P.ReadsText) {before after : Objects}
  (addressed : Addressed P before) {inputRoot newRoot : Hash} (holds : Holds El before inputRoot)

omit reliable reads addressed in
/-- The root an operation loads meets the invariant. -/
theorem Holds.loaded {root : ProgramRootPayload} (holds : Holds El before inputRoot)
    (load : loadRoot P before inputRoot = .ok root) : Invariant El before root := by
  obtain ⟨root', load', inv⟩ := holds
  obtain rfl := Except.ok.inj (load.symm.trans load')
  exact inv

/-! ### Renaming and moving -/

include reliable reads addressed holds

theorem applyRenameSymbol_holds {module : String} {symbol : Hash} {oldName newName : String}
    (run : (applyRenameSymbol El inputRoot module symbol oldName newName).run before =
      .ok (newRoot, after)) : Holds El after newRoot := by
  obtain ⟨_, -, run⟩ := StoreM.run_lift_bind.mp run
  obtain ⟨_, -, run⟩ := StoreM.run_lift_bind.mp run
  obtain ⟨root, load, run⟩ := StoreM.run_read_bind.mp run
  have inv := holds.loaded load
  split_ifs at run with taken points
  · exact (StoreM.run_fail.mp run).elim
  · exact (StoreM.run_fail.mp run).elim
  · refine inv.indexed reliable reads addressed run ?_ rfl rfl
    refine inv.draft.editNames ?_ fun b hb => ?_
    · have renamed := inv.draft.names.rename oldName symbol
        (Draft.free_of_nameTaken taken)
      convert renamed using 1
      rw [List.map_map, List.map_map]
      exact List.map_congr_left fun b _ => apply_ite NameBinding.entry _ _ _
    · obtain ⟨old, hold, rfl⟩ := List.mem_map.mp hb
      have listed := inv.draft.namesListed old hold
      split_ifs <;> exact listed

theorem applyRenameType_holds {module : String} {typeSymbol : Hash} {oldName newName : String}
    (run : (applyRenameType El inputRoot module typeSymbol oldName newName).run before =
      .ok (newRoot, after)) : Holds El after newRoot := by
  obtain ⟨_, -, run⟩ := StoreM.run_lift_bind.mp run
  obtain ⟨_, -, run⟩ := StoreM.run_lift_bind.mp run
  obtain ⟨root, load, run⟩ := StoreM.run_read_bind.mp run
  have inv := holds.loaded load
  split_ifs at run with taken points
  · exact (StoreM.run_fail.mp run).elim
  · exact (StoreM.run_fail.mp run).elim
  · refine inv.indexed reliable reads addressed run ?_ rfl rfl
    refine inv.draft.editTypeNames ?_ fun b hb => ?_
    · have renamed := inv.draft.typeNames.rename oldName typeSymbol
        (Draft.free_of_typeNameTaken taken)
      convert renamed using 1
      rw [List.map_map, List.map_map]
      exact List.map_congr_left fun b _ => apply_ite TypeNameBinding.entry _ _ _
    · obtain ⟨old, hold, rfl⟩ := List.mem_map.mp hb
      have listed := inv.draft.typeNamesListed old hold
      split_ifs <;> exact listed

theorem applyMoveSymbol_holds {module : String} {symbol : Hash} {name newModule : String}
    (run : (applyMoveSymbol El inputRoot module symbol name newModule).run before =
      .ok (newRoot, after)) : Holds El after newRoot := by
  obtain ⟨_, -, run⟩ := StoreM.run_lift_bind.mp run
  obtain ⟨_, -, run⟩ := StoreM.run_lift_bind.mp run
  obtain ⟨root, load, run⟩ := StoreM.run_read_bind.mp run
  have inv := holds.loaded load
  split_ifs at run with same points
  · obtain ⟨_, -, run⟩ := StoreM.run_lift_bind.mp run
    obtain ⟨rfl, rfl⟩ := StoreM.run_pure_iff.mp run
    exact holds
  · exact (StoreM.run_fail.mp run).elim
  · dsimp only at run
    split at run
    · exact (StoreM.run_fail.mp run).elim
    next free =>
    refine Draft.checked El reliable reads addressed run ?_
    refine Draft.of_sameOutline ?_ SameOutline.synchronizeModuleMetadata
    rw [Bool.not_eq_true, Bool.not_eq_false'] at points
    obtain ⟨known, listed, points⟩ := List.any_eq_true.mp points
    simp only [Bool.and_eq_true, beq_iff_eq] at points
    refine inv.draft.editNames ?_ fun b hb => ?_
    · exact movedBindings NameBinding.entry _ (fun b => apply_ite NameBinding.entry _ _ _)
        inv.draft.names listed points.1.2 points.1.1.1 free
    · obtain ⟨old, hold, rfl⟩ := List.mem_map.mp hb
      have listed := inv.draft.namesListed old hold
      split_ifs <;> exact listed

theorem applyMoveType_holds {module : String} {typeSymbol : Hash} {name newModule : String}
    (run : (applyMoveType El inputRoot module typeSymbol name newModule).run before =
      .ok (newRoot, after)) : Holds El after newRoot := by
  obtain ⟨_, -, run⟩ := StoreM.run_lift_bind.mp run
  obtain ⟨_, -, run⟩ := StoreM.run_lift_bind.mp run
  obtain ⟨root, load, run⟩ := StoreM.run_read_bind.mp run
  have inv := holds.loaded load
  split_ifs at run with same points
  · obtain ⟨_, -, run⟩ := StoreM.run_lift_bind.mp run
    obtain ⟨rfl, rfl⟩ := StoreM.run_pure_iff.mp run
    exact holds
  · exact (StoreM.run_fail.mp run).elim
  · dsimp only at run
    split at run
    · exact (StoreM.run_fail.mp run).elim
    next free =>
    refine Draft.checked El reliable reads addressed run ?_
    refine Draft.of_sameOutline ?_ SameOutline.synchronizeModuleMetadata
    rw [Bool.not_eq_true, Bool.not_eq_false'] at points
    obtain ⟨known, listed, points⟩ := List.any_eq_true.mp points
    simp only [Bool.and_eq_true, beq_iff_eq] at points
    refine inv.draft.editTypeNames ?_ fun b hb => ?_
    · exact movedBindings TypeNameBinding.entry _ (fun b => apply_ite TypeNameBinding.entry _ _ _)
        inv.draft.typeNames listed points.1.2 points.1.1.1 free
    · obtain ⟨old, hold, rfl⟩ := List.mem_map.mp hb
      have listed := inv.draft.typeNamesListed old hold
      split_ifs <;> exact listed

/-! ### Aliases and exports -/

omit reliable reads addressed holds in
/-- A name that points to a symbol is one of its bindings. -/
private theorem assertNamePoints_ok {root : ProgramRootPayload} {module name : String}
    {symbol : Hash} {u : Unit} (run : assertNamePoints root module name symbol = .ok u) :
    ∃ b ∈ root.names, b.module = module ∧ b.symbol = symbol := by
  unfold assertNamePoints at run
  split_ifs at run with points
  obtain ⟨b, hb, points⟩ := List.any_eq_true.mp points
  simp only [Bool.and_eq_true, beq_iff_eq] at points
  exact ⟨b, hb, points.1.1, points.2⟩

theorem applyCreateAlias_holds {module : String} {symbol : Hash} {name aliasName : String}
    (run : (applyCreateAlias El inputRoot module symbol name aliasName).run before =
      .ok (newRoot, after)) : Holds El after newRoot := by
  obtain ⟨_, -, run⟩ := StoreM.run_lift_bind.mp run
  obtain ⟨root, load, run⟩ := StoreM.run_read_bind.mp run
  obtain ⟨_, points, run⟩ := StoreM.run_lift_bind.mp run
  have inv := holds.loaded load
  split_ifs at run with taken
  · exact (StoreM.run_fail.mp run).elim
  · obtain ⟨known, listed, inModule, owned⟩ := assertNamePoints_ok points
    refine inv.indexed reliable reads addressed run ?_ rfl rfl
    refine inv.draft.editNames ?_ fun b hb => ?_
    · rw [List.map_append]
      exact inv.draft.names.addAlias (Draft.free_of_nameTaken taken) (List.mem_map_of_mem listed)
        owned inModule
    · rcases List.mem_append.mp hb with hb | hb
      · exact inv.draft.namesListed b hb
      · rw [List.mem_singleton.mp hb]
        exact owned ▸ inv.draft.namesListed known listed

theorem applyRemoveAlias_holds {module : String} {symbol : Hash} {name aliasName : String}
    (run : (applyRemoveAlias El inputRoot module symbol name aliasName).run before =
      .ok (newRoot, after)) : Holds El after newRoot := by
  obtain ⟨root, load, run⟩ := StoreM.run_read_bind.mp run
  obtain ⟨_, -, run⟩ := StoreM.run_lift_bind.mp run
  have inv := holds.loaded load
  dsimp only at run
  split_ifs at run
  · exact (StoreM.run_fail.mp run).elim
  · refine inv.indexed reliable reads addressed run ?_ rfl rfl
    refine inv.draft.editNames ?_ fun b hb => inv.draft.namesListed b (List.mem_of_mem_filter hb)
    have kept := inv.draft.names.filter (fun e =>
      !(e.place == module && e.name == aliasName && e.owner == symbol && !e.preferred))
      fun e _ _ p _ _ preferred => by simp [preferred]
    rwa [List.filter_map] at kept

theorem applySetExport_holds {module : String} {symbol : Hash} {name exportedName : String}
    (run : (applySetExport El inputRoot module symbol name exportedName).run before =
      .ok (newRoot, after)) : Holds El after newRoot := by
  obtain ⟨_, -, run⟩ := StoreM.run_lift_bind.mp run
  obtain ⟨root, load, run⟩ := StoreM.run_read_bind.mp run
  obtain ⟨_, -, run⟩ := StoreM.run_lift_bind.mp run
  have inv := holds.loaded load
  split_ifs at run
  · exact (StoreM.run_fail.mp run).elim
  · exact inv.indexed reliable reads addressed run
      (inv.draft.of_sameOutline ⟨rfl, rfl, rfl, rfl, rfl⟩) rfl rfl

theorem applyRemoveExport_holds {module : String} {symbol : Hash} {name exportedName : String}
    (run : (applyRemoveExport El inputRoot module symbol name exportedName).run before =
      .ok (newRoot, after)) : Holds El after newRoot := by
  obtain ⟨root, load, run⟩ := StoreM.run_read_bind.mp run
  obtain ⟨_, -, run⟩ := StoreM.run_lift_bind.mp run
  have inv := holds.loaded load
  dsimp only at run
  split_ifs at run
  · exact (StoreM.run_fail.mp run).elim
  · exact inv.indexed reliable reads addressed run
      (inv.draft.of_sameOutline ⟨rfl, rfl, rfl, rfl, rfl⟩) rfl rfl

/-! ### Deletion and tests -/

theorem applyDeleteSymbol_holds {module : String} {symbol : Hash} {name : String} {force : Bool}
    (run : (applyDeleteSymbol El inputRoot module symbol name force).run before =
      .ok (newRoot, after)) : Holds El after newRoot := by
  obtain ⟨root, load, run⟩ := StoreM.run_read_bind.mp run
  obtain ⟨_, -, run⟩ := StoreM.run_lift_bind.mp run
  obtain ⟨deps, -, run⟩ := StoreM.run_read_bind.mp run
  obtain ⟨tests, -, run⟩ := StoreM.run_read_bind.mp run
  split_ifs at run
  · obtain ⟨_, -, run⟩ := StoreM.run_lift_bind.mp run
    exact (StoreM.run_fail.mp run).elim
  all_goals
    exact Draft.checked El reliable reads addressed run (holds.loaded load).draft.deleteSymbol

theorem applyCreateTest_holds {name entryModule entryName : String} {entrySymbol : Hash}
    {category : TestCategory} {mode : TestMode} {args : List El.TestValue}
    {expected : El.TestValue} {nativeAgreement nativeRequired : Bool}
    (run : (applyCreateTest El inputRoot name entryModule entryName entrySymbol category mode args
      expected nativeAgreement nativeRequired).run before = .ok (newRoot, after)) :
    Holds El after newRoot := by
  obtain ⟨_, -, run⟩ := StoreM.run_lift_bind.mp run
  obtain ⟨root, load, run⟩ := StoreM.run_read_bind.mp run
  split_ifs at run
  · exact (StoreM.run_fail.mp run).elim
  obtain ⟨_, -, run⟩ := StoreM.run_lift_bind.mp run
  split at run
  · exact (StoreM.run_fail.mp run).elim
  obtain ⟨⟨paramTypes, returnType⟩, -, run⟩ := StoreM.run_read_bind.mp run
  dsimp only at run
  split at run
  · exact (StoreM.run_fail.mp run).elim
  obtain ⟨_, -, run⟩ := StoreM.run_read_bind.mp run
  obtain ⟨_, -, run⟩ := StoreM.run_read_bind.mp run
  obtain ⟨_, -, run⟩ := StoreM.run_read_bind.mp run
  obtain ⟨test, mid, put, run⟩ := StoreM.run_bind.mp run
  have grows := (putTestCase El _).grows put
  exact Draft.checked El reliable reads (grows.addressed addressed) run
    (((holds.loaded load).draft.grow grows).of_sameOutline ⟨rfl, rfl, rfl, rfl, rfl⟩)

theorem applyDeleteTest_holds {name : String} {test : Hash}
    (run : (applyDeleteTest El inputRoot name test).run before = .ok (newRoot, after)) :
    Holds El after newRoot := by
  obtain ⟨root, load, run⟩ := StoreM.run_read_bind.mp run
  dsimp only at run
  split_ifs at run
  · exact (StoreM.run_fail.mp run).elim
  · exact Draft.checked El reliable reads addressed run
      ((holds.loaded load).draft.of_sameOutline ⟨rfl, rfl, rfl, rfl, rfl⟩)

end

end CodeDb

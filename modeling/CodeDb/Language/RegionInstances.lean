import CodeDb.Language.Expansion
import CodeDb.Operations.TypeRoundTrip

/-!
# What an expansion leaves out

An expansion of an instance always comes to an end. It stores the types of the members of every
instance that is reached by way of instances with type arguments. An instance that has regions but
no type arguments is not expanded, although its members have types of their own as well.

## Main definitions

* `numberHolder` — an instance with a member that has a region, and no type arguments

## Main results

* `materializeInstance_spec` — an expansion settles, what it stores, and where it goes too deep
* `numberHolder_open` — the type of a member of a nested instance is not stored
-/

namespace CodeDb

open ExpandM Relation Settling

section Main

variable {P : Primitives} {objects : Objects} {root : ProgramRootPayload} {i j : Instance}
  {type : Hash}

theorem Instance.MembersAre.imp {holds holds' : Hash → Prop}
    (members : j.MembersAre P objects root holds) (weaker : ∀ type, holds type → holds' type) :
    j.MembersAre P objects root holds' := by
  obtain ⟨definition, regions, args, declared, each⟩ := members
  refine ⟨definition, regions, args, declared, fun member listed => ?_⟩
  obtain ⟨type, substitutes, held⟩ := each member listed
  exact ⟨type, substitutes, weaker type held⟩

/-- The types of the members are among those that are written. -/
theorem Instance.MembersAre.writes {holds : Hash → Prop}
    (members : j.MembersAre P objects root holds) :
    j.MembersAre P objects root fun type => j.Writes P objects root type := by
  obtain ⟨definition, regions, args, declared, each⟩ := members
  refine ⟨definition, regions, args, declared, fun member listed => ?_⟩
  obtain ⟨type, substitutes, -⟩ := each member listed
  exact ⟨type, substitutes,
    Or.inr ⟨definition, regions, args, declared, member, listed, member.typeHash, .refl,
      substitutes⟩⟩

theorem not_saw_start : ¬ (⟨∅, objects⟩ : Expansion).Saw P i := by
  rintro ⟨hash, listed, -⟩
  exact absurd listed (Finset.notMem_empty hash)

section Progress

variable {after : Expansion} (progress : Progress P objects root {i} ∅ ⟨∅, objects⟩ after)
include progress

/-- An expansion is done with all instances that are reached by way of type arguments. -/
theorem Progress.done (expands : i.Expands P objects root j) : after.Done P objects root j := by
  have done {k : Instance} (saw : after.Saw P k) : after.Done P objects root k :=
    (progress.new k saw).elim (fun before => absurd before not_saw_start) And.left
  induction expands with
  | refl => exact done (progress.saw i rfl)
  | tail _ last ih => exact done (ih.nested _ last.1 last.2)

theorem Progress.isStored_iff :
    IsStored P after.objects type ↔ IsStored P objects type ∨ i.WritesAll P objects root type := by
  constructor
  · intro stored
    rcases progress.only type stored with before | none | ⟨start, rfl, writes⟩
    · exact Or.inl before
    · cases none
    · exact Or.inr writes
  · rintro (before | ⟨j, expands, writes⟩)
    · exact progress.grows.isStored before
    · exact (progress.done expands).written type writes

/-- The types of all members of the instances that are reached are stored, if they are for those
that are not expanded. -/
theorem Progress.closed_iff :
    (∀ j, i.Reaches P objects root j → j.MembersAre P objects root (IsStored P after.objects)) ↔
      ∀ j, i.Reaches P objects root j → ¬ i.Expands P objects root j →
        j.MembersAre P objects root fun type =>
          IsStored P objects type ∨ i.WritesAll P objects root type := by
  constructor
  · intro closed j reached _
    exact (closed j reached).imp fun type => progress.isStored_iff.mp
  · intro rest j reached
    by_cases expands : i.Expands P objects root j
    · exact (progress.done expands).members.writes.imp (progress.done expands).written
    · exact (rest j reached expands).imp fun type => progress.isStored_iff.mpr

end Progress

variable (reliable : P.Reliable) (reads : P.ReadsTypes) (addressed : Addressed P objects)
  (typesStored : TypesStored P objects root)
  (argsStored : ∀ arg ∈ i.typeArgs, StoredType P objects arg)
include reliable reads addressed typesStored argsStored

/-- An expansion that goes too deep has followed a chain of instances. -/
theorem exists_chain_of_depthLimit {fuel : Nat} {symbol : Hash}
    (run : (materializeInstance P root fuel i 0).run ⟨∅, objects⟩ = .error (.depthLimit symbol)) :
    ∃ chain : List Instance, chain.head? = some i ∧ chain.Nodup ∧
      genericInstantiationDepthLimit < chain.length ∧
        chain.IsChain fun earlier later => earlier.Nested P objects root later := by
  have pending : Pending P objects root ⟨∅, objects⟩ [] := ⟨List.nodup_nil, nofun, .nil⟩
  obtain ⟨chain, ⟨deeper, rfl⟩, distinct, deep, nested⟩ :=
    ((instanceTooDeep reliable reads addressed typesStored fuel).1 (.refl _) argsStored pending
      nofun run).2 (Nat.zero_le _)
  refine ⟨(deeper ++ [i]).reverse, ?_, List.nodup_reverse.mpr distinct, ?_, ?_⟩
  · rw [List.reverse_append]
    rfl
  · rwa [List.length_reverse]
  · exact List.isChain_reverse.mpr nested

/-- An expansion comes to an end. If it succeeds, the types of all members of the instances that it
leads to are stored, provided that those are that belong to instances which are only reached through
one without type arguments. If it goes too deep, there is a chain of distinct instances. -/
theorem materializeInstance_spec :
    Settles .unfinished (fun fuel => materializeInstance P root fuel i 0) ⟨∅, objects⟩ ∧
    (∀ fuel after, (materializeInstance P root fuel i 0).run ⟨∅, objects⟩ = .ok ((), after) →
      ((∀ j, i.Reaches P objects root j → j.MembersAre P objects root (IsStored P after.objects)) ↔
        ∀ j, i.Reaches P objects root j → ¬ i.Expands P objects root j →
          j.MembersAre P objects root fun type =>
            IsStored P objects type ∨ i.WritesAll P objects root type)) ∧
    ∀ fuel symbol,
      (materializeInstance P root fuel i 0).run ⟨∅, objects⟩ = .error (.depthLimit symbol) →
        ∃ chain : List Instance, chain.head? = some i ∧ chain.Nodup ∧
          genericInstantiationDepthLimit < chain.length ∧
            chain.IsChain fun earlier later => earlier.Nested P objects root later := by
  refine ⟨?_, ?_, ?_⟩
  · exact instanceSettles reliable reads addressed typesStored 0 (.refl _) argsStored
  · intro fuel after run
    exact ((instanceProgress reliable reads addressed typesStored fuel).1 (.refl _) argsStored
      run).closed_iff
  · intro fuel symbol run
    exact exists_chain_of_depthLimit reliable reads addressed typesStored argsStored run

end Main

/-! ### A window in a holder -/

def window : Hash := "sha256:window"

def holder : Hash := "sha256:holder"

def borrowPayload (region : Hash) : JsonValue :=
  .object [("mutable", .bool false), ("referent", .string typeI64), ("region", .string region),
    ("type_kind", .string "Reference")]

/-- A shared reference to a number. -/
def typeBorrow (region : Hash) : Hash := objectHash plain "Type" (borrowPayload region)

def windowPayload (region : Hash) : JsonValue :=
  .object [("region_args", .strings [region]), ("type_kind", .string "Named"),
    ("type_symbol", .string window)]

/-- Windows have a region, and no type arguments. -/
def typeWindow (region : Hash) : Hash := objectHash plain "Type" (windowPayload region)

def itemPayload : JsonValue :=
  .object [("index", .number (.posInt 0)), ("type_kind", .string "TypeParam")]

/-- The type parameter of holders. -/
def typeItem : Hash := objectHash plain "Type" itemPayload

/-- A window is a record of a reference. -/
def windowDefinition : TypeDefinition :=
  .record ⟨window, [⟨"sha256:q", "q"⟩], [], [⟨"sha256:value", "value", typeBorrow "sha256:q"⟩]⟩

/-- A holder is a record of a window and an item. -/
def holderDefinition : TypeDefinition :=
  .record ⟨holder, [⟨"sha256:r", "r"⟩], ["T"], [⟨"sha256:view", "view", typeWindow "sha256:r"⟩,
    ⟨"sha256:item", "item", typeItem⟩]⟩

def holderEntries : List (String × JsonValue) :=
  [("Type", borrowPayload "sha256:q"), ("Type", windowPayload "sha256:r"), ("Type", itemPayload),
    (windowDefinition.keys.objectKind, windowDefinition.payload),
    ("TypeDef", typeDefPayload window windowDefinition),
    (holderDefinition.keys.objectKind, holderDefinition.payload),
    ("TypeDef", typeDefPayload holder holderDefinition)]

@[irreducible] def holderObjects : Objects := putAll plain ∅ holderEntries

def holderRoot : ProgramRootPayload :=
  { ProgramRootPayload.empty with
    types := [⟨window, objectHash plain "TypeDef" (typeDefPayload window windowDefinition)⟩,
      ⟨holder, objectHash plain "TypeDef" (typeDefPayload holder holderDefinition)⟩] }

/-- A holder of a number. -/
def numberHolder : Instance := ⟨holder, ["sha256:a"], [typeI64]⟩

theorem validateRegionParams_singleton {region : Hash} {name : String}
    (isHash : hasHashPrefix region) (identifier : isProjectionIdentifier name) :
    validateRegionParams [⟨region, name⟩] = .ok () := by
  simp [validateRegionParams, validateRegionParams.go, validateProjectionIdentifier, isHash,
    identifier, bind, Except.bind]

theorem windowDefinition_valid : windowDefinition.Valid where
  regionParams := validateRegionParams_singleton (by decide) (by decide)
  typeParams := rfl
  members := by
    have valid {type : Hash} (isHash : hasHashPrefix type) :
        validateMemberDefs "record field" [⟨"sha256:value", "value", type⟩] = .ok () := by
      have known : isProjectionIdentifier "value" ∧ hasHashPrefix "sha256:value" := by decide
      simp [validateMemberDefs, validateMemberDefs.go, validateProjectionIdentifier, known, isHash,
        bind, Except.bind]
    exact valid (hasHashPrefix_objectHash plain "Type" (borrowPayload "sha256:q"))

theorem holderDefinition_valid : holderDefinition.Valid where
  regionParams := validateRegionParams_singleton (by decide) (by decide)
  typeParams := by
    have known : isProjectionIdentifier "T" := by decide
    simp [holderDefinition, TypeDefinition.body, validateTypeParamNames, validateDistinct,
      validateProjectionIdentifier, known, bind, Except.bind]
  members := by
    have valid {view item : Hash} (isHash : hasHashPrefix view ∧ hasHashPrefix item) :
        validateMemberDefs "record field" [⟨"sha256:view", "view", view⟩,
          ⟨"sha256:item", "item", item⟩] = .ok () := by
      have known : isProjectionIdentifier "view" ∧ isProjectionIdentifier "item" ∧
        hasHashPrefix "sha256:view" ∧ hasHashPrefix "sha256:item" := by decide
      simp [validateMemberDefs, validateMemberDefs.go, validateProjectionIdentifier, known, isHash,
        bind, Except.bind]
    exact valid ⟨hasHashPrefix_objectHash plain "Type" (windowPayload "sha256:r"),
      hasHashPrefix_objectHash plain "Type" itemPayload⟩

section Sample

variable {objects : Objects} {region : Hash}

theorem addressed_noObjects : Addressed plain ∅ := fun hash _ found =>
  nomatch (AList.lookup_empty hash).symm.trans found

theorem addressed_holderObjects : Addressed plain holderObjects := by
  unfold holderObjects
  exact (grows_putAll _ _).addressed addressed_noObjects

theorem stored_holderObjects {kind : String} {payload : JsonValue}
    (mem : (kind, payload) ∈ holderEntries) : Stored plain holderObjects kind payload := by
  unfold holderObjects
  exact stored_putAll plain_reliable addressed_noObjects mem

theorem written_borrow (isHash : hasHashPrefix region) :
    typePayloadForSpec (.reference region false typeI64) = .ok (borrowPayload region) := by
  have referent : hasHashPrefix typeI64 := hasHashPrefix_objectHash ..
  exact Except.bind_eq_ok.mpr ⟨(), if_pos isHash, Except.bind_eq_ok.mpr ⟨(), if_pos referent, rfl⟩⟩

theorem written_window (isHash : hasHashPrefix region) :
    typePayloadForSpec (.named window [region] []) = .ok (windowPayload region) := by
  have region : validateEach validateRegionArg [region] = .ok () := by
    simp [validateEach, validateRegionArg, isHash, bind, Except.bind]
  exact Except.bind_eq_ok.mpr ⟨(), region, rfl⟩

theorem typeSpec_borrow (isHash : hasHashPrefix region)
    (stored : Stored plain objects "Type" (borrowPayload region)) :
    typeSpec plain objects (typeBorrow region) = .ok (.reference region false typeI64) :=
  typeSpec_of_stored plain_reliable plain_readsTypes trivial (written_borrow isHash) stored

theorem typeSpec_window (isHash : hasHashPrefix region)
    (stored : Stored plain objects "Type" (windowPayload region)) :
    typeSpec plain objects (typeWindow region) = .ok (.named window [region] []) :=
  typeSpec_of_stored plain_reliable plain_readsTypes trivial (written_window isHash) stored

theorem typeSpec_item : typeSpec plain holderObjects typeItem = .ok (.typeParam 0) :=
  typeSpec_of_stored plain_reliable plain_readsTypes (by decide : (0 : Nat) < 2 ^ 32) rfl
    (stored_holderObjects (.tail _ (.tail _ (.head _))))

theorem typeDefinition_window : typeDefinition plain holderObjects
    (objectHash plain "TypeDef" (typeDefPayload window windowDefinition)) = .ok windowDefinition :=
  @typeDefinition_stored _ windowDefinition
    (stored_holderObjects (.tail _ (.tail _ (.tail _ (.head _)))))
    (stored_holderObjects (.tail _ (.tail _ (.tail _ (.tail _ (.head _))))))
    windowDefinition_valid

theorem typeDefinition_holder : typeDefinition plain holderObjects
    (objectHash plain "TypeDef" (typeDefPayload holder holderDefinition)) = .ok holderDefinition :=
  @typeDefinition_stored _ holderDefinition
    (stored_holderObjects (.tail _ (.tail _ (.tail _ (.tail _ (.tail _ (.head _)))))))
    (stored_holderObjects (.tail _ (.tail _ (.tail _ (.tail _ (.tail _ (.tail _ (.head _))))))))
    holderDefinition_valid

theorem storedType_of_components {type : Hash} {spec : TypeSpec}
    (read : typeSpec plain objects type = .ok spec) (none : spec.components = []) :
    StoredType plain objects type := by
  refine .intro read fun part listed => ?_
  rw [none] at listed
  cases listed

theorem storedType_typeI64 : StoredType plain objects typeI64 :=
  storedType_of_components (typeSpec_typeI64 objects) rfl

theorem typesStored_holderRoot : TypesStored plain holderObjects holderRoot := by
  have borrowed : StoredType plain holderObjects (typeBorrow "sha256:q") := by
    refine .intro (typeSpec_borrow (by decide) (stored_holderObjects (.head _))) ?_
    intro part listed
    rw [List.mem_singleton.mp listed]
    exact storedType_typeI64
  have windows : StoredType plain holderObjects (typeWindow "sha256:r") :=
    storedType_of_components
      (typeSpec_window (by decide) (stored_holderObjects (.tail _ (.head _)))) rfl
  have items : StoredType plain holderObjects typeItem :=
    storedType_of_components typeSpec_item rfl
  intro entry listed
  simp only [holderRoot, List.mem_cons, List.not_mem_nil, or_false] at listed
  rcases listed with rfl | rfl
  · refine ⟨windowDefinition, typeDefinition_window, fun member listed => ?_⟩
    rw [List.mem_singleton.mp listed]
    exact borrowed
  · refine ⟨holderDefinition, typeDefinition_holder, ?_⟩
    exact List.forall_mem_cons.mpr ⟨windows, List.forall_mem_singleton.mpr items⟩

theorem argsStored_numberHolder :
    ∀ arg ∈ numberHolder.typeArgs, StoredType plain holderObjects arg := by
  intro arg listed
  rw [List.mem_singleton.mp listed]
  exact storedType_typeI64

def holderRegions : SortedMap Hash Hash :=
  (∅ : SortedMap Hash Hash).insert "sha256:r" "sha256:a"

def windowRegions : SortedMap Hash Hash :=
  (∅ : SortedMap Hash Hash).insert "sha256:q" "sha256:a"

theorem definition_numberHolder (grows : Grows plain holderObjects objects) :
    namedTypeDefinitionWithArgs plain holderRoot objects numberHolder =
      .ok (holderDefinition, holderRegions, [typeI64]) := by
  have listed : rootType holderRoot holder =
      some ⟨holder, objectHash plain "TypeDef" (typeDefPayload holder holderDefinition)⟩ := rfl
  unfold namedTypeDefinitionWithArgs
  rw [show numberHolder.typeSymbol = holder from rfl, listed]
  exact Except.bind_eq_ok.mpr ⟨_, grows.typeDefinition typeDefinition_holder, rfl⟩

/-- The window in a holder. -/
def heldWindow : Instance := ⟨window, ["sha256:a"], []⟩

theorem definition_heldWindow :
    namedTypeDefinitionWithArgs plain holderRoot holderObjects heldWindow =
      .ok (windowDefinition, windowRegions, []) := by
  have listed : rootType holderRoot window =
      some ⟨window, objectHash plain "TypeDef" (typeDefPayload window windowDefinition)⟩ := rfl
  unfold namedTypeDefinitionWithArgs
  rw [show heldWindow.typeSymbol = window from rfl, listed]
  exact Except.bind_eq_ok.mpr ⟨_, typeDefinition_window, rfl⟩

/-! It is expanded. -/

theorem fetch_typeSpec {type : Hash} {spec : TypeSpec} {s : Expansion}
    (read : typeSpec plain s.objects type = .ok spec) :
    (fetch fun objects => typeSpec plain objects type).run s = .ok (spec, s) :=
  run_fetch.mpr ⟨read, rfl⟩

theorem putStructuralType_eq_ok {spec : TypeSpec} {payload : JsonValue} {s : Expansion}
    (written : typePayloadForSpec spec = .ok payload) :
    (putStructuralType plain spec).run s = .ok (objectHash plain "Type" payload,
      { s with objects := (putObject plain s.objects "Type" payload).2 }) :=
  @StateT.run_bind_of_ok _ _ _ _ s _ _ payload s (run_lift.mpr ⟨written, rfl⟩)

def numberHolderPayload : JsonValue :=
  .object [("region_args", .strings ["sha256:a"]), ("type_args", .strings [typeI64]),
    ("type_kind", .string "Named"), ("type_symbol", .string holder)]

theorem written_numberHolder :
    typePayloadForSpec numberHolder.spec = .ok numberHolderPayload := by
  have integer : hasHashPrefix typeI64 := hasHashPrefix_objectHash ..
  have args : validateEach (validateTypeHashText "named type argument") [typeI64] = .ok () := by
    simp [validateEach, validateTypeHashText, integer, bind, Except.bind]
  exact Except.bind_eq_ok.mpr ⟨(), rfl, Except.bind_eq_ok.mpr ⟨(), args, rfl⟩⟩

theorem putSubstitutedType_window {s : Expansion} (grows : Grows plain holderObjects s.objects) :
    (putSubstitutedType plain holderRegions [typeI64] 2 (typeWindow "sha256:r")).run s =
      .ok (typeWindow "sha256:a",
        { s with objects := (putObject plain s.objects "Type" (windowPayload "sha256:a")).2 }) := by
  have isHash : hasHashPrefix "sha256:r" := by decide
  have read := grows.typeSpec (typeSpec_window isHash (stored_holderObjects (.tail _ (.head _))))
  rw [putSubstitutedType_succ, if_neg (by decide), StateT.run_bind_of_ok (fetch_typeSpec read)]
  have isHash' : hasHashPrefix "sha256:a" := by decide
  exact putStructuralType_eq_ok (written_window isHash')

theorem putSubstitutedType_item {s : Expansion} (grows : Grows plain holderObjects s.objects) :
    (putSubstitutedType plain holderRegions [typeI64] 2 typeItem).run s = .ok (typeI64, s) := by
  rw [putSubstitutedType_succ, if_neg (by decide),
    StateT.run_bind_of_ok (fetch_typeSpec (grows.typeSpec typeSpec_item))]
  rfl

theorem materializeNestedInstances_window {s : Expansion}
    (stored : Stored plain s.objects "Type" (windowPayload "sha256:a")) :
    (materializeNestedInstances plain holderRoot 2 (typeWindow "sha256:a") 1).run s =
      .ok ((), s) := by
  have isHash : hasHashPrefix "sha256:a" := by decide
  rw [materializeNestedInstances_succ,
    StateT.run_bind_of_ok (fetch_typeSpec (typeSpec_window isHash stored))]
  rfl

theorem materializeNestedInstances_typeI64 {s : Expansion} :
    (materializeNestedInstances plain holderRoot 2 typeI64 1).run s = .ok ((), s) := by
  rw [materializeNestedInstances_succ,
    StateT.run_bind_of_ok (fetch_typeSpec (typeSpec_typeI64 s.objects))]
  rfl

/-- What is stored afterwards. -/
def expandedObjects : Objects :=
  (putObject plain (putObject plain holderObjects "Type" numberHolderPayload).2 "Type"
    (windowPayload "sha256:a")).2

/-- What is done for a member of a holder. -/
def materializeMember (member : TypeMemberDef) : ExpandM Unit := do
  let substituted ← putSubstitutedType plain holderRegions [typeI64] 2 member.typeHash
  materializeNestedInstances plain holderRoot 2 substituted 1

theorem materializeMember_view {s : Expansion} (grows : Grows plain holderObjects s.objects) :
    (materializeMember ⟨"sha256:view", "view", typeWindow "sha256:r"⟩).run s = .ok ((), { s with
      objects := (putObject plain s.objects "Type" (windowPayload "sha256:a")).2 }) := by
  have stored : Stored plain (putObject plain s.objects "Type" (windowPayload "sha256:a")).2 "Type"
      (windowPayload "sha256:a") := .put plain_reliable (grows.addressed addressed_holderObjects)
  rw [materializeMember, StateT.run_bind_of_ok (putSubstitutedType_window grows)]
  exact materializeNestedInstances_window stored

theorem materializeMember_item {s : Expansion} (grows : Grows plain holderObjects s.objects) :
    (materializeMember ⟨"sha256:item", "item", typeItem⟩).run s = .ok ((), s) := by
  rw [materializeMember, StateT.run_bind_of_ok (putSubstitutedType_item grows)]
  exact materializeNestedInstances_typeI64

theorem materializeMembers_numberHolder {s : Expansion}
    (grows : Grows plain holderObjects s.objects) :
    (holderDefinition.body.members.forM materializeMember).run s = .ok ((), { s with
      objects := (putObject plain s.objects "Type" (windowPayload "sha256:a")).2 }) := by
  change (materializeMember _ >>= fun _ => materializeMember _ >>= fun _ => pure ()).run s = _
  rw [StateT.run_bind_of_ok (materializeMember_view grows), StateT.run_bind_of_ok
    (materializeMember_item (s := { s with objects := _ }) (grows.trans (grows_putObject ..)))]
  rfl

/-- The instance is expanded, and a window at its region is stored. -/
theorem materializeInstance_numberHolder :
    (materializeInstance plain holderRoot 3 numberHolder 0).run ⟨∅, holderObjects⟩ =
      .ok ((), ⟨insert (objectHash plain "Type" numberHolderPayload) ∅, expandedObjects⟩) := by
  have grows := grows_putObject (P := plain) holderObjects "Type" numberHolderPayload
  have visited : (visit (objectHash plain "Type" numberHolderPayload)).run
      ⟨∅, (putObject plain holderObjects "Type" numberHolderPayload).2⟩ =
    .ok (true, ⟨insert (objectHash plain "Type" numberHolderPayload) ∅,
      (putObject plain holderObjects "Type" numberHolderPayload).2⟩) := rfl
  have definition : (fetch fun objects => namedTypeDefinitionWithArgs plain holderRoot objects
      numberHolder).run ⟨insert (objectHash plain "Type" numberHolderPayload) ∅,
        (putObject plain holderObjects "Type" numberHolderPayload).2⟩ =
    .ok ((holderDefinition, holderRegions, [typeI64]), ⟨_, _⟩) :=
    run_fetch.mpr ⟨definition_numberHolder grows, rfl⟩
  rw [materializeInstance_succ, if_neg (by decide),
    StateT.run_bind_of_ok (putStructuralType_eq_ok written_numberHolder),
    StateT.run_bind_of_ok visited, if_pos rfl, StateT.run_bind_of_ok definition]
  exact materializeMembers_numberHolder grows

theorem substitutes_window : Substitutes plain holderObjects holderRegions [typeI64]
    (typeWindow "sha256:r") (typeWindow "sha256:a") := by
  have isHash : hasHashPrefix "sha256:r" ∧ hasHashPrefix "sha256:a" := by decide
  have read := typeSpec_window isHash.1 (stored_holderObjects (.tail _ (.head _)))
  refine ⟨2, (substituteTypeHash_of_parts (by decide) read nofun nofun rfl).trans ?_⟩
  exact hashForTypeSpec_eq_ok.mpr ⟨_, written_window isHash.2, rfl⟩

theorem substitutes_borrow : Substitutes plain holderObjects windowRegions []
    (typeBorrow "sha256:q") (typeBorrow "sha256:a") := by
  have isHash : hasHashPrefix "sha256:q" ∧ hasHashPrefix "sha256:a" := by decide
  have read := typeSpec_borrow isHash.1 (stored_holderObjects (.head _))
  have referent : substituteTypeHash plain holderObjects windowRegions [] 1 typeI64 =
      .ok typeI64 := by
    rw [substituteTypeHash_succ, if_neg (by decide), typeSpec_typeI64]
    rfl
  have substituted : [typeI64].mapM (substituteTypeHash plain holderObjects windowRegions [] 1) =
      .ok [typeI64] := Except.bind_eq_ok.mpr ⟨typeI64, referent, rfl⟩
  refine ⟨2, (substituteTypeHash_of_parts (by decide) read nofun nofun substituted).trans ?_⟩
  exact hashForTypeSpec_eq_ok.mpr ⟨_, written_borrow isHash.2, rfl⟩

theorem nested_heldWindow : numberHolder.Nested plain holderObjects holderRoot heldWindow := by
  have isHash : hasHashPrefix "sha256:a" := by decide
  have stored : Stored plain (putObject plain holderObjects "Type" (windowPayload "sha256:a")).2
      "Type" (windowPayload "sha256:a") := .put plain_reliable addressed_holderObjects
  refine ⟨typeWindow "sha256:a", ⟨holderDefinition, holderRegions, [typeI64],
    definition_numberHolder (.refl _), _, .head _, substitutes_window⟩, typeWindow "sha256:a",
      .refl, _, grows_putObject .., typeSpec_window isHash stored⟩

/-! The member of the window has a type that is not stored. -/

theorem fixed_borrow (region : Hash) : Fixed plain.floatText (borrowPayload region) :=
  Fixed.object (by simp only [List.map]; decide) (by simp [Fixed.string, Fixed.bool])

theorem typeBorrow_ne {payload : JsonValue} (fixed : Fixed plain.floatText payload)
    (other : payload.get? "mutable" = none) :
    typeBorrow region ≠ objectHash plain "Type" payload := by
  intro same
  rw [← objectHash_value_inj (fixed_borrow region) fixed same] at other
  cases other

theorem not_isStored_borrow : ¬ IsStored plain expandedObjects (typeBorrow "sha256:a") := by
  have named (spec payload) (written : typePayloadForSpec spec = .ok payload)
      (other : payload.get? "mutable" = none) :
      typeBorrow "sha256:a" ≠ objectHash plain "Type" payload :=
    typeBorrow_ne (fixed_typePayloadForSpec written) other
  intro stored
  rcases isStored_putObject stored with put | same
  · rcases isStored_putObject put with before | same
    · unfold holderObjects at before
      rcases isStored_putAll before with builtin | ⟨object, listed, same⟩
      · obtain ⟨kind, same⟩ := isStored_empty builtin
        exact named _ _ (typePayloadForSpec_builtin kind) rfl same
      · simp only [holderEntries, List.mem_cons, List.not_mem_nil, or_false] at listed
        rcases listed with rfl | rfl | rfl | rfl | rfl | rfl | rfl
        · -- The regions are different.
          have regions := objectHash_value_inj (fixed_borrow _) (fixed_borrow _) same
          simp [borrowPayload] at regions
        · exact named _ _ (written_window (show hasHashPrefix "sha256:r" by decide)) rfl same
        · exact named (.typeParam 0) _ rfl rfl same
        · exact absurd (objectHash_inj plain_reliable same).1 (by decide)
        · exact absurd (objectHash_inj plain_reliable same).1 (by decide)
        · exact absurd (objectHash_inj plain_reliable same).1 (by decide)
        · exact absurd (objectHash_inj plain_reliable same).1 (by decide)
    · exact named _ _ written_numberHolder rfl same
  · exact named _ _ (written_window (show hasHashPrefix "sha256:a" by decide)) rfl same

/-- The expansion of a holder succeeds, although the window in it has a member with a type that is
not stored afterwards. -/
theorem numberHolder_open :
    (Addressed plain holderObjects ∧ TypesStored plain holderObjects holderRoot ∧
      ∀ arg ∈ numberHolder.typeArgs, StoredType plain holderObjects arg) ∧
    ∃ fuel after,
      (materializeInstance plain holderRoot fuel numberHolder 0).run ⟨∅, holderObjects⟩ =
        .ok ((), after) ∧
      ∃ j, numberHolder.Reaches plain holderObjects holderRoot j ∧
        ¬ j.MembersAre plain holderObjects holderRoot (IsStored plain after.objects) := by
  refine ⟨⟨addressed_holderObjects, typesStored_holderRoot, argsStored_numberHolder⟩, 3, _,
    materializeInstance_numberHolder, heldWindow, .single nested_heldWindow, ?_⟩
  rintro ⟨definition, regions, args, declared, members⟩
  cases declared.symm.trans definition_heldWindow
  obtain ⟨type, substitutes, stored⟩ := members _ (.head _)
  rw [substitutes.unique substitutes_borrow] at stored
  exact not_isStored_borrow stored

/-- What holds of the expansion of a holder. -/
theorem materializeInstance_spec_numberHolder :
    Settles .unfinished (fun fuel => materializeInstance plain holderRoot fuel numberHolder 0)
      ⟨∅, holderObjects⟩ ∧
    (∀ fuel after, (materializeInstance plain holderRoot fuel numberHolder 0).run
        ⟨∅, holderObjects⟩ = .ok ((), after) →
      ((∀ j, numberHolder.Reaches plain holderObjects holderRoot j →
          j.MembersAre plain holderObjects holderRoot (IsStored plain after.objects)) ↔
        ∀ j, numberHolder.Reaches plain holderObjects holderRoot j →
          ¬ numberHolder.Expands plain holderObjects holderRoot j →
            j.MembersAre plain holderObjects holderRoot fun type =>
              IsStored plain holderObjects type ∨
                numberHolder.WritesAll plain holderObjects holderRoot type)) ∧
    ∀ fuel symbol, (materializeInstance plain holderRoot fuel numberHolder 0).run
        ⟨∅, holderObjects⟩ = .error (.depthLimit symbol) →
      ∃ chain : List Instance, chain.head? = some numberHolder ∧ chain.Nodup ∧
        genericInstantiationDepthLimit < chain.length ∧
          chain.IsChain fun earlier later => earlier.Nested plain holderObjects holderRoot later :=
  materializeInstance_spec plain_reliable plain_readsTypes addressed_holderObjects
    typesStored_holderRoot argsStored_numberHolder

end Sample

end CodeDb

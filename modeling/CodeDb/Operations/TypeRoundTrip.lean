import CodeDb.Operations.Definitions
import CodeDb.Store.RoundTrip

/-!
# Type definitions round trip

A type definition is read from the store as it was stored.

## Main results

* `typeDefinition_putTypeDef` — what is stored is read again
* `putTypeDef_run` — what passes the checks is stored
-/

namespace CodeDb

open SortOn

variable {objects later : Objects}

theorem hasHashPrefix_objectHash (P : Primitives) (kind : String) (payload : JsonValue) :
    hasHashPrefix (objectHash P kind payload) :=
  List.isPrefixOf_iff_prefix.mpr (prefix_objectHash P kind payload)

/-- The entries of the payload of a type definition. -/
def TypeDefinition.entries (definition : TypeDefinition) : List (String × JsonValue) :=
  [(definition.keys.members, .array (definition.body.members.map fun m =>
      .object (sortOn (·.1) [(definition.keys.symbol, .string m.memberSymbol),
        ("name", .string m.name), ("type", .string m.typeHash)]))),
    ("region_params", .array (definition.body.regionParams.map RegionParamDef.toValue))] ++
    listEntry (fun name => .object [("name", .string name)]) "type_params"
      definition.body.typeParams ++
    [("type_symbol", .string definition.body.typeSymbol)]

private theorem nodup_entries (definition : TypeDefinition) :
    (definition.entries.map Prod.fst).Nodup := by
  have all : ([definition.keys.members, "region_params"] ++ ["type_params"] ++
      ["type_symbol"]).Nodup := by
    cases definition <;> simp [TypeDefinition.keys, recordKeys, enumKeys]
  refine all.sublist ?_
  simp only [TypeDefinition.entries, List.map_append]
  exact ((List.Sublist.refl _).append (keys_listEntry _ _ _)).append (List.Sublist.refl _)

private theorem nodup_memberEntries (definition : TypeDefinition) (m : TypeMemberDef) :
    ([(definition.keys.symbol, JsonValue.string m.memberSymbol), ("name", .string m.name),
      ("type", .string m.typeHash)].map Prod.fst).Nodup := by
  cases definition <;> simp [TypeDefinition.keys, recordKeys, enumKeys]

/-- The payload of a type definition is read back as it is. -/
theorem fixed_typeDefinition (floatText : UInt64 → List Char) (definition : TypeDefinition) :
    Fixed floatText definition.payload := by
  refine Fixed.object (pairwise_lt_sortOn (nodup_entries definition)) fun e he => ?_
  have members : ∀ m : TypeMemberDef, Fixed floatText (.object (sortOn (·.1)
      [(definition.keys.symbol, .string m.memberSymbol), ("name", .string m.name),
        ("type", .string m.typeHash)])) := fun m =>
    Fixed.object (pairwise_lt_sortOn (nodup_memberEntries definition m)) (by simp [Fixed.string])
  have regions : ∀ p : RegionParamDef, Fixed floatText p.toValue := fun p =>
    Fixed.object (by simp only [List.map]; decide) (by simp [Fixed.string])
  have params : ∀ name : String, Fixed floatText (.object [("name", .string name)]) := fun name =>
    Fixed.object (by simp) (by simp [Fixed.string])
  replace he : e ∈ definition.entries := (mem_sortOn _).mp he
  simp only [TypeDefinition.entries, List.mem_append, or_assoc] at he
  rcases he with he | he | he
  · simp only [List.mem_cons, List.not_mem_nil, or_false] at he
    rcases he with rfl | rfl
    · exact Fixed.array members _
    · exact Fixed.array regions _
  · exact Fixed.listEntry params e he
  · rw [List.mem_singleton.mp he]
    rfl

/-- What is found under a key of the payload of a type definition. -/
private theorem get?_payload (definition : TypeDefinition) (key : String) :
    definition.payload.get? key = definition.entries.lookup key :=
  (lookup_perm (nodup_entries definition) (sortOn_perm Prod.fst _).symm key).symm

private theorem getStr_member (definition : TypeDefinition) (m : TypeMemberDef) {key : String}
    {s : String} {missing : Error}
    (found : [(definition.keys.symbol, JsonValue.string m.memberSymbol), ("name", .string m.name),
      ("type", .string m.typeHash)].lookup key = some (.string s)) :
    JsonValue.getStr (.object (sortOn (·.1) [(definition.keys.symbol, .string m.memberSymbol),
      ("name", .string m.name), ("type", .string m.typeHash)])) key missing = .ok s := by
  have same := lookup_perm (nodup_memberEntries definition m) (sortOn_perm Prod.fst _).symm key
  rw [found] at same
  simp only [JsonValue.getStr, JsonValue.get?]
  rw [← same]
  rfl

/-- What the checks of a definition ask for. -/
structure TypeDefinition.Valid (definition : TypeDefinition) : Prop where
  regionParams : validateRegionParams definition.body.regionParams = .ok ()
  typeParams : validateTypeParamNames definition.body.typeParams = .ok ()
  members : validateMemberDefs definition.memberLabel definition.body.members = .ok ()

private theorem regionParams_read {params : List RegionParamDef}
    (valid : validateRegionParams params = .ok ()) :
    regionParamsFromPayload (some (.array (params.map RegionParamDef.toValue))) = .ok params := by
  refine Except.bind_eq_ok.mpr ⟨params, Except.mapM_eq_ok.mpr ?_,
    Except.bind_eq_ok.mpr ⟨(), valid, rfl⟩⟩
  rw [List.forall₂_map_left_iff]
  exact List.forall₂_same.mpr fun _ _ => rfl

private theorem typeParams_read {names : List String}
    (valid : validateTypeParamNames names = .ok ()) {value : Option JsonValue}
    (found : value = if names.isEmpty then none else
      some (.array (names.map fun name => .object [("name", .string name)]))) :
    typeParamsFromPayload value = .ok names := by
  subst found
  cases names with
  | nil => rfl
  | cons name names =>
    refine Except.bind_eq_ok.mpr ⟨name :: names, Except.mapM_eq_ok.mpr ?_,
      Except.bind_eq_ok.mpr ⟨(), valid, rfl⟩⟩
    rw [List.forall₂_map_left_iff]
    exact List.forall₂_same.mpr fun _ _ => rfl

private theorem members_read {definition : TypeDefinition} {label : String}
    (valid : validateMemberDefs label definition.body.members = .ok ()) :
    memberDefsFromPayload label definition.keys.symbol
      (some (.array (definition.body.members.map fun m =>
        .object (sortOn (·.1) [(definition.keys.symbol, .string m.memberSymbol),
          ("name", .string m.name), ("type", .string m.typeHash)])))) =
      .ok definition.body.members := by
  refine Except.bind_eq_ok.mpr ⟨definition.body.members, Except.mapM_eq_ok.mpr ?_,
    Except.bind_eq_ok.mpr ⟨(), valid, rfl⟩⟩
  rw [List.forall₂_map_left_iff]
  refine List.forall₂_same.mpr fun m _ => ?_
  have other : (("name" : String) == definition.keys.symbol) = false ∧
      (("type" : String) == definition.keys.symbol) = false := by
    cases definition <;> simp [TypeDefinition.keys, recordKeys, enumKeys]
  refine Except.bind_eq_ok.mpr ⟨m.memberSymbol, getStr_member definition m (by simp), ?_⟩
  refine Except.bind_eq_ok.mpr ⟨m.name, getStr_member definition m
    (by simp [List.lookup_cons, other.1]), ?_⟩
  exact Except.bind_eq_ok.mpr ⟨m.typeHash, getStr_member definition m
    (by simp [List.lookup_cons, other.2]), rfl⟩

/-- The values under the keys of the payload of a type definition. -/
private theorem get?_entries (definition : TypeDefinition) :
    definition.payload.get? "type_symbol" = some (.string definition.body.typeSymbol) ∧
    definition.payload.get? "region_params" =
      some (.array (definition.body.regionParams.map RegionParamDef.toValue)) ∧
    definition.payload.get? "type_params" = (if definition.body.typeParams.isEmpty then none else
      some (.array (definition.body.typeParams.map fun name =>
        .object [("name", .string name)]))) ∧
    definition.payload.get? definition.keys.members =
      some (.array (definition.body.members.map fun m =>
        .object (sortOn (·.1) [(definition.keys.symbol, .string m.memberSymbol),
          ("name", .string m.name), ("type", .string m.typeHash)]))) := by
  simp only [get?_payload, TypeDefinition.entries]
  cases definition <;>
    simp [TypeDefinition.keys, recordKeys, enumKeys, List.lookup_cons, lookup_listEntry_append]

/-- The body of a stored definition is read. -/
theorem definitionBody_stored {definition : TypeDefinition}
    (stored : Stored plain objects definition.keys.objectKind definition.payload)
    (valid : definition.Valid) (shown : String) :
    definitionBody plain objects definition.keys definition.memberLabel shown
      definition.body.typeSymbol
      (objectHash plain definition.keys.objectKind definition.payload) = .ok definition.body := by
  obtain ⟨symbol, regions, params, members⟩ := get?_entries definition
  refine Except.bind_eq_ok.mpr ⟨_, stored.getKind, ?_⟩
  rw [if_neg (not_not.mpr rfl)]
  refine Except.bind_eq_ok.mpr ⟨_, stored.getPayload (fixed_typeDefinition _ _), ?_⟩
  refine Except.bind_eq_ok.mpr ⟨definition.body.typeSymbol, ?_, ?_⟩
  · rw [JsonValue.getStr, symbol]
    rfl
  rw [if_neg (not_not.mpr rfl)]
  refine Except.bind_eq_ok.mpr ⟨definition.body.regionParams, ?_, ?_⟩
  · rw [regions]
    exact regionParams_read valid.regionParams
  refine Except.bind_eq_ok.mpr ⟨definition.body.typeParams,
    typeParams_read valid.typeParams params, ?_⟩
  refine Except.bind_eq_ok.mpr ⟨definition.body.members, ?_, rfl⟩
  rw [members]
  exact members_read valid.members

/-- The object that refers to the definition of a type. -/
def typeDefPayload (typeSymbol : Hash) (definition : TypeDefinition) : JsonValue :=
  .object [("definition", .string (objectHash plain definition.keys.objectKind definition.payload)),
    ("type_kind", .string definition.keys.typeKind), ("type_symbol", .string typeSymbol)]

/-- A stored type definition is read. -/
theorem typeDefinition_stored {definition : TypeDefinition}
    (body : Stored plain objects definition.keys.objectKind definition.payload)
    (stored : Stored plain objects "TypeDef" (typeDefPayload definition.body.typeSymbol definition))
    (valid : definition.Valid) :
    typeDefinition plain objects (objectHash plain "TypeDef"
      (typeDefPayload definition.body.typeSymbol definition)) = .ok definition := by
  have fixed : Fixed plain.floatText (typeDefPayload definition.body.typeSymbol definition) :=
    Fixed.object (by simp only [List.map]; decide) (by simp [Fixed.string])
  have read := definitionBody_stored body valid
  refine Except.bind_eq_ok.mpr ⟨_, stored.getKind, ?_⟩
  rw [if_neg (not_not.mpr rfl)]
  refine Except.bind_eq_ok.mpr ⟨_, stored.getPayload fixed, ?_⟩
  refine Except.bind_eq_ok.mpr ⟨definition.body.typeSymbol, rfl, ?_⟩
  refine Except.bind_eq_ok.mpr ⟨definition.keys.typeKind, rfl, ?_⟩
  refine Except.bind_eq_ok.mpr ⟨_, rfl, ?_⟩
  cases definition with
  | record => exact Except.bind_eq_ok.mpr ⟨_, read "record", rfl⟩
  | enum => exact Except.bind_eq_ok.mpr ⟨_, read "enum", rfl⟩

/-- A definition that passes the checks is stored, and can be read from then on. -/
theorem putTypeDef_run {definition : TypeDefinition} (addressed : Addressed plain objects)
    (valid : definition.Valid) :
    ∃ typeDef stored, (putTypeDef definition.body.typeSymbol definition : StoreM plain _).run
        objects = .ok (typeDef, stored) ∧ hasHashPrefix typeDef ∧ typeDef ∈ stored ∧
      ∀ {later}, Grows plain stored later →
        typeDefinition plain later typeDef = .ok definition := by
  have grows := grows_putObject (P := plain) objects definition.keys.objectKind definition.payload
  have grows' := grows_putObject (P := plain)
    (putObject plain objects definition.keys.objectKind definition.payload).2 "TypeDef"
    (typeDefPayload definition.body.typeSymbol definition)
  have body : Stored plain _ definition.keys.objectKind definition.payload :=
    Stored.put plain_reliable addressed
  have typed : Stored plain _ "TypeDef" (typeDefPayload definition.body.typeSymbol definition) :=
    Stored.put plain_reliable (grows.addressed addressed)
  have run : (putTypeDef definition.body.typeSymbol definition : StoreM plain _).run objects =
      .ok (putObject plain (putObject plain objects definition.keys.objectKind
        definition.payload).2 "TypeDef"
          (typeDefPayload definition.body.typeSymbol definition)) := by
    rw [putTypeDef, if_neg (not_not.mpr rfl)]
    exact StoreM.run_lift_bind.mpr ⟨(), valid.regionParams,
      StoreM.run_lift_bind.mpr ⟨(), valid.typeParams,
      StoreM.run_lift_bind.mpr ⟨(), valid.members, StoreM.run_bind.mpr ⟨_, _, rfl, rfl⟩⟩⟩⟩
  exact ⟨_, _, run, hasHashPrefix_objectHash _ _ _, typed.mem,
    fun later => typeDefinition_stored ((body.grow grows').grow later) (typed.grow later) valid⟩

end CodeDb

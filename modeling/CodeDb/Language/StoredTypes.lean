import CodeDb.Language.MemberNames
import CodeDb.Store.RoundTrip

/-!
# Types that are stored

What a type is, where its payload is stored and read back as it is.

## Main results

* `typeSpec_typeI64` — a builtin type needs no store
* `Stored.typeSpec` — any other is what its payload says
* `Stored.typeSpec_enum` — an enum has the variants it is stored with
* `Stored.typeSpec_record` — a record has the fields it is stored with
* `typeSpecInRoot_defined` — a named type has the members of its definition
-/

namespace CodeDb

variable {objects : Objects}

theorem fixed_strings (l : List String) : Fixed plain.floatText (.strings l) :=
  Fixed.array Fixed.string l

theorem fixed_builtin (kind : String) :
    Fixed plain.floatText (.object [("type_kind", .string kind)]) :=
  Fixed.object (by simp) (by simp [Fixed.string])

theorem typeHashFor_inj {kind other : String}
    (same : typeHashFor plain kind = typeHashFor plain other) : kind = other := by
  simpa using objectHash_value_inj (fixed_builtin kind) (fixed_builtin other) same

def typeI64 : Hash := typeHashFor plain "I64"

theorem scalarIntTypeByHash_typeI64 : scalarIntTypeByHash plain typeI64 = some i64 := by
  have same : (fun t : ScalarIntType => typeI64 == typeHashFor plain t.name) =
      fun t => "I64" == t.name := by
    funext t
    rw [Bool.eq_iff_iff, beq_iff_eq, beq_iff_eq]
    exact ⟨typeHashFor_inj, congrArg _⟩
  rw [scalarIntTypeByHash, same]
  rfl

theorem typeSpec_typeI64 (objects : Objects) :
    typeSpec plain objects typeI64 = .ok (.builtin "I64") := by
  rw [typeSpec, scalarIntTypeByHash_typeI64]
  rfl

/-- A stored type that is not builtin is what its payload says. -/
theorem Stored.typeSpec {payload : JsonValue} (stored : Stored plain objects "Type" payload)
    (fixed : Fixed plain.floatText payload)
    (composite : ∀ kind, payload ≠ .object [("type_kind", .string kind)]) :
    typeSpec plain objects (objectHash plain "Type" payload) = typeSpecFromPayload payload := by
  have other (kind : String) : objectHash plain "Type" payload ≠ typeHashFor plain kind :=
    fun same => composite kind (objectHash_value_inj fixed (fixed_builtin kind) same)
  have notInt : scalarIntTypeByHash plain (objectHash plain "Type" payload) = none :=
    List.find?_eq_none.mpr fun t _ => by simp [other]
  rw [CodeDb.typeSpec, notInt]
  simp only [other, if_false, stored.getKind, stored.getPayload fixed, bind, Except.bind, ne_eq,
    not_true_eq_false]

/-! ### Enums -/

theorem canonicalTypeFields_of_ascending {label : String} {fields : List TypeFieldSpec}
    (some : fields ≠ []) (identifiers : ∀ f ∈ fields, isProjectionIdentifier f.name)
    (ascending : fields.Pairwise (·.name < ·.name)) :
    canonicalTypeFields label fields = .ok fields := by
  have distinct : (fields.map (·.name)).Nodup :=
    List.pairwise_map.mpr (ascending.imp fun lt => lt.ne)
  rw [canonicalTypeFields, if_neg (by simpa using some)]
  refine Except.bind_eq_ok.mpr ⟨(), validateDistinct_eq_ok
    (fun f listed => if_pos (identifiers f listed)) distinct (by simp), ?_⟩
  rw [SortOn.sortOn_eq_self _ (ascending.imp fun lt => lt.le)]
  rfl

theorem typeFieldsFromPayload_typeFieldsValue {label : String} {fields : List TypeFieldSpec}
    (some : fields ≠ []) (identifiers : ∀ f ∈ fields, isProjectionIdentifier f.name)
    (ascending : fields.Pairwise (·.name < ·.name)) :
    typeFieldsFromPayload label (.some (typeFieldsValue fields)) = .ok fields := by
  refine Except.bind_eq_ok.mpr
    ⟨fields, ?_, canonicalTypeFields_of_ascending some identifiers ascending⟩
  rw [List.mapM_map]
  refine Except.mapM_eq_ok.mpr (List.forall₂_same.mpr fun f listed => ?_)
  have valid : validateProjectionIdentifier label f.name = .ok () := if_pos (identifiers f listed)
  exact Except.bind_eq_ok.mpr ⟨f.name, rfl,
    Except.bind_eq_ok.mpr ⟨(), valid, Except.bind_eq_ok.mpr ⟨f.typeHash, rfl, rfl⟩⟩⟩

theorem fixed_typeFieldsValue (fields : List TypeFieldSpec) :
    Fixed plain.floatText (typeFieldsValue fields) :=
  Fixed.array (fun _ => Fixed.object (by simp only [List.map]; decide) (by simp [Fixed.string])) _

def enumPayload (variants : List TypeFieldSpec) : JsonValue :=
  .object [("type_kind", .string "Enum"), ("variants", typeFieldsValue variants)]

/-- An enum that is stored has the variants it is stored with. -/
theorem Stored.typeSpec_enum {variants : List TypeFieldSpec}
    (stored : Stored plain objects "Type" (enumPayload variants))
    (some : variants ≠ []) (identifiers : ∀ v ∈ variants, isProjectionIdentifier v.name)
    (ascending : variants.Pairwise (·.name < ·.name)) :
    CodeDb.typeSpec plain objects (objectHash plain "Type" (enumPayload variants)) =
      .ok (.enum variants) := by
  have fixed : Fixed plain.floatText (enumPayload variants) :=
    Fixed.object (by simp only [List.map]; decide) (by simp [Fixed.string, fixed_typeFieldsValue])
  rw [stored.typeSpec fixed (by simp [enumPayload])]
  exact Except.bind_eq_ok.mpr ⟨"Enum", rfl, Except.bind_eq_ok.mpr
    ⟨variants, typeFieldsFromPayload_typeFieldsValue some identifiers ascending, rfl⟩⟩

/-! ### Records -/

def recordPayload (fields : List TypeFieldSpec) : JsonValue :=
  .object [("fields", typeFieldsValue fields), ("type_kind", .string "Record")]

theorem fixed_recordPayload (fields : List TypeFieldSpec) :
    Fixed plain.floatText (recordPayload fields) :=
  Fixed.object (by simp only [List.map]; decide) (by simp [Fixed.string, fixed_typeFieldsValue])

/-- A record that is stored has the fields it is stored with. -/
theorem Stored.typeSpec_record {fields : List TypeFieldSpec}
    (stored : Stored plain objects "Type" (recordPayload fields))
    (some : fields ≠ []) (identifiers : ∀ f ∈ fields, isProjectionIdentifier f.name)
    (ascending : fields.Pairwise (·.name < ·.name)) :
    CodeDb.typeSpec plain objects (objectHash plain "Type" (recordPayload fields)) =
      .ok (.record fields) := by
  rw [stored.typeSpec (fixed_recordPayload fields) (by simp [recordPayload])]
  exact Except.bind_eq_ok.mpr ⟨"Record", rfl, Except.bind_eq_ok.mpr
    ⟨fields, typeFieldsFromPayload_typeFieldsValue some identifiers ascending, rfl⟩⟩

/-! ### In a root -/

/-- A type that is not named is the same in every root. -/
theorem typeSpecInRoot_of_not_named {P : Primitives} {root : ProgramRootPayload} {type : Hash}
    {spec : TypeSpec}
    (found : typeSpec P objects type = .ok spec)
    (unnamed : ∀ typeSymbol regionArgs typeArgs, spec ≠ .named typeSymbol regionArgs typeArgs) :
    typeSpecInRoot P objects root type = .ok spec := by
  refine Except.bind_eq_ok.mpr ⟨spec, found, ?_⟩
  cases spec with
  | named => exact absurd rfl (unnamed _ _ _)
  | _ => rfl

/-- What a definition without parameters stands for. -/
def TypeDefinition.spec (definition : TypeDefinition) : TypeSpec :=
  let members := definition.body.members.map fun m => ⟨m.name, m.typeHash⟩
  match definition with
  | .record _ => .record members
  | .enum _ => .enum members

/-- A type that is defined without parameters has the members of its definition. -/
theorem typeSpecInRoot_defined {P : Primitives} {root : ProgramRootPayload}
    {type typeSymbol : Hash} {entry : RootTypePayload} {definition : TypeDefinition}
    (found : typeSpec P objects type = .ok (.named typeSymbol [] []))
    (listed : rootType root typeSymbol = some entry)
    (defined : typeDefinition P objects entry.typeDef = .ok definition)
    (noRegions : definition.body.regionParams = []) (noTypes : definition.body.typeParams = []) :
    typeSpecInRoot P objects root type = .ok definition.spec := by
  have unchanged (hash : Hash) :
      substituteTypeHash P objects ∅ [] (typeDepth objects) hash = .ok hash := by
    rw [typeDepth, substituteTypeHash]
    rfl
  have members : substituteMembers P objects ∅ [] definition.body.members =
      .ok (definition.body.members.map fun m => ⟨m.name, m.typeHash⟩) := by
    simp only [substituteMembers, unchanged]
    exact Except.mapM_ok _ _
  refine Except.bind_eq_ok.mpr ⟨_, found, ?_⟩
  dsimp only
  rw [listed]
  refine Except.bind_eq_ok.mpr ⟨_, defined, ?_⟩
  simp only [noRegions, noTypes, ne_eq, not_true_eq_false, if_false]
  refine Except.bind_eq_ok.mpr ⟨_, members, ?_⟩
  cases definition <;> rfl

/-- An enum that is defined without parameters has the variants of its definition. -/
theorem typeSpecInRoot_enum {P : Primitives} {root : ProgramRootPayload} {type typeSymbol : Hash}
    {entry : RootTypePayload} {body : TypeDefinitionBody}
    (found : typeSpec P objects type = .ok (.named typeSymbol [] []))
    (listed : rootType root typeSymbol = some entry)
    (defined : typeDefinition P objects entry.typeDef = .ok (.enum body))
    (noRegions : body.regionParams = []) (noTypes : body.typeParams = []) :
    typeSpecInRoot P objects root type =
      .ok (.enum (body.members.map fun m => ⟨m.name, m.typeHash⟩)) :=
  typeSpecInRoot_defined found listed defined noRegions noTypes

end CodeDb

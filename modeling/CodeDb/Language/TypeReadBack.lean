import CodeDb.Language.Instances

/-!
# Types are read back

What is read of a type is in a canonical form: the fields of a record are ordered, and numbers are
in range. A type in this form is read as it was stored, and it has a hash of its own.

## Main definitions

* `Primitives.ReadsTypes` — the texts of types are read back
* `TypeSpec.Canonical` — the form of the types that are read

## Main results

* `typeSpecFromPayload_eq_ok` — a type in this form is read from its payload
* `canonical_of_typeSpec` — what is read is in this form
* `typeSpec_unique` — a type is the same wherever it is stored
* `hashForTypeSpec_inj` — types in this form have hashes of their own
-/

namespace CodeDb

open SortOn

/-- What the reader of JSON is relied on for: the canonical texts of types are read back. -/
structure Primitives.ReadsTypes (P : Primitives) : Prop where
  readBack : ∀ {spec payload}, typePayloadForSpec spec = .ok payload → P.Reads payload payload

def TypeFieldSpec.Ordered (members : List TypeFieldSpec) : Prop :=
  members ≠ [] ∧ (∀ m ∈ members, isProjectionIdentifier m.name) ∧
    members.Pairwise (·.name < ·.name)

/-- The form of the types that are read. -/
def TypeSpec.Canonical : TypeSpec → Prop
  | .builtin kind => kind = "Bool" ∨ kind = "Unit" ∨ ∃ int ∈ scalarIntTypes, int.name = kind
  | .typeParam index => index < 2 ^ 32
  | .fixedArray _ len => len < 2 ^ 64
  | .record members | .enum members => TypeFieldSpec.Ordered members
  | _ => True

theorem ordered_of_canonicalTypeFields {label : String} {members ordered : List TypeFieldSpec}
    (run : canonicalTypeFields label members = .ok ordered)
    (valid : ∀ m ∈ members, isProjectionIdentifier m.name) : TypeFieldSpec.Ordered ordered := by
  unfold canonicalTypeFields at run
  split_ifs at run with none
  obtain ⟨_, distinct, run⟩ := Except.bind_eq_ok.mp run
  obtain rfl := Except.pure_eq_ok.mp run
  have perm := sortOn_perm (·.name) members
  refine ⟨fun empty => none ?_, fun m listed => valid m (perm.mem_iff.mp listed), ?_⟩
  · rw [empty] at perm
    rw [perm.symm.eq_nil]
    rfl
  · have apart := (perm.map (·.name)).nodup_iff.mpr (nodup_of_validateDistinct distinct).1
    exact List.Pairwise.imp₂ (fun _ _ le ne => lt_of_le_of_ne le ne)
      (pairwise_sortOn (·.name) members) (List.pairwise_map.mp apart)

theorem ordered_of_typeFieldsFromPayload {label : String} {value : Option JsonValue}
    {members : List TypeFieldSpec} (run : typeFieldsFromPayload label value = .ok members) :
    TypeFieldSpec.Ordered members := by
  unfold typeFieldsFromPayload at run
  split at run
  · rename_i values
    obtain ⟨read, each, run⟩ := Except.bind_eq_ok.mp run
    refine ordered_of_canonicalTypeFields run fun m listed => ?_
    obtain ⟨entry, -, run⟩ := Except.exists_of_mem_mapM each listed
    obtain ⟨name, -, run⟩ := Except.bind_eq_ok.mp run
    obtain ⟨_, valid, run⟩ := Except.bind_eq_ok.mp run
    obtain ⟨typeHash, -, run⟩ := Except.bind_eq_ok.mp run
    obtain rfl := Except.pure_eq_ok.mp run
    unfold validateProjectionIdentifier at valid
    split_ifs at valid with identifier
    exact identifier
  · cases run

theorem lt_of_asU64? {message : Error} {value : Option JsonValue} {n : Nat}
    (found : JsonValue.require message (JsonValue.asU64? value) = .ok n) : n < 2 ^ 64 := by
  match value, found with
  | some (.number (.posInt m)), found =>
    obtain rfl := Except.ok.inj found
    exact m.toNat_lt

theorem canonical_of_typeSpecFromPayload {payload : JsonValue} {spec : TypeSpec}
    (run : typeSpecFromPayload payload = .ok spec) : spec.Canonical := by
  obtain ⟨kind, -, run⟩ := Except.bind_eq_ok.mp run
  dsimp only at run
  -- the kinds in the order of the source; only indexes, lengths and members are bounded
  split at run
  · obtain rfl := Except.pure_eq_ok.mp run
    exact Or.inl rfl
  · obtain rfl := Except.pure_eq_ok.mp run
    exact Or.inr (Or.inl rfl)
  · obtain ⟨_, -, run⟩ := Except.bind_eq_ok.mp run
    obtain ⟨_, -, run⟩ := Except.bind_eq_ok.mp run
    obtain ⟨_, -, run⟩ := Except.bind_eq_ok.mp run
    obtain ⟨_, -, run⟩ := Except.bind_eq_ok.mp run
    obtain ⟨_, -, run⟩ := Except.bind_eq_ok.mp run
    obtain rfl := Except.pure_eq_ok.mp run
    trivial
  · obtain ⟨index, -, run⟩ := Except.bind_eq_ok.mp run
    split_ifs at run with small
    obtain rfl := Except.pure_eq_ok.mp run
    exact small
  · obtain ⟨_, -, run⟩ := Except.bind_eq_ok.mp run
    obtain ⟨_, -, run⟩ := Except.bind_eq_ok.mp run
    obtain ⟨_, -, run⟩ := Except.bind_eq_ok.mp run
    obtain rfl := Except.pure_eq_ok.mp run
    trivial
  · obtain ⟨_, -, run⟩ := Except.bind_eq_ok.mp run
    obtain ⟨_, -, run⟩ := Except.bind_eq_ok.mp run
    obtain rfl := Except.pure_eq_ok.mp run
    trivial
  · obtain ⟨_, -, run⟩ := Except.bind_eq_ok.mp run
    obtain rfl := Except.pure_eq_ok.mp run
    trivial
  · obtain ⟨_, -, run⟩ := Except.bind_eq_ok.mp run
    obtain rfl := Except.pure_eq_ok.mp run
    trivial
  · obtain rfl := Except.pure_eq_ok.mp run
    trivial
  · obtain ⟨_, -, run⟩ := Except.bind_eq_ok.mp run
    obtain ⟨_, -, run⟩ := Except.bind_eq_ok.mp run
    obtain ⟨_, -, run⟩ := Except.bind_eq_ok.mp run
    obtain rfl := Except.pure_eq_ok.mp run
    trivial
  · obtain ⟨_, -, run⟩ := Except.bind_eq_ok.mp run
    obtain ⟨len, found, run⟩ := Except.bind_eq_ok.mp run
    obtain rfl := Except.pure_eq_ok.mp run
    exact lt_of_asU64? found
  · obtain ⟨members, read, run⟩ := Except.bind_eq_ok.mp run
    obtain rfl := Except.pure_eq_ok.mp run
    exact ordered_of_typeFieldsFromPayload read
  · obtain ⟨members, read, run⟩ := Except.bind_eq_ok.mp run
    obtain rfl := Except.pure_eq_ok.mp run
    exact ordered_of_typeFieldsFromPayload read
  -- a kind that is none of these has to be the name of an integer type
  · split_ifs at run with known
    obtain rfl := Except.pure_eq_ok.mp run
    obtain ⟨int, found⟩ := Option.isSome_iff_exists.mp known
    exact Or.inr (Or.inr ⟨int, List.mem_of_find?_eq_some found,
      beq_iff_eq.mp (List.find?_some (p := fun t : ScalarIntType => t.name == kind) found)⟩)

theorem getStrings_strings (notString : Error) (l : List String) :
    JsonValue.getStrings notString (l.map .string) = .ok l := by
  refine Except.mapM_eq_ok.mpr ?_
  rw [List.forall₂_map_left_iff]
  exact List.forall₂_same.mpr fun _ _ => rfl

theorem optionalStrings_eq_ok {l : List String} {payload : JsonValue} {key : String}
    (notArray notString : Error) (listed : payload.get? key = some (.strings l)) :
    optionalStrings payload key notArray notString = .ok l := by
  rw [optionalStrings, listed]
  exact getStrings_strings notString l

theorem optionalStrings_listEntry {l : List String} {payload : JsonValue} {key : String}
    (notArray notString : Error)
    (listed : payload.get? key = if l.isEmpty then none else some (.strings l)) :
    optionalStrings payload key notArray notString = .ok l := by
  cases l with
  | nil => rw [optionalStrings, listed, List.isEmpty_nil, if_pos rfl]
  | cons a l => exact optionalStrings_eq_ok notArray notString listed

/-- A type in canonical form is read from its payload. -/
theorem typeSpecFromPayload_eq_ok {spec : TypeSpec} {payload : JsonValue}
    (canonical : spec.Canonical) (written : typePayloadForSpec spec = .ok payload) :
    typeSpecFromPayload payload = .ok spec := by
  -- what writing checked of the parts, reading checks again
  cases spec with
  | builtin kind =>
    obtain rfl := Except.ok.inj written
    rcases canonical with rfl | rfl | ⟨int, listed, rfl⟩
    · rfl
    · rfl
    · simp only [scalarIntTypes, List.mem_cons, List.not_mem_nil, or_false] at listed
      rcases listed with rfl | rfl | rfl | rfl | rfl | rfl | rfl | rfl <;> rfl
  | named typeSymbol regionArgs typeArgs =>
    obtain ⟨_, regions, written⟩ := Except.bind_eq_ok.mp written
    obtain ⟨_, types, written⟩ := Except.bind_eq_ok.mp written
    obtain rfl := Except.pure_eq_ok.mp written
    refine Except.bind_eq_ok.mpr ⟨"Named", ?_, Except.bind_eq_ok.mpr ⟨typeSymbol, ?_,
      Except.bind_eq_ok.mpr ⟨regionArgs, optionalStrings_eq_ok _ _ ?_,
      Except.bind_eq_ok.mpr ⟨(), regions, Except.bind_eq_ok.mpr
      ⟨typeArgs, optionalStrings_listEntry _ _ ?_, Except.bind_eq_ok.mpr ⟨(), types, rfl⟩⟩⟩⟩⟩⟩
    all_goals cases typeArgs <;> rfl
  | typeParam index =>
    obtain rfl := Except.ok.inj written
    -- a number is written in 64 bits, and fits
    have small : index % 2 ^ 64 = index :=
      Nat.mod_eq_of_lt (Nat.lt_trans (show index < 2 ^ 32 from canonical) (by decide))
    refine Except.bind_eq_ok.mpr ⟨"TypeParam", rfl, Except.bind_eq_ok.mpr
      ⟨(UInt64.ofNat index).toNat, rfl, ?_⟩⟩
    rw [UInt64.toNat_ofNat', small, if_pos (show index < 2 ^ 32 from canonical)]
    rfl
  | reference region isMut referent =>
    obtain ⟨_, valid, written⟩ := Except.bind_eq_ok.mp written
    obtain ⟨_, valid', written⟩ := Except.bind_eq_ok.mp written
    obtain rfl := Except.pure_eq_ok.mp written
    exact Except.bind_eq_ok.mpr ⟨"Reference", rfl, Except.bind_eq_ok.mpr ⟨region,
      Except.bind_eq_ok.mpr ⟨region, rfl, Except.bind_eq_ok.mpr ⟨(), valid, rfl⟩⟩,
      Except.bind_eq_ok.mpr ⟨isMut, rfl, Except.bind_eq_ok.mpr ⟨referent,
        Except.bind_eq_ok.mpr ⟨referent, rfl, Except.bind_eq_ok.mpr ⟨(), valid', rfl⟩⟩, rfl⟩⟩⟩⟩
  | rawPointer isMut pointee =>
    obtain ⟨_, valid, written⟩ := Except.bind_eq_ok.mp written
    obtain rfl := Except.pure_eq_ok.mp written
    exact Except.bind_eq_ok.mpr ⟨"RawPointer", rfl, Except.bind_eq_ok.mpr ⟨isMut, rfl,
      Except.bind_eq_ok.mpr ⟨pointee,
        Except.bind_eq_ok.mpr ⟨pointee, rfl, Except.bind_eq_ok.mpr ⟨(), valid, rfl⟩⟩, rfl⟩⟩⟩
  | box element =>
    obtain ⟨_, valid, written⟩ := Except.bind_eq_ok.mp written
    obtain rfl := Except.pure_eq_ok.mp written
    exact Except.bind_eq_ok.mpr ⟨"Box", rfl, Except.bind_eq_ok.mpr ⟨element,
      Except.bind_eq_ok.mpr ⟨element, rfl, Except.bind_eq_ok.mpr ⟨(), valid, rfl⟩⟩, rfl⟩⟩
  | vec element =>
    obtain ⟨_, valid, written⟩ := Except.bind_eq_ok.mp written
    obtain rfl := Except.pure_eq_ok.mp written
    exact Except.bind_eq_ok.mpr ⟨"Vec", rfl, Except.bind_eq_ok.mpr ⟨element,
      Except.bind_eq_ok.mpr ⟨element, rfl, Except.bind_eq_ok.mpr ⟨(), valid, rfl⟩⟩, rfl⟩⟩
  | string =>
    obtain rfl := Except.ok.inj written
    rfl
  | slice region isMut element =>
    obtain ⟨_, valid, written⟩ := Except.bind_eq_ok.mp written
    obtain ⟨_, valid', written⟩ := Except.bind_eq_ok.mp written
    obtain rfl := Except.pure_eq_ok.mp written
    exact Except.bind_eq_ok.mpr ⟨"Slice", rfl, Except.bind_eq_ok.mpr ⟨region,
      Except.bind_eq_ok.mpr ⟨region, rfl, Except.bind_eq_ok.mpr ⟨(), valid, rfl⟩⟩,
      Except.bind_eq_ok.mpr ⟨isMut, rfl, Except.bind_eq_ok.mpr ⟨element,
        Except.bind_eq_ok.mpr ⟨element, rfl, Except.bind_eq_ok.mpr ⟨(), valid', rfl⟩⟩, rfl⟩⟩⟩⟩
  | fixedArray element len =>
    obtain ⟨_, valid, written⟩ := Except.bind_eq_ok.mp written
    obtain rfl := Except.pure_eq_ok.mp written
    refine Except.bind_eq_ok.mpr ⟨"FixedArray", rfl, Except.bind_eq_ok.mpr ⟨element,
      Except.bind_eq_ok.mpr ⟨element, rfl, Except.bind_eq_ok.mpr ⟨(), valid, rfl⟩⟩,
      Except.bind_eq_ok.mpr ⟨(UInt64.ofNat len).toNat, rfl, ?_⟩⟩⟩
    rw [UInt64.toNat_ofNat', Nat.mod_eq_of_lt (show len < 2 ^ 64 from canonical)]
    rfl
  | record members =>
    obtain ⟨some, identifiers, ascending⟩ := canonical
    obtain ⟨ordered, same, written⟩ := Except.bind_eq_ok.mp written
    -- members in canonical order are written in the order they have
    rw [canonicalTypeFields_of_ascending some identifiers ascending] at same
    obtain rfl := Except.ok.inj same
    obtain rfl := Except.pure_eq_ok.mp written
    exact Except.bind_eq_ok.mpr ⟨"Record", rfl, Except.bind_eq_ok.mpr
      ⟨members, typeFieldsFromPayload_typeFieldsValue some identifiers ascending, rfl⟩⟩
  | enum members =>
    obtain ⟨some, identifiers, ascending⟩ := canonical
    obtain ⟨ordered, same, written⟩ := Except.bind_eq_ok.mp written
    rw [canonicalTypeFields_of_ascending some identifiers ascending] at same
    obtain rfl := Except.ok.inj same
    obtain rfl := Except.pure_eq_ok.mp written
    exact Except.bind_eq_ok.mpr ⟨"Enum", rfl, Except.bind_eq_ok.mpr
      ⟨members, typeFieldsFromPayload_typeFieldsValue some identifiers ascending, rfl⟩⟩

/-! ### In a store -/

section Stores

variable {P : Primitives} {objects later : Objects} {type : Hash} {spec : TypeSpec}

theorem hashForTypeSpec_eq_ok {hash : Hash} : hashForTypeSpec P spec = .ok hash ↔
    ∃ payload, typePayloadForSpec spec = .ok payload ∧ objectHash P "Type" payload = hash := by
  rw [hashForTypeSpec, Except.bind_eq_ok]
  simp only [Except.pure_eq_ok]

theorem typePayloadForSpec_builtin (kind : String) :
    typePayloadForSpec (.builtin kind) = .ok (.object [("type_kind", .string kind)]) := rfl

/-- A type is builtin, whatever is stored, or an object of the store. -/
theorem typeSpec_cases (P : Primitives) (type : Hash) :
    (∃ kind, type = typeHashFor P kind ∧ TypeSpec.Canonical (.builtin kind) ∧
      ∀ objects, typeSpec P objects type = .ok (.builtin kind)) ∨
    ∀ objects spec, typeSpec P objects type = .ok spec ↔ ∃ payload,
      getKind objects type = .ok "Type" ∧ getPayload P objects type = .ok payload ∧
        typeSpecFromPayload payload = .ok spec := by
  cases found : scalarIntTypeByHash P type with
  | some int =>
    have named := List.find?_some (p := fun t : ScalarIntType => type == typeHashFor P t.name)
      found
    refine Or.inl ⟨int.name, beq_iff_eq.mp named,
      Or.inr (Or.inr ⟨int, List.mem_of_find?_eq_some found, rfl⟩), fun objects => ?_⟩
    rw [typeSpec, found]
  | none =>
    by_cases bool : type = typeHashFor P "Bool"
    · refine Or.inl ⟨"Bool", bool, Or.inl rfl, fun objects => ?_⟩
      rw [typeSpec, found]
      exact if_pos bool
    · by_cases unit : type = typeHashFor P "Unit"
      · refine Or.inl ⟨"Unit", unit, Or.inr (Or.inl rfl), fun objects => ?_⟩
        rw [typeSpec, found]
        exact (if_neg bool).trans (if_pos unit)
      · refine Or.inr fun objects spec => ?_
        rw [typeSpec, found]
        simp only [bool, unit, if_false, Except.bind_eq_ok]
        constructor
        · rintro ⟨kind, kindRead, read⟩
          split_ifs at read with other
          obtain rfl := not_not.mp other
          obtain ⟨payload, payloadRead, read⟩ := Except.bind_eq_ok.mp read
          exact ⟨payload, kindRead, payloadRead, read⟩
        · rintro ⟨payload, kindRead, payloadRead, read⟩
          refine ⟨"Type", kindRead, ?_⟩
          rw [if_neg (not_not.mpr rfl)]
          exact Except.bind_eq_ok.mpr ⟨payload, payloadRead, read⟩

theorem Grows.typeSpec (grows : Grows P objects later)
    (read : CodeDb.typeSpec P objects type = .ok spec) :
    CodeDb.typeSpec P later type = .ok spec := by
  rcases typeSpec_cases P type with ⟨kind, -, -, always⟩ | stored
  · rwa [always] at read ⊢
  · obtain ⟨payload, kindRead, payloadRead, read⟩ := (stored objects spec).mp read
    exact (stored later spec).mpr
      ⟨payload, grows.getKind kindRead, grows.getPayload payloadRead, read⟩

/-- What is read of a type is in canonical form. -/
theorem canonical_of_typeSpec (read : typeSpec P objects type = .ok spec) : spec.Canonical := by
  rcases typeSpec_cases P type with ⟨kind, -, canonical, always⟩ | stored
  · rw [always] at read
    obtain rfl := Except.ok.inj read
    exact canonical
  · obtain ⟨payload, -, -, read⟩ := (stored objects spec).mp read
    exact canonical_of_typeSpecFromPayload read

theorem lookup_of_getKind {kind : String} (read : getKind objects type = .ok kind) :
    ∃ object, objects.lookup type = some object ∧ object.kind = kind := by
  cases found : objects.lookup type with
  | none =>
    rw [getKind, found] at read
    cases read
  | some object =>
    rw [getKind, found] at read
    exact ⟨object, rfl, Except.ok.inj read⟩

/-- What is not stored under a new hash was stored before. -/
theorem isStored_putObject {kind : String} {payload : JsonValue}
    (stored : IsStored P (putObject P objects kind payload).2 type) :
    IsStored P objects type ∨ type = objectHash P kind payload := by
  by_cases new : type = objectHash P kind payload
  · exact Or.inr new
  · obtain ⟨spec, read⟩ := stored
    have same : (putObject P objects kind payload).2.lookup type = objects.lookup type :=
      lookup_insertOrIgnore_of_ne objects _ new
    refine Or.inl ⟨spec, ?_⟩
    rcases typeSpec_cases P type with ⟨kind, -, -, always⟩ | stored
    · rwa [always] at read ⊢
    · obtain ⟨payload, kindRead, payloadRead, read⟩ := (stored _ spec).mp read
      rw [getKind, same] at kindRead
      rw [getPayload, same] at payloadRead
      exact (stored objects spec).mpr ⟨payload, kindRead, payloadRead, read⟩

/-- Nothing but what is put into a store is stored in addition. -/
theorem isStored_putAll {added : List (String × JsonValue)}
    (stored : IsStored P (putAll P objects added) type) :
    IsStored P objects type ∨ ∃ object ∈ added, type = objectHash P object.1 object.2 := by
  induction added generalizing objects with
  | nil => exact Or.inl stored
  | cons object added ih =>
    rcases ih stored with put | ⟨other, listed, same⟩
    · rcases isStored_putObject put with before | same
      · exact Or.inl before
      · exact Or.inr ⟨object, List.mem_cons_self, same⟩
    · exact Or.inr ⟨other, List.mem_cons_of_mem _ listed, same⟩

/-- In the empty store there are the builtin types. -/
theorem isStored_empty (stored : IsStored P ∅ type) : ∃ kind, type = typeHashFor P kind := by
  obtain ⟨spec, read⟩ := stored
  rcases typeSpec_cases P type with ⟨kind, builtin, -, -⟩ | only
  · exact ⟨kind, builtin⟩
  · obtain ⟨payload, kindRead, -, -⟩ := (only ∅ spec).mp read
    obtain ⟨object, found, -⟩ := lookup_of_getKind kindRead
    exact nomatch (AList.lookup_empty type).symm.trans found

theorem StoredType.grow (stored : StoredType P objects type) (grows : Grows P objects later) :
    StoredType P later type := by
  induction stored with
  | intro read _ ih => exact .intro (grows.typeSpec read) ih

variable (reliable : P.Reliable) (reads : P.ReadsTypes)
include reliable

theorem typeSpec_unique (addressed : Addressed P objects) (addressed' : Addressed P later)
    {spec' : TypeSpec} (read : typeSpec P objects type = .ok spec)
    (read' : typeSpec P later type = .ok spec') : spec = spec' := by
  rcases typeSpec_cases P type with ⟨kind, -, -, always⟩ | stored
  · rw [always] at read read'
    exact (Except.ok.inj read).symm.trans (Except.ok.inj read')
  · obtain ⟨payload, kindRead, payloadRead, read⟩ := (stored objects spec).mp read
    obtain ⟨payload', kindRead', payloadRead', read'⟩ := (stored later spec').mp read'
    obtain ⟨object, found, -⟩ := lookup_of_getKind kindRead
    obtain ⟨object', found', -⟩ := lookup_of_getKind kindRead'
    -- The hash is that of the text in either store.
    obtain ⟨value, text, hashed⟩ := addressed type object found
    obtain ⟨value', text', hashed'⟩ := addressed' type object' found'
    have texts : object.payloadJson = object'.payloadJson := by
      rw [text, text']
      exact (objectHash_inj reliable (hashed.symm.trans hashed')).2
    rw [getPayload, found] at payloadRead
    rw [getPayload, found'] at payloadRead'
    dsimp only at payloadRead payloadRead'
    rw [texts, payloadRead'] at payloadRead
    obtain rfl := Except.ok.inj payloadRead
    rw [read'] at read
    exact (Except.ok.inj read).symm

include reads

theorem payload_eq_of_hash_eq {spec' : TypeSpec} {payload payload' : JsonValue}
    (written : typePayloadForSpec spec = .ok payload)
    (written' : typePayloadForSpec spec' = .ok payload')
    (same : objectHash P "Type" payload = objectHash P "Type" payload') : payload = payload' := by
  have texts := (objectHash_inj reliable same).2
  have read := reads.readBack written
  rw [Primitives.Reads, texts, reads.readBack written'] at read
  exact (Except.ok.inj read).symm

/-- Types in canonical form have hashes of their own. -/
theorem hashForTypeSpec_inj {spec' : TypeSpec} (canonical : spec.Canonical)
    (canonical' : spec'.Canonical) (hashed : hashForTypeSpec P spec = .ok type)
    (hashed' : hashForTypeSpec P spec' = .ok type) : spec = spec' := by
  obtain ⟨payload, written, rfl⟩ := hashForTypeSpec_eq_ok.mp hashed
  obtain ⟨payload', written', same⟩ := hashForTypeSpec_eq_ok.mp hashed'
  obtain rfl := payload_eq_of_hash_eq reliable reads written' written same
  have read := typeSpecFromPayload_eq_ok canonical written
  rw [typeSpecFromPayload_eq_ok canonical' written'] at read
  exact (Except.ok.inj read).symm

/-- A type in canonical form that is stored is read as it is. -/
theorem typeSpec_of_stored {payload : JsonValue} (canonical : spec.Canonical)
    (written : typePayloadForSpec spec = .ok payload)
    (stored : Stored P objects "Type" payload) :
    typeSpec P objects (objectHash P "Type" payload) = .ok spec := by
  rcases typeSpec_cases P (objectHash P "Type" payload) with ⟨kind, builtin, named, always⟩ | read
  · rw [always, hashForTypeSpec_inj reliable reads named canonical
      (hashForTypeSpec_eq_ok.mpr ⟨_, typePayloadForSpec_builtin kind, builtin.symm⟩)
      (hashForTypeSpec_eq_ok.mpr ⟨payload, written, rfl⟩)]
  · refine (read objects spec).mpr
      ⟨payload, stored.getKind, ?_, typeSpecFromPayload_eq_ok canonical written⟩
    rw [getPayload, stored]
    exact reads.readBack written

end Stores

/-- Types are written as values that are read back as they are. -/
theorem fixed_typePayloadForSpec {floatText : UInt64 → List Char} {spec : TypeSpec}
    {payload : JsonValue} (written : typePayloadForSpec spec = .ok payload) :
    Fixed floatText payload := by
  have strings (l : List String) : Fixed floatText (.strings l) := Fixed.array Fixed.string l
  have members (l : List TypeFieldSpec) : Fixed floatText (typeFieldsValue l) :=
    Fixed.array (fun _ => Fixed.object (by simp only [List.map]; decide)
      (by simp [Fixed.string])) _
  cases spec with
  | builtin | typeParam | string =>
    obtain rfl := Except.ok.inj written
    exact Fixed.object (by simp only [List.map]; decide) (by simp [Fixed.string, Fixed.posInt])
  | named typeSymbol regionArgs typeArgs =>
    obtain ⟨_, _, written⟩ := Except.bind_eq_ok.mp written
    obtain ⟨_, _, written⟩ := Except.bind_eq_ok.mp written
    obtain rfl := Except.pure_eq_ok.mp written
    have ascending : (["region_args"] ++ ["type_args"] ++ ["type_kind", "type_symbol"]).Pairwise
        (· < ·) := by decide
    refine Fixed.object (ascending.sublist ?_) ?_
    · simp only [List.map_append]
      exact ((List.Sublist.refl _).append (keys_listEntry _ _ _)).append (List.Sublist.refl _)
    · simp only [List.mem_append, List.mem_cons, List.not_mem_nil, or_false]
      rintro e ((rfl | listed) | rfl | rfl)
      · exact strings regionArgs
      · exact Fixed.listEntry Fixed.string e listed
      · exact Fixed.string _
      · exact Fixed.string _
  | reference | slice =>
    obtain ⟨_, _, written⟩ := Except.bind_eq_ok.mp written
    obtain ⟨_, _, written⟩ := Except.bind_eq_ok.mp written
    obtain rfl := Except.pure_eq_ok.mp written
    exact Fixed.object (by simp only [List.map]; decide) (by simp [Fixed.string, Fixed.bool])
  | rawPointer | box | vec | fixedArray =>
    obtain ⟨_, _, written⟩ := Except.bind_eq_ok.mp written
    obtain rfl := Except.pure_eq_ok.mp written
    exact Fixed.object (by simp only [List.map]; decide)
      (by simp [Fixed.string, Fixed.bool, Fixed.posInt])
  | record | enum =>
    obtain ⟨_, _, written⟩ := Except.bind_eq_ok.mp written
    obtain rfl := Except.pure_eq_ok.mp written
    exact Fixed.object (by simp only [List.map]; decide) (by simp [Fixed.string, members])

theorem plain_readsTypes : plain.ReadsTypes :=
  ⟨fun written => plain_reads.mpr (fixed_typePayloadForSpec written).symm⟩

end CodeDb

import CodeDb.Language.TypeReadBack

/-!
# Substitution, part by part

What is substituted for a type is the same type over what is substituted for its parts. The hash of
it can be worked out without storing anything, and storing it on the way stores it for each of the
parts, and nothing else.

## Main definitions

* `TypeSpec.withParts` — a type over other parts
* `Puts` — what storing the types for some templates does

## Main results

* `Substitutes.unique` — what is substituted for a type is unique
* `putSubstitutedType_puts` — what is stored for a template
-/

namespace CodeDb

open ExpandM Relation

/-! ### Parts -/

section Parts

def substituteRegion (regions : SortedMap Hash Hash) (region : Hash) : Hash :=
  (regions.get? region).getD region

/-- A type over other parts, with regions substituted. -/
def TypeSpec.withParts (regions : SortedMap Hash Hash) : TypeSpec → List Hash → TypeSpec
  | .named typeSymbol regionArgs _, parts =>
    .named typeSymbol (regionArgs.map (substituteRegion regions)) parts
  | .reference region isMut _, part :: _ => .reference (substituteRegion regions region) isMut part
  | .rawPointer isMut _, part :: _ => .rawPointer isMut part
  | .box _, part :: _ => .box part
  | .vec _, part :: _ => .vec part
  | .slice region isMut _, part :: _ => .slice (substituteRegion regions region) isMut part
  | .fixedArray _ len, part :: _ => .fixedArray part len
  | .record members, parts => .record (members.zipWith (fun m part => ⟨m.name, part⟩) parts)
  | .enum members, parts => .enum (members.zipWith (fun m part => ⟨m.name, part⟩) parts)
  | spec, _ => spec

variable {regions : SortedMap Hash Hash} {spec : TypeSpec} {parts : List Hash}

theorem map_typeHash_zipWith {members : List TypeFieldSpec} :
    parts.length = members.length →
      (members.zipWith (fun m part => (⟨m.name, part⟩ : TypeFieldSpec)) parts).map (·.typeHash) =
        parts := by
  induction members generalizing parts with
  | nil =>
    intro length
    rw [List.eq_nil_of_length_eq_zero length]
    rfl
  | cons m members ih =>
    cases parts with
    | nil => exact nofun
    | cons part parts =>
      intro length
      exact congrArg (part :: ·) (ih (Nat.succ.inj length))

theorem map_name_zipWith {members : List TypeFieldSpec} :
    parts.length = members.length →
      (members.zipWith (fun m part => (⟨m.name, part⟩ : TypeFieldSpec)) parts).map (·.name) =
        members.map (·.name) := by
  induction members generalizing parts with
  | nil => exact fun _ => rfl
  | cons m members ih =>
    cases parts with
    | nil => exact nofun
    | cons part parts =>
      intro length
      exact congrArg (m.name :: ·) (ih (Nat.succ.inj length))

theorem ordered_zipWith {members : List TypeFieldSpec} (ordered : TypeFieldSpec.Ordered members)
    (length : parts.length = members.length) : TypeFieldSpec.Ordered
      (members.zipWith (fun m part => (⟨m.name, part⟩ : TypeFieldSpec)) parts) := by
  obtain ⟨some, identifiers, ascending⟩ := ordered
  have names := map_name_zipWith length
  refine ⟨fun none => some ?_, fun m listed => ?_, ?_⟩
  · rw [none] at names
    exact List.map_eq_nil_iff.mp names.symm
  · have named : m.name ∈ members.map (·.name) := names ▸ List.mem_map_of_mem listed
    obtain ⟨m', listed', same⟩ := List.mem_map.mp named
    exact same ▸ identifiers m' listed'
  · have apart : (members.map (·.name)).Pairwise (· < ·) := List.pairwise_map.mpr ascending
    rw [← names] at apart
    exact List.pairwise_map.mp apart

theorem components_withParts (length : parts.length = spec.components.length) :
    (spec.withParts regions parts).components = parts := by
  have single {parts : List Hash} (length : parts.length = 1) : ∃ part, parts = [part] :=
    List.length_eq_one_iff.mp length
  cases spec with
  | builtin | typeParam | string => exact (List.eq_nil_of_length_eq_zero length).symm
  | named => rfl
  | reference | rawPointer | box | vec | slice | fixedArray =>
    obtain ⟨part, rfl⟩ := single length
    rfl
  | record members | enum members =>
    exact map_typeHash_zipWith (length.trans (List.length_map ..))

theorem canonical_withParts (canonical : spec.Canonical)
    (length : parts.length = spec.components.length) :
    (spec.withParts regions parts).Canonical := by
  cases spec with
  | record members | enum members =>
    exact ordered_zipWith canonical (length.trans (List.length_map ..))
  | _ => cases parts <;> exact canonical

/-- A computation on the members of a type is one on their types. -/
theorem mapM_members {m : Type → Type} [Monad m] [LawfulMonad m] (f : Hash → m Hash)
    (members : List TypeFieldSpec) :
    (members.mapM fun member => do return (⟨member.name, ← f member.typeHash⟩ : TypeFieldSpec)) =
      (do
        let parts ← (members.map (·.typeHash)).mapM f
        return members.zipWith (fun m part => ⟨m.name, part⟩) parts) := by
  induction members with
  | nil => simp
  | cons member members ih =>
    simp only [List.mapM_cons, List.map_cons, ih, bind_assoc, pure_bind,
      List.zipWith_cons_cons]

end Parts

/-! ### Hashes of types -/

section Hashes

variable (P : Primitives) (objects : Objects) (regions : SortedMap Hash Hash) (args : List Hash)

theorem substituteTypeHash_succ (depth : Nat) (type : Hash) :
    substituteTypeHash P objects regions args (depth + 1) type =
      if regions.entries.isEmpty && args.isEmpty then .ok type
      else (do
        match ← typeSpec P objects type with
        | .builtin _ => return type
        | .typeParam index =>
          JsonValue.require ("type parameter " ++ toString index ++
            " has no substitution argument") (args[index]?)
        | spec => do
          let parts ← spec.components.mapM (substituteTypeHash P objects regions args depth)
          hashForTypeSpec P (spec.withParts regions parts)) := by
  rw [substituteTypeHash]
  refine ite_congr rfl (fun _ => rfl) fun _ => bind_congr fun spec => ?_
  cases spec with
  | record members | enum members =>
    simp only [mapM_members, bind_assoc, pure_bind]
    rfl
  | _ => simp [TypeSpec.components, TypeSpec.withParts, substituteRegion]; try rfl

variable {P objects regions args} {depth depth' : Nat} {template type type' : Hash}

/-- What is substituted for a type that is neither builtin nor a parameter. -/
theorem substituteTypeHash_of_parts {spec : TypeSpec} {parts : List Hash}
    (some : ¬(regions.entries.isEmpty && args.isEmpty))
    (read : typeSpec P objects template = .ok spec)
    (composite : ∀ kind, spec ≠ .builtin kind) (ground : ∀ index, spec ≠ .typeParam index)
    (substituted : spec.components.mapM (substituteTypeHash P objects regions args depth) =
      .ok parts) :
    substituteTypeHash P objects regions args (depth + 1) template =
      hashForTypeSpec P (spec.withParts regions parts) := by
  rw [substituteTypeHash_succ, if_neg some, read]
  cases spec with
  | builtin kind => exact absurd rfl (composite kind)
  | typeParam index => exact absurd rfl (ground index)
  | _ =>
    simp only [bind, Except.bind] at substituted ⊢
    rw [substituted]

theorem substituteTypeHash_mono (le : depth ≤ depth')
    (run : substituteTypeHash P objects regions args depth template = .ok type) :
    substituteTypeHash P objects regions args depth' template = .ok type := by
  induction depth generalizing depth' template type with
  | zero => cases run
  | succ depth ih =>
    obtain ⟨depth', rfl⟩ := Nat.exists_eq_add_of_le' (Nat.le_trans (Nat.le_add_left 1 depth) le)
    rw [substituteTypeHash_succ] at run ⊢
    split_ifs at run ⊢ with none
    · exact run
    · obtain ⟨spec, read, run⟩ := Except.bind_eq_ok.mp run
      refine Except.bind_eq_ok.mpr ⟨spec, read, ?_⟩
      split at run
      · exact run
      · exact run
      · obtain ⟨parts, each, run⟩ := Except.bind_eq_ok.mp run
        refine Except.bind_eq_ok.mpr ⟨parts, Except.mapM_eq_ok.mpr ?_, run⟩
        exact (Except.mapM_eq_ok.mp each).imp fun _ _ => ih (Nat.le_of_succ_le_succ le)

/-- What is substituted for a type is unique. -/
theorem Substitutes.unique (substitutes : Substitutes P objects regions args template type)
    (substitutes' : Substitutes P objects regions args template type') : type = type' := by
  obtain ⟨depth, run⟩ := substitutes
  obtain ⟨depth', run'⟩ := substitutes'
  have deep := substituteTypeHash_mono (Nat.le_max_left depth depth') run
  rw [substituteTypeHash_mono (Nat.le_max_right depth depth') run'] at deep
  exact (Except.ok.inj deep).symm

/-- Without anything to substitute a type stays what it is. -/
theorem substitutes_of_none (none : regions.entries.isEmpty && args.isEmpty) :
    Substitutes P objects regions args template template :=
  ⟨1, (substituteTypeHash_succ ..).trans (if_pos none)⟩

end Hashes

/-! ### Storing types -/

namespace ExpandM

variable {α β : Type} {s : Expansion}

theorem run_lift {result : Except Error α} {r : α × Expansion} :
    (liftM result : ExpandM α).run s = .ok r ↔ result = .ok r.1 ∧ s = r.2 := by
  obtain ⟨a, s'⟩ := r
  change ofExcept result s = .ok (a, s') ↔ _
  cases result <;> simp [ofExcept]

theorem run_fetch {read : Objects → Except Error α} {r : α × Expansion} :
    (fetch read).run s = .ok r ↔ read s.objects = .ok r.1 ∧ s = r.2 := run_lift

end ExpandM

section Storing

variable (P : Primitives) (regions : SortedMap Hash Hash) (args : List Hash)

theorem putSubstitutedType_succ (fuel : Nat) (type : Hash) :
    putSubstitutedType P regions args (fuel + 1) type =
      if regions.entries.isEmpty && args.isEmpty then pure type
      else (do
        match ← fetch fun objects => typeSpec P objects type with
        | .builtin _ => return type
        | .typeParam index =>
          JsonValue.require ("type parameter " ++ toString index ++
            " has no substitution argument") (args[index]?)
        | spec => do
          let parts ← spec.components.mapM (putSubstitutedType P regions args fuel)
          putStructuralType P (spec.withParts regions parts)) := by
  rw [putSubstitutedType]
  refine ite_congr rfl (fun _ => rfl) fun _ => bind_congr fun spec => ?_
  cases spec with
  | record members | enum members =>
    simp only [mapM_members, bind_assoc, pure_bind]
    rfl
  | _ => simp [TypeSpec.components, TypeSpec.withParts, substituteRegion]; try rfl

variable {P regions args} {s s' s'' : Expansion} {spec : TypeSpec} {type : Hash}

theorem putStructuralType_run (run : (putStructuralType P spec).run s = .ok (type, s')) :
    ∃ payload, typePayloadForSpec spec = .ok payload ∧ type = objectHash P "Type" payload ∧
      s' = { s with objects := (putObject P s.objects "Type" payload).2 } := by
  obtain ⟨payload, s₁, lifted, run⟩ := StateT.run_bind_eq_ok.mp run
  obtain ⟨written, rfl⟩ := ExpandM.run_lift.mp lifted
  obtain ⟨rfl, rfl⟩ := Prod.mk.inj (Except.ok.inj run)
  exact ⟨payload, written, rfl, rfl⟩

/-- What storing the types for some templates does, while the templates are read from a store that
was there before. -/
structure Puts (P : Primitives) (objects : Objects) (regions : SortedMap Hash Hash)
    (args : List Hash) (depth : Nat) (templates types : List Hash) (s s' : Expansion) : Prop where
  seen : s'.seen = s.seen
  grows : Grows P s.objects s'.objects
  substituted : List.Forall₂ (fun template type =>
    substituteTypeHash P objects regions args depth template = .ok type) templates types
  stored : ∀ type ∈ types, StoredType P s'.objects type
  /-- What is made for the parts of the templates is stored, -/
  all : ∀ template ∈ templates, ∀ part, ReflTransGen (HasPart P objects) template part →
    ∀ type, Substitutes P objects regions args part type → IsStored P s'.objects type
  /-- and nothing else is. -/
  only : ∀ type, IsStored P s'.objects type → IsStored P s.objects type ∨
    ∃ template ∈ templates, ∃ part, ReflTransGen (HasPart P objects) template part ∧
      Substitutes P objects regions args part type

theorem Grows.isStored {objects later : Objects} (grows : Grows P objects later)
    (stored : IsStored P objects type) : IsStored P later type := by
  obtain ⟨spec, read⟩ := stored
  exact ⟨spec, grows.typeSpec read⟩

variable {objects : Objects} {depth : Nat} {templates templates' types types' : List Hash}

theorem puts_nil : Puts P objects regions args depth [] [] s s :=
  ⟨rfl, .refl _, .nil, nofun, nofun, fun _ => Or.inl⟩

theorem Puts.append (first : Puts P objects regions args depth templates types s s')
    (second : Puts P objects regions args depth templates' types' s' s'') :
    Puts P objects regions args depth (templates ++ templates') (types ++ types') s s'' where
  seen := second.seen.trans first.seen
  grows := first.grows.trans second.grows
  substituted := List.rel_append first.substituted second.substituted
  stored type listed := by
    rcases List.mem_append.mp listed with listed | listed
    · exact (first.stored type listed).grow second.grows
    · exact second.stored type listed
  all template listed part parts type substitutes := by
    rcases List.mem_append.mp listed with listed | listed
    · exact second.grows.isStored (first.all template listed part parts type substitutes)
    · exact second.all template listed part parts type substitutes
  only type stored := by
    rcases second.only type stored with stored | ⟨template, listed, new⟩
    · rcases first.only type stored with stored | ⟨template, listed, new⟩
      · exact Or.inl stored
      · exact Or.inr ⟨template, List.mem_append_left _ listed, new⟩
    · exact Or.inr ⟨template, List.mem_append_right _ listed, new⟩

/-- Where nothing is stored. -/
theorem puts_unchanged {template : Hash}
    (run : substituteTypeHash P objects regions args depth template = .ok type)
    (stored : StoredType P s.objects type)
    (all : ∀ part, ReflTransGen (HasPart P objects) template part → ∀ type,
      Substitutes P objects regions args part type → IsStored P s.objects type) :
    Puts P objects regions args depth [template] [type] s s where
  seen := rfl
  grows := .refl _
  substituted := .cons run .nil
  stored := by
    intro type listed
    rwa [List.mem_singleton.mp listed]
  all := by
    intro template listed
    rwa [List.mem_singleton.mp listed]
  only _ := Or.inl

theorem StoredType.isStored (stored : StoredType P objects type) : IsStored P objects type := by
  cases stored with
  | intro read _ => exact ⟨_, read⟩

variable (reliable : P.Reliable) (reads : P.ReadsTypes) (addressed : Addressed P objects)
include reliable reads

omit reads in
theorem StoredType.read_eq {read : TypeSpec} (addressed : Addressed P objects)
    (stored : StoredType P objects type) (found : typeSpec P objects type = .ok read) :
    ∀ part ∈ read.components, StoredType P objects part := by
  cases stored with
  | intro read' parts =>
    rwa [← typeSpec_unique reliable addressed addressed read' found]

/-- What a canonical type is stored as. -/
theorem putStructuralType_stored (addressed : Addressed P s.objects) (canonical : spec.Canonical)
    (parts : ∀ part ∈ spec.components, StoredType P s.objects part)
    (run : (putStructuralType P spec).run s = .ok (type, s')) :
    s'.seen = s.seen ∧ Grows P s.objects s'.objects ∧ hashForTypeSpec P spec = .ok type ∧
      StoredType P s'.objects type ∧
        ∀ other, IsStored P s'.objects other → IsStored P s.objects other ∨ other = type := by
  obtain ⟨payload, written, rfl, rfl⟩ := putStructuralType_run run
  have grows := grows_putObject (P := P) s.objects "Type" payload
  have read := typeSpec_of_stored reliable reads canonical written (Stored.put reliable addressed)
  exact ⟨rfl, grows, hashForTypeSpec_eq_ok.mpr ⟨payload, written, rfl⟩,
    .intro read fun part listed => (parts part listed).grow grows,
    fun other => isStored_putObject⟩

omit reads in
include addressed in
theorem StoredType.of_hasPart {part : Hash} (stored : StoredType P objects type)
    (parts : ReflTransGen (HasPart P objects) type part) : StoredType P objects part := by
  induction parts with
  | refl => exact stored
  | tail _ last ih =>
    obtain ⟨spec, read, listed⟩ := last
    exact ih.read_eq reliable addressed read _ listed

omit reads in
include addressed in
/-- The parts of a type are itself and the parts of those that it is made of. -/
theorem hasPart_cases {part : Hash} (read : typeSpec P objects type = .ok spec)
    (parts : ReflTransGen (HasPart P objects) type part) :
    part = type ∨ ∃ inner ∈ spec.components, ReflTransGen (HasPart P objects) inner part := by
  rcases parts.cases_head with rfl | ⟨inner, ⟨spec', read', listed⟩, rest⟩
  · exact Or.inl rfl
  · obtain rfl := typeSpec_unique reliable addressed addressed read read'
    exact Or.inr ⟨inner, listed, rest⟩

omit reliable reads in
theorem puts_mapM {fuel : Nat}
    (each : ∀ template type s s', StoredType P objects template → Grows P objects s.objects →
      (∀ arg ∈ args, StoredType P s.objects arg) →
      (putSubstitutedType P regions args fuel template).run s = .ok (type, s') →
        Puts P objects regions args fuel [template] [type] s s')
    (templatesStored : ∀ template ∈ templates, StoredType P objects template)
    (early : Grows P objects s.objects) (argsStored : ∀ arg ∈ args, StoredType P s.objects arg)
    (run : (templates.mapM (putSubstitutedType P regions args fuel)).run s = .ok (types, s')) :
    Puts P objects regions args fuel templates types s s' := by
  induction templates generalizing s types with
  | nil =>
    obtain ⟨rfl, rfl⟩ := Prod.mk.inj (StateT.run_pure_eq_ok.mp run)
    exact puts_nil
  | cons template templates ih =>
    rw [List.mapM_cons] at run
    obtain ⟨type, s₁, head, run⟩ := StateT.run_bind_eq_ok.mp run
    obtain ⟨types, s₂, tail, run⟩ := StateT.run_bind_eq_ok.mp run
    obtain ⟨rfl, rfl⟩ := Prod.mk.inj (StateT.run_pure_eq_ok.mp run)
    have first := each template type s s₁ (templatesStored template List.mem_cons_self) early
      argsStored head
    exact first.append (ih (fun template listed => templatesStored template
      (List.mem_cons_of_mem _ listed)) (early.trans first.grows)
      (fun arg listed => (argsStored arg listed).grow first.grows) tail)

include addressed in
/-- What is stored for a template: what is substituted for its parts, and nothing else. -/
theorem putSubstitutedType_puts {fuel : Nat} {template : Hash}
    (templateStored : StoredType P objects template) (early : Grows P objects s.objects)
    (argsStored : ∀ arg ∈ args, StoredType P s.objects arg)
    (run : (putSubstitutedType P regions args fuel template).run s = .ok (type, s')) :
    Puts P objects regions args fuel [template] [type] s s' := by
  -- on the fuel, which substitution and storing spend alike
  induction fuel generalizing template type s s' with
  | zero => cases run
  | succ fuel ih =>
    rw [putSubstitutedType_succ] at run
    split_ifs at run with none
    · obtain ⟨rfl, rfl⟩ := Prod.mk.inj (StateT.run_pure_eq_ok.mp run)
      refine puts_unchanged ((substituteTypeHash_succ ..).trans (if_pos none))
        (templateStored.grow early) fun part parts type substitutes => ?_
      rw [substitutes.unique (substitutes_of_none none)]
      exact early.isStored (templateStored.of_hasPart reliable addressed parts).isStored
    · obtain ⟨spec, s₁, queried, run⟩ := StateT.run_bind_eq_ok.mp run
      obtain ⟨read, rfl⟩ := ExpandM.run_fetch.mp queried
      obtain ⟨spec', read'⟩ := templateStored.isStored
      obtain rfl := typeSpec_unique reliable addressed (early.addressed addressed) read' read
      -- a type without components is its only part
      have itself {part : Hash} (empty : spec'.components = [])
          (parts : ReflTransGen (HasPart P objects) template part) : part = template := by
        rcases hasPart_cases reliable addressed read' parts with same | ⟨inner, listed, -⟩
        · exact same
        · rw [empty] at listed
          cases listed
      split at run
      · rename_i kind
        obtain ⟨rfl, rfl⟩ := Prod.mk.inj (StateT.run_pure_eq_ok.mp run)
        have unchanged : substituteTypeHash P objects regions args (fuel + 1) template =
            .ok template := by
          rw [substituteTypeHash_succ, if_neg none, read']
          rfl
        refine puts_unchanged unchanged (templateStored.grow early) fun part parts type subst => ?_
        rw [itself rfl parts] at subst
        rw [subst.unique ⟨_, unchanged⟩]
        exact (templateStored.grow early).isStored
      -- a parameter becomes the argument, which is stored
      · rename_i index
        obtain ⟨given, rfl⟩ := ExpandM.run_lift.mp run
        have argument : substituteTypeHash P objects regions args (fuel + 1) template =
            .ok type := by
          rw [substituteTypeHash_succ, if_neg none, read']
          exact given
        have stored : StoredType P s.objects type := by
          cases found : args[index]? with
          | none =>
            rw [found] at given
            cases given
          | some arg =>
            rw [found] at given
            obtain rfl := Except.ok.inj given
            exact argsStored arg (List.mem_of_getElem? found)
        refine puts_unchanged argument stored fun part parts type subst => ?_
        rw [itself rfl parts] at subst
        rw [subst.unique ⟨_, argument⟩]
        exact stored.isStored
      -- the components are substituted and stored first, then the type made of them
      · rename_i composite ground
        obtain ⟨types, s₁, each, run⟩ := StateT.run_bind_eq_ok.mp run
        have first := puts_mapM (fun _ _ _ _ => ih)
          (templateStored.read_eq reliable addressed read') early argsStored each
        have length := first.substituted.length_eq.symm
        have parts := @components_withParts regions _ _ length
        obtain ⟨seen, grows, hashed, stored, only⟩ := putStructuralType_stored reliable reads
          ((early.trans first.grows).addressed addressed)
          (canonical_withParts (canonical_of_typeSpec read') length)
          (fun part listed => first.stored part (by rwa [parts] at listed)) run
        have substituted := (substituteTypeHash_of_parts none read' composite ground
          (Except.mapM_eq_ok.mpr first.substituted)).trans hashed
        refine ⟨seen.trans first.seen, first.grows.trans grows, .cons substituted .nil, ?_, ?_, ?_⟩
        · intro type listed
          rwa [List.mem_singleton.mp listed]
        · intro template' listed part parts other subst
          rw [List.mem_singleton.mp listed] at parts
          rcases hasPart_cases reliable addressed read' parts with rfl | ⟨inner, listed, rest⟩
          · rw [subst.unique ⟨_, substituted⟩]
            exact stored.isStored
          · exact grows.isStored (first.all inner listed part rest other subst)
        -- a type that is new was made for a component, or is the one put last
        · intro other otherStored
          rcases only other otherStored with earlier | rfl
          · rcases first.only other earlier with before | ⟨inner, listed, part, parts, subst⟩
            · exact Or.inl before
            · exact Or.inr ⟨template, List.mem_singleton_self _, part,
                .head ⟨_, read', listed⟩ parts, subst⟩
          · exact Or.inr ⟨template, List.mem_singleton_self _, template, .refl, _, substituted⟩

end Storing

end CodeDb

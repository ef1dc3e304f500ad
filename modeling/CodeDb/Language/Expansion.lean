import CodeDb.Language.Substitution
import Mathlib.Data.List.Chain
import Mathlib.Data.Set.Basic

/-!
# Expanding instances

An expansion stores the types of the members of every instance that it sees. While it is under way
some of the instances that were seen are still being expanded; those that it has seen on its own
are not, once it is over.

## Main definitions

* `Expansion.Done` — all there is to store for an instance is stored
* `Progress` — what a part of an expansion does

## Main results

* `instanceProgress` — an expansion is done with every instance that it sees
* `instanceTooDeep` — where it goes too deep there is a long chain of instances
* `instanceSettles` — it comes to an end
-/

namespace CodeDb

open ExpandM Relation

/-! ### What is done -/

section Progress

variable (P : Primitives) (objects : Objects) (root : ProgramRootPayload)

/-- An instance was seen. -/
def Expansion.Saw (s : Expansion) (i : Instance) : Prop :=
  ∃ hash ∈ s.seen, hashForTypeSpec P i.spec = .ok hash

/-- All there is to store for an instance is stored, and the instances nested in it were seen. -/
structure Expansion.Done (s : Expansion) (i : Instance) : Prop where
  members : i.MembersAre P objects root fun _ => True
  written : ∀ type, i.Writes P objects root type → IsStored P s.objects type
  nested : ∀ j, i.Nested P objects root j → j.typeArgs ≠ [] → s.Saw P j

/-- A type is written for an instance, or for one that it is expanded to. -/
def Instance.WritesAll (i : Instance) (type : Hash) : Prop :=
  ∃ j, i.Expands P objects root j ∧ j.Writes P objects root type

/-- What a part of an expansion does: it expands some instances, and stores some types. -/
structure Progress (starts : Set Instance) (writes : Set Hash) (s s' : Expansion) : Prop where
  seen : s.seen ⊆ s'.seen
  grows : Grows P s.objects s'.objects
  saw : ∀ i ∈ starts, s'.Saw P i
  written : ∀ type ∈ writes, IsStored P s'.objects type
  /-- It is done with all instances that are new. -/
  new : ∀ i, s'.Saw P i → s.Saw P i ∨
    s'.Done P objects root i ∧ ∃ start ∈ starts, start.Expands P objects root i
  only : ∀ type, IsStored P s'.objects type → IsStored P s.objects type ∨ type ∈ writes ∨
    ∃ start ∈ starts, start.WritesAll P objects root type

variable {P objects root} {s s' s'' : Expansion} {i j : Instance} {type : Hash}
  {starts starts' : Set Instance} {writes writes' : Set Hash}

theorem Expansion.Saw.mono (saw : s.Saw P i) (seen : s.seen ⊆ s'.seen) : s'.Saw P i := by
  obtain ⟨hash, listed, hashed⟩ := saw
  exact ⟨hash, seen listed, hashed⟩

theorem Expansion.Done.mono (done : s.Done P objects root i) (seen : s.seen ⊆ s'.seen)
    (grows : Grows P s.objects s'.objects) : s'.Done P objects root i where
  members := done.members
  written type writes := grows.isStored (done.written type writes)
  nested j nested generic := (done.nested j nested generic).mono seen

theorem progress_refl : Progress P objects root ∅ ∅ s s :=
  ⟨subset_rfl, .refl _, nofun, nofun, fun _ => Or.inl, fun _ => Or.inl⟩

theorem Progress.trans (first : Progress P objects root starts writes s s')
    (second : Progress P objects root starts' writes' s' s'') :
    Progress P objects root (starts ∪ starts') (writes ∪ writes') s s'' where
  seen := first.seen.trans second.seen
  grows := first.grows.trans second.grows
  saw := by
    rintro i (start | start)
    · exact (first.saw i start).mono second.seen
    · exact second.saw i start
  written := by
    rintro type (listed | listed)
    · exact second.grows.isStored (first.written type listed)
    · exact second.written type listed
  new := by
    intro i saw
    rcases second.new i saw with earlier | ⟨done, start, listed, expands⟩
    · rcases first.new i earlier with before | ⟨done, start, listed, expands⟩
      · exact Or.inl before
      · exact Or.inr ⟨done.mono second.seen second.grows, start, Or.inl listed, expands⟩
    · exact Or.inr ⟨done, start, Or.inr listed, expands⟩
  only := by
    intro type stored
    rcases second.only type stored with earlier | listed | ⟨start, listed, expands⟩
    · rcases first.only type earlier with before | listed | ⟨start, listed, expands⟩
      · exact Or.inl before
      · exact Or.inr (Or.inl (Or.inl listed))
      · exact Or.inr (Or.inr ⟨start, Or.inl listed, expands⟩)
    · exact Or.inr (Or.inl (Or.inr listed))
    · exact Or.inr (Or.inr ⟨start, Or.inr listed, expands⟩)

/-- What is made for the parts of a template. -/
def madeFor (P : Primitives) (objects : Objects) (regions : SortedMap Hash Hash) (args : List Hash)
    (template : Hash) : Set Hash :=
  {type | ∃ part, ReflTransGen (HasPart P objects) template part ∧
    Substitutes P objects regions args part type}

theorem Puts.progress {regions : SortedMap Hash Hash} {args : List Hash} {depth : Nat}
    {template : Hash} (puts : Puts P objects regions args depth [template] [type] s s') :
    Progress P objects root ∅ (madeFor P objects regions args template) s s' where
  seen := subset_of_eq puts.seen.symm
  grows := puts.grows
  saw := nofun
  written := by
    rintro type ⟨part, parts, substitutes⟩
    exact puts.all template (List.mem_singleton_self _) part parts type substitutes
  new := by
    rintro i ⟨hash, listed, hashed⟩
    exact Or.inl ⟨hash, puts.seen ▸ listed, hashed⟩
  only := by
    intro type stored
    rcases puts.only type stored with before | ⟨template', listed, made⟩
    · exact Or.inl before
    · rw [List.mem_singleton.mp listed] at made
      exact Or.inr (Or.inl made)

end Progress

/-! ### What a type leads to -/

section LeadsTo

variable {P : Primitives} {objects : Objects} {type : Hash} {spec spec' : TypeSpec}
  {i : Instance}

theorem Shows.unique (reliable : P.Reliable) (addressed : Addressed P objects)
    (shown : Shows P objects type spec) (shows' : Shows P objects type spec') : spec = spec' := by
  obtain ⟨later, grows, read⟩ := shown
  obtain ⟨later', grows', read'⟩ := shows'
  exact typeSpec_unique reliable (grows.addressed addressed) (grows'.addressed addressed) read read'

/-- The instances with type arguments that a type leads to. -/
def startsIn (P : Primitives) (objects : Objects) (type : Hash) : Set Instance :=
  {i | LeadsTo P objects type i ∧ i.typeArgs ≠ []}

variable (reliable : P.Reliable) (addressed : Addressed P objects)
include reliable addressed

omit reliable addressed in
theorem Instance.spec_inj {i j : Instance} (same : i.spec = j.spec) : i = j := by
  obtain ⟨symbol, regions, args⟩ := TypeSpec.named.inj same
  exact Instance.mk.injEq .. ▸ ⟨symbol, regions, args⟩

/-- A named type leads to itself alone. -/
theorem leadsTo_named_iff {j : Instance} (shown : Shows P objects type i.spec) :
    LeadsTo P objects type j ↔ j = i := by
  constructor
  · rintro ⟨inner, reaches, shows'⟩
    rcases reaches.cases_head with rfl | ⟨part, ⟨spec, shows'', listed⟩, -⟩
    · have same := shown.unique reliable addressed shows'
      obtain ⟨symbol, regions, args⟩ := TypeSpec.named.inj same
      cases i
      cases j
      simp_all
    · obtain rfl := shown.unique reliable addressed shows''
      cases listed
  · rintro rfl
    exact ⟨type, .refl, shown⟩

omit reliable addressed in
theorem mem_components_of_mem_contents {part : Hash} (listed : part ∈ spec.contents) :
    part ∈ spec.components := by
  cases spec with
  | named => cases listed
  | _ => exact listed

/-- Any other type leads to what its contents lead to. -/
theorem leadsTo_iff (shown : Shows P objects type spec)
    (unnamed : ∀ typeSymbol regionArgs typeArgs, spec ≠ .named typeSymbol regionArgs typeArgs) :
    LeadsTo P objects type i ↔ ∃ part ∈ spec.contents, LeadsTo P objects part i := by
  constructor
  · rintro ⟨inner, reaches, shows'⟩
    rcases reaches.cases_head with rfl | ⟨part, ⟨spec', shows'', listed⟩, rest⟩
    · exact absurd (shown.unique reliable addressed shows') (unnamed _ _ _)
    · obtain rfl := shown.unique reliable addressed shows''
      exact ⟨part, listed, inner, rest, shows'⟩
  · rintro ⟨part, listed, inner, reaches, shows'⟩
    exact ⟨inner, .head ⟨spec, shown, listed⟩ reaches, shows'⟩

end LeadsTo

/-! ### What an expansion does -/

section Model

variable (P : Primitives) (root : ProgramRootPayload)

theorem materializeNestedInstances_succ (fuel : Nat) (type : Hash) (depth : Nat) :
    materializeNestedInstances P root (fuel + 1) type depth = (do
      match ← fetch fun objects => typeSpec P objects type with
      | .named typeSymbol regionArgs typeArgs =>
        if !typeArgs.isEmpty then
          materializeInstance P root fuel ⟨typeSymbol, regionArgs, typeArgs⟩ depth
        else return
      | spec =>
        spec.contents.forM fun part => materializeNestedInstances P root fuel part depth) := by
  rw [materializeNestedInstances]
  refine bind_congr fun spec => ?_
  cases spec with
  | record members | enum members =>
    simp only [TypeSpec.contents, TypeSpec.components]
    induction members with
    | nil => rfl
    | cons member members ih => exact congrArg (_ >>= ·) (funext fun _ => ih)
  | _ => simp [TypeSpec.contents, TypeSpec.components]

theorem materializeInstance_succ (fuel : Nat) (i : Instance) (depth : Nat) :
    materializeInstance P root (fuel + 1) i depth =
      if depth > genericInstantiationDepthLimit then throw (.depthLimit i.typeSymbol)
      else (do
        let instanceHash ← putStructuralType P i.spec
        if ← visit instanceHash then do
          let (definition, regions, args) ← fetch fun objects =>
            namedTypeDefinitionWithArgs P root objects i
          definition.body.members.forM fun member => do
            let substituted ← putSubstitutedType P regions args fuel member.typeHash
            materializeNestedInstances P root fuel substituted (depth + 1)
        else return) := by
  rw [materializeInstance]

end Model

section Runs

variable {P : Primitives} {objects later : Objects} {root : ProgramRootPayload}

theorem Grows.typeDefinition (grows : Grows P objects later) {typeDef : Hash}
    {definition : TypeDefinition}
    (read : CodeDb.typeDefinition P objects typeDef = .ok definition) :
    CodeDb.typeDefinition P later typeDef = .ok definition := by
  have bodies {keys : TypeDefinitionKeys} {label shown : String} {typeSymbol hash : Hash}
      {body : TypeDefinitionBody}
      (read : definitionBody P objects keys label shown typeSymbol hash = .ok body) :
      definitionBody P later keys label shown typeSymbol hash = .ok body := by
    obtain ⟨kind, found, read⟩ := Except.bind_eq_ok.mp read
    refine Except.bind_eq_ok.mpr ⟨kind, grows.getKind found, ?_⟩
    split_ifs at read ⊢ with other
    obtain ⟨payload, found, read⟩ := Except.bind_eq_ok.mp read
    exact Except.bind_eq_ok.mpr ⟨payload, grows.getPayload found, read⟩
  obtain ⟨kind, found, read⟩ := Except.bind_eq_ok.mp read
  refine Except.bind_eq_ok.mpr ⟨kind, grows.getKind found, ?_⟩
  split_ifs at read ⊢ with other
  obtain ⟨payload, found, read⟩ := Except.bind_eq_ok.mp read
  obtain ⟨typeSymbol, symbolRead, read⟩ := Except.bind_eq_ok.mp read
  obtain ⟨typeKind, kindRead, read⟩ := Except.bind_eq_ok.mp read
  obtain ⟨definitionHash, hashRead, read⟩ := Except.bind_eq_ok.mp read
  refine Except.bind_eq_ok.mpr ⟨payload, grows.getPayload found, Except.bind_eq_ok.mpr
    ⟨typeSymbol, symbolRead, Except.bind_eq_ok.mpr ⟨typeKind, kindRead, Except.bind_eq_ok.mpr
      ⟨definitionHash, hashRead, ?_⟩⟩⟩⟩
  split at read
  · obtain ⟨body, bodyRead, read⟩ := Except.bind_eq_ok.mp read
    exact Except.bind_eq_ok.mpr ⟨body, bodies bodyRead, read⟩
  · obtain ⟨body, bodyRead, read⟩ := Except.bind_eq_ok.mp read
    exact Except.bind_eq_ok.mpr ⟨body, bodies bodyRead, read⟩
  · cases read

/-- The definition of an instance is that of the store that was there before. -/
theorem namedTypeDefinitionWithArgs_early (typesStored : TypesStored P objects root)
    (grows : Grows P objects later) {i : Instance} {definition : TypeDefinition}
    {regions : SortedMap Hash Hash} {args : List Hash}
    (run : namedTypeDefinitionWithArgs P root later i = .ok (definition, regions, args)) :
    namedTypeDefinitionWithArgs P root objects i = .ok (definition, regions, args) ∧
      args = i.typeArgs ∧ ∀ member ∈ definition.body.members,
        StoredType P objects member.typeHash := by
  unfold namedTypeDefinitionWithArgs at run ⊢
  cases found : rootType root i.typeSymbol with
  | none =>
    rw [found] at run
    cases run
  | some entry =>
    rw [found] at run
    obtain ⟨stored, read, members⟩ := typesStored entry (List.mem_of_find?_eq_some found)
    obtain ⟨definition', read', run⟩ := Except.bind_eq_ok.mp run
    rw [grows.typeDefinition read] at read'
    obtain rfl := Except.ok.inj read'
    have same := run
    dsimp only at run
    split_ifs at run
    obtain ⟨rfl, -, rfl⟩ := Except.ok.inj run
    exact ⟨Except.bind_eq_ok.mpr ⟨_, read, same⟩, rfl, members⟩

/-- The instances with type arguments that some types lead to. -/
def startsInAny (P : Primitives) (objects : Objects) (types : List Hash) : Set Instance :=
  {i | ∃ type ∈ types, i ∈ startsIn P objects type}

theorem startsInAny_cons (type : Hash) (types : List Hash) :
    startsInAny P objects (type :: types) =
      startsIn P objects type ∪ startsInAny P objects types := by
  ext i
  simp [startsInAny]

/-- The instances with type arguments in the types of some members. -/
def startsOf (P : Primitives) (objects : Objects) (regions : SortedMap Hash Hash)
    (args : List Hash) (members : List TypeMemberDef) : Set Instance :=
  {i | ∃ member ∈ members, ∃ type, Substitutes P objects regions args member.typeHash type ∧
    i ∈ startsIn P objects type}

/-- What is made for the parts of the types of some members. -/
def writesOf (P : Primitives) (objects : Objects) (regions : SortedMap Hash Hash)
    (args : List Hash) (members : List TypeMemberDef) : Set Hash :=
  {type | ∃ member ∈ members, type ∈ madeFor P objects regions args member.typeHash}

variable (reliable : P.Reliable) (reads : P.ReadsTypes) (addressed : Addressed P objects)
  (typesStored : TypesStored P objects root) {fuel depth : Nat} {s s' : Expansion}
  {type : Hash} {i : Instance}

/-- What expanding an instance does. -/
def InstanceProgress (P : Primitives) (objects : Objects) (root : ProgramRootPayload)
    (fuel : Nat) : Prop :=
  ∀ {i depth s s'}, Grows P objects s.objects → (∀ arg ∈ i.typeArgs, StoredType P s.objects arg) →
    (materializeInstance P root fuel i depth).run s = .ok ((), s') →
      Progress P objects root {i} ∅ s s'

/-- What expanding the instances in a type does. -/
def NestedProgress (P : Primitives) (objects : Objects) (root : ProgramRootPayload)
    (fuel : Nat) : Prop :=
  ∀ {type depth s s'}, Grows P objects s.objects → StoredType P s.objects type →
    (materializeNestedInstances P root fuel type depth).run s = .ok ((), s') →
      Progress P objects root (startsIn P objects type) ∅ s s'

theorem nestedProgress_forM (each : NestedProgress P objects root fuel) {types : List Hash}
    (early : Grows P objects s.objects) (stored : ∀ type ∈ types, StoredType P s.objects type)
    (run : (types.forM fun type => materializeNestedInstances P root fuel type depth).run s =
      .ok ((), s')) :
    Progress P objects root (startsInAny P objects types) ∅ s s' := by
  induction types generalizing s with
  | nil =>
    cases StateT.run_pure_eq_ok.mp run
    have none : startsInAny P objects [] = ∅ := by simp [startsInAny]
    exact none ▸ progress_refl
  | cons type types ih =>
    obtain ⟨⟨⟩, s₁, head, tail⟩ := StateT.run_bind_eq_ok.mp run
    have first := each early (stored type List.mem_cons_self) head
    have second := ih (early.trans first.grows)
      (fun type listed => (stored type (List.mem_cons_of_mem _ listed)).grow first.grows) tail
    rw [startsInAny_cons, ← Set.empty_union ∅]
    exact first.trans second

include reliable addressed in
theorem nestedProgress_succ (instances : InstanceProgress P objects root fuel)
    (nested : NestedProgress P objects root fuel) : NestedProgress P objects root (fuel + 1) := by
  intro type depth s s' early stored run
  rw [materializeNestedInstances_succ] at run
  obtain ⟨spec, s₁, queried, run⟩ := StateT.run_bind_eq_ok.mp run
  obtain ⟨read, rfl⟩ := ExpandM.run_fetch.mp queried
  have shown : Shows P objects type spec := ⟨_, early, read⟩
  have parts := stored.read_eq reliable (early.addressed addressed) read
  split at run
  · rename_i typeSymbol regionArgs typeArgs
    have alone (j : Instance) := leadsTo_named_iff (i := ⟨typeSymbol, regionArgs, typeArgs⟩)
      (j := j) reliable addressed shown
    split_ifs at run with generic
    · have start : startsIn P objects type = {⟨typeSymbol, regionArgs, typeArgs⟩} := by
        ext j
        simp only [startsIn, Set.mem_ofPred_eq, alone, Set.mem_singleton_iff]
        exact ⟨And.left, fun same => ⟨same, by simpa [same] using generic⟩⟩
      exact start ▸ instances early parts run
    · cases StateT.run_pure_eq_ok.mp run
      have none : startsIn P objects type = ∅ := by
        ext j
        simp only [startsIn, Set.mem_ofPred_eq, alone, Set.mem_empty_iff_false, iff_false]
        rintro ⟨rfl, generic'⟩
        exact generic (by simpa using generic')
      exact none ▸ progress_refl
  · rename_i unnamed
    have starts : startsIn P objects type = startsInAny P objects spec.contents := by
      ext j
      simp only [startsIn, startsInAny, Set.mem_ofPred_eq, leadsTo_iff reliable addressed shown
        unnamed]
      constructor
      · rintro ⟨⟨part, listed, leads⟩, generic⟩
        exact ⟨part, listed, leads, generic⟩
      · rintro ⟨part, listed, leads, generic⟩
        exact ⟨⟨part, listed, leads⟩, generic⟩
    exact starts ▸ nestedProgress_forM nested early
      (fun part listed => parts part (mem_components_of_mem_contents listed)) run

section Members

variable {regions : SortedMap Hash Hash} {args : List Hash} {members : List TypeMemberDef}

theorem startsOf_cons {member : TypeMemberDef}
    (substitutes : Substitutes P objects regions args member.typeHash type) :
    startsOf P objects regions args (member :: members) =
      startsIn P objects type ∪ startsOf P objects regions args members := by
  ext i
  simp only [startsOf, Set.mem_ofPred_eq, Set.mem_union, List.mem_cons, exists_eq_or_imp]
  refine or_congr_left ⟨?_, fun start => ⟨type, substitutes, start⟩⟩
  rintro ⟨type', substitutes', start⟩
  exact substitutes.unique substitutes' ▸ start

theorem writesOf_cons {member : TypeMemberDef} :
    writesOf P objects regions args (member :: members) =
      madeFor P objects regions args member.typeHash ∪ writesOf P objects regions args members := by
  ext type
  simp [writesOf]

include reliable reads addressed in
theorem membersProgress (nested : NestedProgress P objects root fuel)
    (early : Grows P objects s.objects) (argsStored : ∀ arg ∈ args, StoredType P s.objects arg)
    (membersStored : ∀ member ∈ members, StoredType P objects member.typeHash)
    (run : (members.forM fun member => do
      let substituted ← putSubstitutedType P regions args fuel member.typeHash
      materializeNestedInstances P root fuel substituted depth).run s = .ok ((), s')) :
    Progress P objects root (startsOf P objects regions args members)
        (writesOf P objects regions args members) s s' ∧
      ∀ member ∈ members, ∃ type, Substitutes P objects regions args member.typeHash type := by
  induction members generalizing s with
  | nil =>
    cases StateT.run_pure_eq_ok.mp run
    have noStart : startsOf P objects regions args [] = ∅ := by simp [startsOf]
    have noWrite : writesOf P objects regions args [] = ∅ := by simp [writesOf]
    exact ⟨noStart ▸ noWrite ▸ progress_refl, nofun⟩
  | cons member members ih =>
    obtain ⟨⟨⟩, s₂, head, tail⟩ := StateT.run_bind_eq_ok.mp run
    obtain ⟨type, s₁, put, head⟩ := StateT.run_bind_eq_ok.mp head
    have puts := putSubstitutedType_puts reliable reads addressed
      (membersStored member List.mem_cons_self) early argsStored put
    have substitutes : Substitutes P objects regions args member.typeHash type :=
      ⟨fuel, (List.forall₂_cons.mp puts.substituted).1⟩
    have inner := nested (early.trans puts.grows) (puts.stored type (List.mem_singleton_self _))
      head
    have first := puts.progress.trans inner
    obtain ⟨rest, others⟩ := ih (early.trans first.grows)
      (fun arg listed => (argsStored arg listed).grow first.grows)
      (fun member listed => membersStored member (List.mem_cons_of_mem _ listed)) tail
    refine ⟨?_, List.forall_mem_cons.mpr ⟨⟨type, substitutes⟩, others⟩⟩
    rw [startsOf_cons substitutes, writesOf_cons]
    simpa only [Set.empty_union, Set.union_empty] using first.trans rest

end Members

include reliable reads addressed typesStored in
theorem instanceProgress_succ (nested : NestedProgress P objects root fuel) :
    InstanceProgress P objects root (fuel + 1) := by
  intro i depth s s' early argsStored run
  rw [materializeInstance_succ] at run
  split_ifs at run with deep
  · cases run
  · obtain ⟨hash, s₁, put, run⟩ := StateT.run_bind_eq_ok.mp run
    obtain ⟨seen, grows, hashed, stored, only⟩ := putStructuralType_stored reliable reads
      (early.addressed addressed) (show i.spec.Canonical from trivial) argsStored put
    -- the instance is put before anything is known of its members
    have itself : i.WritesAll P objects root hash := ⟨i, .refl, Or.inl hashed⟩
    obtain ⟨new, s₂, visited, run⟩ := StateT.run_bind_eq_ok.mp run
    obtain ⟨rfl, rfl⟩ := Prod.mk.inj (Except.ok.inj visited)
    split_ifs at run with fresh
    · obtain ⟨⟨definition, regions, args⟩, s₃, queried, run⟩ := StateT.run_bind_eq_ok.mp run
      obtain ⟨read, rfl⟩ := ExpandM.run_fetch.mp queried
      obtain ⟨declared, rfl, membersStored⟩ :=
        namedTypeDefinitionWithArgs_early typesStored (early.trans grows) read
      obtain ⟨loop, substituted⟩ := membersProgress (s := ⟨insert hash s₁.seen, s₁.objects⟩)
        reliable reads addressed nested (early.trans grows)
        (fun arg listed => (argsStored arg listed).grow grows) membersStored run
      have declares {other} (declared' : namedTypeDefinitionWithArgs P root objects i = .ok other) :
          other = (definition, regions, i.typeArgs) := Except.ok.inj (declared'.symm.trans declared)
      -- every member that the definition declares was substituted and looked into
      have done : s'.Done P objects root i := by
        refine ⟨⟨definition, regions, _, declared, fun member listed => ?_⟩, ?_, ?_⟩
        · obtain ⟨type, substitutes⟩ := substituted member listed
          exact ⟨type, substitutes, trivial⟩
        · rintro type (same | ⟨_, _, _, declared', member, listed, made⟩)
          · obtain rfl := Except.ok.inj (hashed.symm.trans same)
            exact loop.grows.isStored stored.isStored
          · cases declares declared'
            exact loop.written type ⟨member, listed, made⟩
        · rintro j ⟨type, ⟨_, _, _, declared', member, listed, substitutes⟩, leads⟩ generic
          cases declares declared'
          exact loop.saw j ⟨member, listed, type, substitutes, leads, generic⟩
      -- what the loop starts from is one expansion away from the instance
      have expands {start} (listed : start ∈ startsOf P objects regions i.typeArgs
          definition.body.members) : i.Expands P objects root start := by
        obtain ⟨member, listed, type, substitutes, leads, generic⟩ := listed
        exact .single ⟨⟨type, ⟨_, _, _, declared, member, listed, substitutes⟩, leads⟩, generic⟩
      refine ⟨?_, grows.trans loop.grows, ?_, nofun, ?_, ?_⟩
      · exact seen ▸ (Finset.subset_insert hash s₁.seen).trans loop.seen
      · rintro _ rfl
        exact ⟨hash, loop.seen (Finset.mem_insert_self hash s₁.seen), hashed⟩
      · intro k saw
        rcases loop.new k saw with ⟨other, listed, hashed'⟩ | ⟨done, start, listed, more⟩
        · rcases Finset.mem_insert.mp listed with rfl | before
          · -- The hash is that of the instance itself.
            obtain rfl := Instance.spec_inj
              (hashForTypeSpec_inj reliable reads trivial trivial hashed' hashed)
            exact Or.inr ⟨done, k, rfl, .refl⟩
          · exact Or.inl ⟨other, seen ▸ before, hashed'⟩
        · exact Or.inr ⟨done, i, rfl, (expands listed).trans more⟩
      · intro type typeStored
        rcases loop.only type typeStored with before | ⟨member, listed, made⟩ |
            ⟨start, listed, j, more, writes⟩
        · rcases only type before with before | rfl
          · exact Or.inl before
          · exact Or.inr (Or.inr ⟨i, rfl, itself⟩)
        · exact Or.inr (Or.inr ⟨i, rfl, i, .refl,
            Or.inr ⟨_, _, _, declared, member, listed, made⟩⟩)
        · exact Or.inr (Or.inr ⟨i, rfl, j, (expands listed).trans more, writes⟩)
    · cases StateT.run_pure_eq_ok.mp run
      -- an instance that was seen is left alone: nothing is new but the type itself
      have known : hash ∈ s₁.seen := by simpa using fresh
      have same : insert hash s₁.seen = s.seen := (Finset.insert_eq_of_mem known).trans seen
      refine ⟨subset_of_eq same.symm, grows, ?_, nofun, ?_, ?_⟩
      · rintro _ rfl
        exact ⟨hash, Finset.mem_insert_self hash s₁.seen, hashed⟩
      · rintro k ⟨other, listed, hashed'⟩
        exact Or.inl ⟨other, same ▸ listed, hashed'⟩
      · intro type typeStored
        rcases only type typeStored with before | rfl
        · exact Or.inl before
        · exact Or.inr (Or.inr ⟨i, rfl, itself⟩)

include reliable reads addressed typesStored in
/-- An expansion is done with every instance that it sees. -/
theorem instanceProgress (fuel : Nat) :
    InstanceProgress P objects root fuel ∧ NestedProgress P objects root fuel := by
  induction fuel with
  | zero =>
    constructor
    · intro i depth s s' _ _ run
      cases run
    · intro type depth s s' _ _ run
      cases run
  | succ fuel ih =>
    exact ⟨instanceProgress_succ reliable reads addressed typesStored ih.2,
      nestedProgress_succ reliable addressed ih.1 ih.2⟩

/-! ### The limit of the depth -/

theorem ExpandM.run_lift_eq_error {α : Type} {result : Except Error α} {e : ExpansionError}
    (run : (liftM result : ExpandM α).run s = .error e) : ∃ message, e = .failed message := by
  change ofExcept result s = .error e at run
  cases result with
  | error message => exact ⟨message, (Except.error.inj run).symm⟩
  | ok => cases run

theorem putStructuralType_eq_error {spec : TypeSpec} {e : ExpansionError}
    (run : (putStructuralType P spec).run s = .error e) : ∃ message, e = .failed message := by
  rcases StateT.run_bind_eq_error.mp run with lifted | ⟨payload, s₁, -, put⟩
  · exact ExpandM.run_lift_eq_error lifted
  · cases put

theorem putSubstitutedType_ne_depthLimit {regions : SortedMap Hash Hash} {args : List Hash}
    {symbol : Hash} :
    (putSubstitutedType P regions args fuel type).run s ≠ .error (.depthLimit symbol) := by
  induction fuel generalizing type s with
  | zero => exact nofun
  | succ fuel ih =>
    rw [putSubstitutedType_succ]
    split_ifs with none
    · exact nofun
    · intro run
      rcases StateT.run_bind_eq_error.mp run with queried | ⟨spec, s₁, -, run⟩
      · exact nomatch ExpandM.run_lift_eq_error queried
      · split at run
        · cases run
        · exact nomatch ExpandM.run_lift_eq_error run
        · rcases StateT.run_bind_eq_error.mp run with each | ⟨parts, s₂, -, put⟩
          · exact StateT.run_mapM_ne_error (fun _ _ => ih) _ each
          · exact nomatch putStructuralType_eq_error put

/-- Instances that were seen, each one nested in the next one of the list. -/
structure Pending (P : Primitives) (objects : Objects) (root : ProgramRootPayload) (s : Expansion)
    (stack : List Instance) : Prop where
  distinct : stack.Nodup
  saw : ∀ i ∈ stack, s.Saw P i
  nested : stack.IsChain fun later earlier => earlier.Nested P objects root later

/-- A chain of distinct nested instances is longer than the limit. -/
def TooDeep (P : Primitives) (objects : Objects) (root : ProgramRootPayload)
    (stack : List Instance) : Prop :=
  ∃ chain, stack <:+ chain ∧ chain.Nodup ∧ genericInstantiationDepthLimit < chain.length ∧
    chain.IsChain fun later earlier => earlier.Nested P objects root later

theorem Pending.mono {stack : List Instance} (pending : Pending P objects root s stack)
    (seen : s.seen ⊆ s'.seen) : Pending P objects root s' stack :=
  ⟨pending.distinct, fun i listed => (pending.saw i listed).mono seen, pending.nested⟩

/-- Where expanding an instance fails for the limit of the depth. -/
def InstanceTooDeep (P : Primitives) (objects : Objects) (root : ProgramRootPayload)
    (fuel : Nat) : Prop :=
  ∀ {i s symbol stack}, Grows P objects s.objects →
    (∀ arg ∈ i.typeArgs, StoredType P s.objects arg) → Pending P objects root s stack →
    (∀ top ∈ stack.head?, top.Nested P objects root i) →
      (materializeInstance P root fuel i stack.length).run s = .error (.depthLimit symbol) →
        TooDeep P objects root stack ∧
          (stack.length ≤ genericInstantiationDepthLimit → TooDeep P objects root (i :: stack))

/-- Where expanding the instances in a type fails for the limit of the depth. -/
def NestedTooDeep (P : Primitives) (objects : Objects) (root : ProgramRootPayload)
    (fuel : Nat) : Prop :=
  ∀ {type s symbol top stack}, Grows P objects s.objects → StoredType P s.objects type →
    Pending P objects root s (top :: stack) →
      (∀ j, LeadsTo P objects type j → top.Nested P objects root j) →
        (materializeNestedInstances P root fuel type (stack.length + 1)).run s =
          .error (.depthLimit symbol) → TooDeep P objects root (top :: stack)

theorem nestedTooDeep_forM (progress : NestedProgress P objects root fuel)
    (nested : NestedTooDeep P objects root fuel) {types : List Hash} {symbol : Hash}
    {top : Instance} {stack : List Instance} (early : Grows P objects s.objects)
    (stored : ∀ type ∈ types, StoredType P s.objects type)
    (pending : Pending P objects root s (top :: stack))
    (leads : ∀ type ∈ types, ∀ j, LeadsTo P objects type j → top.Nested P objects root j)
    (run : (types.forM fun type =>
      materializeNestedInstances P root fuel type (stack.length + 1)).run s =
        .error (.depthLimit symbol)) : TooDeep P objects root (top :: stack) := by
  induction types generalizing s with
  | nil => cases run
  | cons type types ih =>
    rcases StateT.run_bind_eq_error.mp run with head | ⟨⟨⟩, s₁, head, tail⟩
    · exact nested early (stored type List.mem_cons_self) pending (leads type List.mem_cons_self)
        head
    · have first := progress early (stored type List.mem_cons_self) head
      exact ih (early.trans first.grows)
        (fun type listed => (stored type (List.mem_cons_of_mem _ listed)).grow first.grows)
        (pending.mono first.seen) (fun type listed => leads type (List.mem_cons_of_mem _ listed))
        tail

include reliable addressed in
theorem nestedTooDeep_succ (progress : NestedProgress P objects root fuel)
    (instances : InstanceTooDeep P objects root fuel) (nested : NestedTooDeep P objects root fuel) :
    NestedTooDeep P objects root (fuel + 1) := by
  intro type s symbol top stack early stored pending leads run
  rw [materializeNestedInstances_succ] at run
  rcases StateT.run_bind_eq_error.mp run with queried | ⟨spec, s₁, queried, run⟩
  · exact nomatch ExpandM.run_lift_eq_error queried
  · obtain ⟨read, rfl⟩ := ExpandM.run_fetch.mp queried
    have shown : Shows P objects type spec := ⟨_, early, read⟩
    have parts := stored.read_eq reliable (early.addressed addressed) read
    split at run
    · rename_i typeSymbol regionArgs typeArgs
      split_ifs at run with generic
      · refine (instances early parts pending ?_ run).1
        rintro _ ⟨⟩
        exact leads _ ((leadsTo_named_iff (i := ⟨typeSymbol, regionArgs, typeArgs⟩) reliable
          addressed shown).mpr rfl)
      · cases run
    · rename_i unnamed
      refine nestedTooDeep_forM progress nested early
        (fun part listed => parts part (mem_components_of_mem_contents listed)) pending
        (fun part listed j more => leads j ?_) run
      exact (leadsTo_iff reliable addressed shown unnamed).mpr ⟨part, listed, more⟩

include reliable reads addressed in
theorem membersTooDeep (progress : NestedProgress P objects root fuel)
    (nested : NestedTooDeep P objects root fuel) {regions : SortedMap Hash Hash} {args : List Hash}
    {members : List TypeMemberDef} {symbol : Hash} {stack : List Instance}
    (early : Grows P objects s.objects) (argsStored : ∀ arg ∈ args, StoredType P s.objects arg)
    (membersStored : ∀ member ∈ members, StoredType P objects member.typeHash)
    (pending : Pending P objects root s (i :: stack))
    (leads : ∀ member ∈ members, ∀ type,
      Substitutes P objects regions args member.typeHash type →
        ∀ j, LeadsTo P objects type j → i.Nested P objects root j)
    (run : (members.forM fun member => do
      let substituted ← putSubstitutedType P regions args fuel member.typeHash
      materializeNestedInstances P root fuel substituted (stack.length + 1)).run s =
        .error (.depthLimit symbol)) : TooDeep P objects root (i :: stack) := by
  induction members generalizing s with
  | nil => cases run
  | cons member members ih =>
    have putsOf {type s₁} (put : (putSubstitutedType P regions args fuel member.typeHash).run s =
        .ok (type, s₁)) := putSubstitutedType_puts reliable reads addressed
      (membersStored member List.mem_cons_self) early argsStored put
    rcases StateT.run_bind_eq_error.mp run with head | ⟨⟨⟩, s₂, head, tail⟩
    · rcases StateT.run_bind_eq_error.mp head with put | ⟨type, s₁, put, head⟩
      · exact absurd put putSubstitutedType_ne_depthLimit
      · have puts := putsOf put
        exact nested (early.trans puts.grows) (puts.stored type (List.mem_singleton_self _))
          (pending.mono (subset_of_eq puts.seen.symm))
          (leads member List.mem_cons_self type
            ⟨fuel, (List.forall₂_cons.mp puts.substituted).1⟩) head
    · obtain ⟨type, s₁, put, head⟩ := StateT.run_bind_eq_ok.mp head
      have puts := putsOf put
      have inner := progress (early.trans puts.grows) (puts.stored type (List.mem_singleton_self _))
        head
      have first := puts.progress.trans inner
      exact ih (early.trans first.grows)
        (fun arg listed => (argsStored arg listed).grow first.grows)
        (fun member listed => membersStored member (List.mem_cons_of_mem _ listed))
        (pending.mono first.seen)
        (fun member listed => leads member (List.mem_cons_of_mem _ listed)) tail

include reliable reads addressed typesStored in
theorem instanceTooDeep_succ (progress : NestedProgress P objects root fuel)
    (nested : NestedTooDeep P objects root fuel) : InstanceTooDeep P objects root (fuel + 1) := by
  intro i s symbol stack early argsStored pending below run
  rw [materializeInstance_succ] at run
  split_ifs at run with deep
  · exact ⟨⟨stack, List.suffix_rfl, pending.distinct, deep, pending.nested⟩,
      fun le => absurd deep (Nat.not_lt.mpr le)⟩
  · have tooDeep : TooDeep P objects root (i :: stack) := by
      rcases StateT.run_bind_eq_error.mp run with put | ⟨hash, s₁, put, run⟩
      · exact nomatch putStructuralType_eq_error put
      obtain ⟨seen, grows, hashed, -, -⟩ := putStructuralType_stored reliable reads
        (early.addressed addressed) (show i.spec.Canonical from trivial) argsStored put
      rcases StateT.run_bind_eq_error.mp run with visited | ⟨new, s₂, visited, run⟩
      · cases visited
      obtain ⟨rfl, rfl⟩ := Prod.mk.inj (Except.ok.inj visited)
      split_ifs at run with fresh
      · rcases StateT.run_bind_eq_error.mp run with queried |
            ⟨⟨definition, regions, args⟩, s₃, queried, run⟩
        · exact nomatch ExpandM.run_lift_eq_error queried
        obtain ⟨read, rfl⟩ := ExpandM.run_fetch.mp queried
        obtain ⟨declared, rfl, membersStored⟩ :=
          namedTypeDefinitionWithArgs_early typesStored (early.trans grows) read
        have new : hash ∉ s₁.seen := by simpa using fresh
        have pending' : Pending P objects root ⟨insert hash s₁.seen, s₁.objects⟩ (i :: stack) := by
          refine ⟨List.nodup_cons.mpr ⟨fun listed => ?_, pending.distinct⟩, ?_,
            List.isChain_cons.mpr ⟨below, pending.nested⟩⟩
          · obtain ⟨other, known, hashed'⟩ := pending.saw i listed
            obtain rfl := Except.ok.inj (hashed.symm.trans hashed')
            exact new (seen ▸ known)
          · intro j listed
            rcases List.mem_cons.mp listed with rfl | listed
            · exact ⟨hash, Finset.mem_insert_self hash s₁.seen, hashed⟩
            · exact (pending.saw j listed).mono (seen ▸ Finset.subset_insert hash s₁.seen)
        refine membersTooDeep (s := ⟨insert hash s₁.seen, s₁.objects⟩) reliable reads addressed
          progress nested (early.trans grows)
          (fun arg listed => (argsStored arg listed).grow grows) membersStored pending' ?_ run
        intro member listed type substitutes j leads
        exact ⟨type, ⟨definition, regions, _, declared, member, listed, substitutes⟩, leads⟩
      · cases run
    obtain ⟨chain, suffix, rest⟩ := tooDeep
    exact ⟨⟨chain, (List.suffix_cons i stack).trans suffix, rest⟩, fun _ => ⟨chain, suffix, rest⟩⟩

include reliable reads addressed typesStored in
/-- Where an expansion fails for the limit of the depth, there is a long chain of instances. -/
theorem instanceTooDeep (fuel : Nat) :
    InstanceTooDeep P objects root fuel ∧ NestedTooDeep P objects root fuel := by
  induction fuel with
  | zero =>
    constructor
    · intro i s symbol stack _ _ _ _ run
      cases run
    · intro type s symbol top stack _ _ _ _ run
      cases run
  | succ fuel ih =>
    have progress : NestedProgress P objects root fuel :=
      (instanceProgress reliable reads addressed typesStored fuel).2
    exact ⟨instanceTooDeep_succ reliable reads addressed typesStored progress ih.2,
      nestedTooDeep_succ reliable addressed progress ih.1 ih.2⟩

/-! ### Expansions settle -/

open Settling

theorem ExpandM.run_fetch_ne_unfinished {α : Type} {read : Objects → Except Error α} :
    (fetch read).run s ≠ .error .unfinished :=
  fun run => nomatch ExpandM.run_lift_eq_error run

theorem putStructuralType_settles {spec : TypeSpec} :
    Settles .unfinished (fun _ => putStructuralType P spec) s :=
  settles_const fun run => nomatch putStructuralType_eq_error run

include reliable reads addressed in
theorem putSubstitutedType_settles {regions : SortedMap Hash Hash} {args : List Hash}
    (stored : StoredType P objects type) (early : Grows P objects s.objects)
    (argsStored : ∀ arg ∈ args, StoredType P s.objects arg) :
    Settles .unfinished (fun fuel => putSubstitutedType P regions args fuel type) s := by
  induction stored generalizing s with
  | @intro type spec read parts ih =>
    refine Settles.succ ?_
    simp only [putSubstitutedType_succ]
    split_ifs with none
    · exact settles_pure
    · refine Settles.bind_const ExpandM.run_fetch_ne_unfinished fun spec' s₁ queried => ?_
      obtain ⟨read', rfl⟩ := ExpandM.run_fetch.mp queried
      obtain rfl := typeSpec_unique reliable addressed (early.addressed addressed) read read'
      split
      · exact settles_pure
      · exact settles_const fun run => nomatch ExpandM.run_lift_eq_error run
      · refine Settles.bind (settles_mapM (fun s : Expansion => Grows P objects s.objects ∧
          ∀ arg ∈ args, StoredType P s.objects arg) ?_ ?_ ⟨early, argsStored⟩)
          fun _ _ _ => putStructuralType_settles
        · intro part listed s here
          exact ih part listed here.1 here.2
        · intro part listed s fuel type s' here run
          have puts := putSubstitutedType_puts reliable reads addressed (parts part listed) here.1
            here.2 run
          exact ⟨here.1.trans puts.grows, fun arg listed => (here.2 arg listed).grow puts.grows⟩

/-- Expanding an instance at a depth settles. -/
def InstanceSettles (P : Primitives) (objects : Objects) (root : ProgramRootPayload)
    (depth : Nat) : Prop :=
  ∀ {i s}, Grows P objects s.objects → (∀ arg ∈ i.typeArgs, StoredType P s.objects arg) →
    Settles .unfinished (fun fuel => materializeInstance P root fuel i depth) s

include reliable reads addressed typesStored in
theorem nestedSettles (instances : InstanceSettles P objects root depth) {store : Objects}
    (early : Grows P objects store) (stored : StoredType P store type)
    (later : Grows P store s.objects) :
    Settles .unfinished (fun fuel => materializeNestedInstances P root fuel type depth) s := by
  induction stored generalizing s with
  | @intro type spec read parts ih =>
    refine Settles.succ ?_
    simp only [materializeNestedInstances_succ]
    refine Settles.bind_const ExpandM.run_fetch_ne_unfinished fun spec' s₁ queried => ?_
    obtain ⟨read', rfl⟩ := ExpandM.run_fetch.mp queried
    obtain rfl := typeSpec_unique reliable (early.addressed addressed)
      ((early.trans later).addressed addressed) read read'
    split
    · split_ifs
      · exact instances (early.trans later) fun arg listed => (parts arg listed).grow later
      · exact settles_pure
    · refine settles_forM (fun s : Expansion => Grows P store s.objects) ?_ ?_ later
      · intro part listed s here
        exact ih part (mem_components_of_mem_contents listed) here
      · intro part listed s fuel s' here run
        have progress : NestedProgress P objects root fuel :=
          (instanceProgress reliable reads addressed typesStored fuel).2
        exact here.trans (progress (early.trans here)
          ((parts part (mem_components_of_mem_contents listed)).grow here) run).grows

include reliable reads addressed typesStored in
theorem instanceSettles_of_next (next : InstanceSettles P objects root (depth + 1)) :
    InstanceSettles P objects root depth := by
  intro i s early argsStored
  refine Settles.succ ?_
  simp only [materializeInstance_succ]
  split_ifs with deep
  · exact settles_const nofun
  · refine Settles.bind_const (fun run => nomatch putStructuralType_eq_error run)
      fun hash s₁ put => ?_
    obtain ⟨seen, grows, hashed, -, -⟩ := putStructuralType_stored reliable reads
      (early.addressed addressed) (show i.spec.Canonical from trivial) argsStored put
    refine Settles.bind_const nofun fun new s₂ visited => ?_
    obtain ⟨rfl, rfl⟩ := Prod.mk.inj (Except.ok.inj visited)
    split_ifs with fresh
    · refine Settles.bind_const ExpandM.run_fetch_ne_unfinished fun found s₃ queried => ?_
      obtain ⟨definition, regions, args⟩ := found
      obtain ⟨read, rfl⟩ := ExpandM.run_fetch.mp queried
      obtain ⟨-, rfl, membersStored⟩ :=
        namedTypeDefinitionWithArgs_early typesStored (early.trans grows) read
      refine settles_forM (fun s : Expansion => Grows P objects s.objects ∧
        ∀ arg ∈ i.typeArgs, StoredType P s.objects arg) ?_ ?_
        ⟨early.trans grows, fun arg listed => (argsStored arg listed).grow grows⟩
      · intro member listed s here
        refine Settles.bind (putSubstitutedType_settles reliable reads addressed
          (membersStored member listed) here.1 here.2) fun type s' results => ?_
        obtain ⟨fuel, run⟩ := results.exists_run
        have puts := putSubstitutedType_puts reliable reads addressed (membersStored member listed)
          here.1 here.2 run
        exact nestedSettles reliable reads addressed typesStored next (here.1.trans puts.grows)
          (puts.stored type (List.mem_singleton_self _)) (.refl _)
      · intro member listed s fuel s' here run
        obtain ⟨type, s₁, put, run⟩ := StateT.run_bind_eq_ok.mp run
        have puts := putSubstitutedType_puts reliable reads addressed (membersStored member listed)
          here.1 here.2 put
        have progress : NestedProgress P objects root fuel :=
          (instanceProgress reliable reads addressed typesStored fuel).2
        have inner := progress (here.1.trans puts.grows)
          (puts.stored type (List.mem_singleton_self _)) run
        have grows := puts.grows.trans inner.grows
        exact ⟨here.1.trans grows, fun arg listed => (here.2 arg listed).grow grows⟩
    · exact settles_pure

include reliable reads addressed typesStored in
/-- Expanding an instance settles: the depth is limited, and types are finite. -/
theorem instanceSettles (depth : Nat) : InstanceSettles P objects root depth := by
  have within (room : Nat) : ∀ depth, genericInstantiationDepthLimit < depth + room →
      InstanceSettles P objects root depth := by
    induction room with
    | zero =>
      intro depth deep i s _ _
      refine Settles.succ ?_
      simp only [materializeInstance_succ, if_pos (show depth > _ from deep)]
      exact settles_const nofun
    | succ room ih =>
      intro depth deep
      exact instanceSettles_of_next reliable reads addressed typesStored
        (ih (depth + 1) (by omega))
  intro i s early argsStored
  exact within (genericInstantiationDepthLimit + 1) depth (by omega) early argsStored

end Runs

end CodeDb

import CodeDb.Language.Types
import CodeDb.Lib.Except

/-!
# Names of members

The members of a type have different names: they are checked when a type is read, and a
named type is resolved to the members of its definition, which are checked as well.

## Main results

* `nodup_members` — the members of a type have different names
-/

namespace CodeDb

/-! ### Checks of names -/

theorem nodup_of_validateDistinct {α : Type} {check : α → Except String Unit} {name : α → String}
    {duplicate : String → String} {l : List α} {seen : List String}
    (run : validateDistinct check name duplicate l seen = .ok ()) :
    (l.map name).Nodup ∧ ∀ a ∈ l, name a ∉ seen := by
  induction l generalizing seen with
  | nil => simp
  | cons a l ih =>
    obtain ⟨_, _, run⟩ := Except.bind_eq_ok.mp run
    split_ifs at run with repeated
    obtain ⟨distinct, fresh⟩ := ih run
    rw [List.map_cons, List.nodup_cons, List.forall_mem_cons]
    refine ⟨⟨fun again => ?_, distinct⟩, by simpa using repeated, fun b listed seen => ?_⟩
    · obtain ⟨b, listed, same⟩ := List.mem_map.mp again
      exact fresh b listed (same ▸ List.mem_cons_self)
    · exact fresh b listed (List.mem_cons_of_mem _ seen)

theorem validateDistinct_eq_ok {α : Type} {check : α → Except String Unit} {name : α → String}
    {duplicate : String → String} {l : List α} {seen : List String}
    (valid : ∀ a ∈ l, check a = .ok ()) (distinct : (l.map name).Nodup)
    (fresh : ∀ a ∈ l, name a ∉ seen) : validateDistinct check name duplicate l seen = .ok () := by
  induction l generalizing seen with
  | nil => rfl
  | cons a l ih =>
    rw [List.forall_mem_cons] at valid fresh
    rw [List.map_cons, List.nodup_cons] at distinct
    refine Except.bind_eq_ok.mpr ⟨(), valid.1, ?_⟩
    rw [if_neg (by simpa using fresh.1)]
    refine ih valid.2 distinct.2 fun b listed again => ?_
    rcases List.mem_cons.mp again with same | before
    · exact distinct.1 (same ▸ List.mem_map_of_mem listed)
    · exact fresh.2 b listed before

theorem nodup_of_validateMemberDefs {label : String} {members : List TypeMemberDef}
    {names : List String} {symbols : List Hash}
    (run : validateMemberDefs.go label members names symbols = .ok ()) :
    (members.map (·.name)).Nodup ∧ ∀ m ∈ members, m.name ∉ names := by
  induction members generalizing names symbols with
  | nil => simp
  | cons m members ih =>
    obtain ⟨_, _, run⟩ := Except.bind_eq_ok.mp run
    split_ifs at run with repeated
    obtain ⟨distinct, fresh⟩ := ih run
    rw [List.map_cons, List.nodup_cons, List.forall_mem_cons]
    refine ⟨⟨fun again => ?_, distinct⟩, by simpa using repeated, fun b listed seen => ?_⟩
    · obtain ⟨b, listed, same⟩ := List.mem_map.mp again
      exact fresh b listed (same ▸ List.mem_cons_self)
    · exact fresh b listed (List.mem_cons_of_mem _ seen)

/-! ### Types -/

/-- The fields of a record or the variants of an enum. -/
def TypeSpec.members : TypeSpec → List TypeFieldSpec
  | .record members | .enum members => members
  | _ => []

section Variants

variable {P : Primitives} {objects : Objects} {root : ProgramRootPayload} {type : Hash}
  {variants : List TypeFieldSpec}

theorem nodup_typeFieldsFromPayload {label : String} {value : Option JsonValue}
    (run : typeFieldsFromPayload label value = .ok variants) : (variants.map (·.name)).Nodup := by
  cases value with
  | none => cases run
  | some v =>
    cases v with
    | array values =>
      obtain ⟨fields, _, run⟩ := Except.bind_eq_ok.mp run
      rw [canonicalTypeFields] at run
      split_ifs at run with empty
      obtain ⟨_, valid, run⟩ := Except.bind_eq_ok.mp run
      obtain rfl := Except.pure_eq_ok.mp run
      have same := (SortOn.sortOn_perm (·.name) fields).map TypeFieldSpec.name
      exact same.nodup_iff.mpr (nodup_of_validateDistinct valid).1
    | _ => cases run

theorem nodup_typeSpecFromPayload {payload : JsonValue} {spec : TypeSpec}
    (run : typeSpecFromPayload payload = .ok spec) : (spec.members.map (·.name)).Nodup := by
  obtain ⟨kind, _, run⟩ := Except.bind_eq_ok.mp run
  dsimp only at run
  split at run
  case h_4 =>
    obtain ⟨index, _, run⟩ := Except.bind_eq_ok.mp run
    split_ifs at run
    cases Except.pure_eq_ok.mp run
    exact List.nodup_nil
  case h_12 | h_13 =>
    obtain ⟨fields, read, run⟩ := Except.bind_eq_ok.mp run
    cases Except.pure_eq_ok.mp run
    exact nodup_typeFieldsFromPayload read
  case h_14 =>
    split_ifs at run
    cases Except.pure_eq_ok.mp run
    exact List.nodup_nil
  all_goals
    repeat' obtain ⟨_, _, run⟩ := Except.bind_eq_ok.mp run
    cases Except.pure_eq_ok.mp run
    exact List.nodup_nil

theorem nodup_typeSpec {spec : TypeSpec} (found : typeSpec P objects type = .ok spec) :
    (spec.members.map (·.name)).Nodup := by
  rw [typeSpec] at found
  cases scalar : scalarIntTypeByHash P type with
  | some int =>
    rw [scalar] at found
    cases found
    exact List.nodup_nil
  | none =>
    rw [scalar] at found
    dsimp only at found
    split_ifs at found
    · cases found
      exact List.nodup_nil
    · cases found
      exact List.nodup_nil
    obtain ⟨kind, _, found⟩ := Except.bind_eq_ok.mp found
    split_ifs at found
    obtain ⟨payload, _, found⟩ := Except.bind_eq_ok.mp found
    exact nodup_typeSpecFromPayload found

theorem nodup_definitionBody {keys : TypeDefinitionKeys} {label shown : String}
    {symbol hash : Hash} {body : TypeDefinitionBody}
    (found : definitionBody P objects keys label shown symbol hash = .ok body) :
    (body.members.map (·.name)).Nodup := by
  obtain ⟨kind, _, found⟩ := Except.bind_eq_ok.mp found
  split_ifs at found
  obtain ⟨payload, _, found⟩ := Except.bind_eq_ok.mp found
  obtain ⟨typeSymbol, _, found⟩ := Except.bind_eq_ok.mp found
  split_ifs at found
  obtain ⟨regionParams, _, found⟩ := Except.bind_eq_ok.mp found
  obtain ⟨typeParams, _, found⟩ := Except.bind_eq_ok.mp found
  obtain ⟨members, read, found⟩ := Except.bind_eq_ok.mp found
  obtain rfl := Except.pure_eq_ok.mp found
  unfold memberDefsFromPayload at read
  split at read
  · obtain ⟨listed, _, read⟩ := Except.bind_eq_ok.mp read
    obtain ⟨_, valid, read⟩ := Except.bind_eq_ok.mp read
    obtain rfl := Except.pure_eq_ok.mp read
    rw [validateMemberDefs] at valid
    split_ifs at valid
    exact (nodup_of_validateMemberDefs valid).1
  · cases read

theorem nodup_typeDefinition {typeDef : Hash} {definition : TypeDefinition}
    (found : typeDefinition P objects typeDef = .ok definition) :
    (definition.body.members.map (·.name)).Nodup := by
  obtain ⟨kind, _, found⟩ := Except.bind_eq_ok.mp found
  split_ifs at found
  obtain ⟨payload, _, found⟩ := Except.bind_eq_ok.mp found
  obtain ⟨typeSymbol, _, found⟩ := Except.bind_eq_ok.mp found
  obtain ⟨typeKind, _, found⟩ := Except.bind_eq_ok.mp found
  obtain ⟨hash, _, found⟩ := Except.bind_eq_ok.mp found
  split at found
  · obtain ⟨body, read, found⟩ := Except.bind_eq_ok.mp found
    obtain rfl := Except.pure_eq_ok.mp found
    exact nodup_definitionBody read
  · obtain ⟨body, read, found⟩ := Except.bind_eq_ok.mp found
    obtain rfl := Except.pure_eq_ok.mp found
    exact nodup_definitionBody read
  · cases found

theorem map_name_substituteMembers {regions : SortedMap Hash Hash} {args : List Hash}
    {members : List TypeMemberDef}
    (run : substituteMembers P objects regions args members = .ok variants) :
    variants.map (·.name) = members.map (·.name) := by
  have pairs : List.Forall₂ (fun m v => m.name = TypeFieldSpec.name v) members variants :=
    (Except.mapM_eq_ok.mp run).imp fun m v substituted => by
      obtain ⟨typeHash, _, made⟩ := Except.bind_eq_ok.mp substituted
      obtain rfl := Except.pure_eq_ok.mp made
      rfl
  exact (List.forall₂_eq_eq_eq ▸ List.forall₂_map_left_iff.mpr
    (List.forall₂_map_right_iff.mpr pairs) : members.map (·.name) = _).symm

/-- The members of a type have different names. -/
theorem nodup_members {spec : TypeSpec} (found : typeSpecInRoot P objects root type = .ok spec) :
    (spec.members.map (·.name)).Nodup := by
  obtain ⟨direct, resolved, found⟩ := Except.bind_eq_ok.mp found
  cases direct with
  | named typeSymbol regionArgs typeArgs =>
    dsimp only at found
    cases listed : rootType root typeSymbol with
    | none =>
      rw [listed] at found
      cases found
    | some entry =>
      rw [listed] at found
      obtain ⟨definition, defined, found⟩ := Except.bind_eq_ok.mp found
      split_ifs at found
      obtain ⟨members, substituted, found⟩ := Except.bind_eq_ok.mp found
      have same := map_name_substituteMembers substituted
      cases definition with
      | record body | enum body =>
        cases Except.pure_eq_ok.mp found
        exact same ▸ nodup_typeDefinition defined
  | _ =>
    cases Except.pure_eq_ok.mp found
    exact nodup_typeSpec resolved

/-- The variants of an enum have different names. -/
theorem nodup_variants (found : typeSpecInRoot P objects root type = .ok (.enum variants)) :
    (variants.map (·.name)).Nodup :=
  nodup_members found

end Variants

end CodeDb

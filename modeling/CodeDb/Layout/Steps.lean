import CodeDb.Layout.Layout
import CodeDb.Lib.Except

/-!
# Steps of a layout

What one step of the layout recursion can do, by the type that is found in the root: a
named type is laid out as the record or the enum that it expands to.

## Main results

* `layoutTypeInner_cases` — what the layout of a type is, given those of its parts
* `layoutRecord_cases`, `layoutEnum_cases` — the same for what has members
-/

namespace CodeDb

open StateT

variable {P : Primitives} {objects : Objects} {root : ProgramRootPayload} {target : TargetLayout}
  {recurse : Hash → LayoutM ComputedLayout} {flags : Hash → Except Error LayoutClass}
  {typeHash : Hash} {layout : ComputedLayout} {s s' : List Hash}

/-- What a member is in the type that it is a member of. -/
def LayoutMember.spec (member : LayoutMember) : TypeFieldSpec := ⟨member.name, member.typeHash⟩

/-- What the layout of a type can be, for the type that is found in the root. -/
inductive LaidOut (P : Primitives) (target : TargetLayout) (recurse : Hash → LayoutM ComputedLayout)
    (flags : Hash → Except Error LayoutClass) (typeHash : Hash) : TypeSpec → ComputedLayout → Prop
  | builtin {kind : String} {layout : ComputedLayout} :
    layoutBuiltin P typeHash kind = .ok layout →
    LaidOut P target recurse flags typeHash (.builtin kind) layout
  | reference (region : Hash) (isMut : Bool) (referent : Hash) :
    LaidOut P target recurse flags typeHash (.reference region isMut referent)
      ⟨.reference region isMut referent, target.pointerSize, target.pointerAlign, .borrowed isMut⟩
  | rawPointer (isMut : Bool) (pointee : Hash) :
    LaidOut P target recurse flags typeHash (.rawPointer isMut pointee)
      ⟨.rawPointer isMut pointee, target.pointerSize, target.pointerAlign, .rawPointer⟩
  | box {element : Hash} {payload : LayoutClass} : flags element = .ok payload →
    LaidOut P target recurse flags typeHash (.box element)
      ⟨.box element, target.pointerSize, target.pointerAlign, .boxed payload⟩
  | vec {element : Hash} {layout : ComputedLayout} {s s' : List Hash} {payload : LayoutClass}
    {overflow : Error} {size lenOffset : Nat} {elements : ElementLayout} :
    (recurse element).run s = .ok (layout, s') → flags element = .ok payload →
    bufferLayout target overflow 16 = .ok (size, lenOffset) →
    elementLayout element layout = .ok elements →
    LaidOut P target recurse flags typeHash (.vec element)
      ⟨.vec lenOffset (wrapU64 (lenOffset + 8)) elements, size, max target.pointerAlign 8,
        .ownedBuffer payload⟩
  | string {layout : ComputedLayout} {s s' : List Hash} {overflow : Error} {size lenOffset : Nat}
    {elements : ElementLayout} :
    (recurse (typeHashFor P "U8")).run s = .ok (layout, s') →
    bufferLayout target overflow 16 = .ok (size, lenOffset) →
    elementLayout (typeHashFor P "U8") layout = .ok elements →
    LaidOut P target recurse flags typeHash .string
      ⟨.string lenOffset (wrapU64 (lenOffset + 8)) elements, size, max target.pointerAlign 8,
        .ownedBuffer .copy⟩
  | slice (region : Hash) (isMut : Bool) {element : Hash} {layout : ComputedLayout}
    {s s' : List Hash} {overflow : Error} {size lenOffset : Nat} {elements : ElementLayout} :
    (recurse element).run s = .ok (layout, s') →
    bufferLayout target overflow 8 = .ok (size, lenOffset) →
    elementLayout element layout = .ok elements →
    LaidOut P target recurse flags typeHash (.slice region isMut element)
      ⟨.slice region isMut lenOffset elements, size, max target.pointerAlign 8, .borrowed isMut⟩
  | fixedArray {element : Hash} {len : Nat} {layout : ComputedLayout} {s s' : List Hash}
    {overflow : Error} {size : Nat} {elements : ElementLayout} :
    (recurse element).run s = .ok (layout, s') →
    elementLayout element layout = .ok elements →
    checkedMul overflow elements.stride len = .ok size →
    LaidOut P target recurse flags typeHash (.fixedArray element len)
      ⟨.fixedArray len elements, size, layout.align, layout.layoutClass⟩
  | record {specs : List TypeFieldSpec} {members : List LayoutMember}
    {typeSymbol typeDef : Option Hash} {layout : ComputedLayout} {s s' : List Hash} :
    members.map LayoutMember.spec = specs →
    (layoutRecord recurse typeHash typeSymbol typeDef members).run s = .ok (layout, s') →
    LaidOut P target recurse flags typeHash (.record specs) layout
  | enum {specs : List TypeFieldSpec} {members : List LayoutMember}
    {typeSymbol typeDef : Option Hash} {layout : ComputedLayout} {s s' : List Hash} :
    members.map LayoutMember.spec = specs →
    (layoutEnum target recurse typeHash typeSymbol typeDef members).run s = .ok (layout, s') →
    LaidOut P target recurse flags typeHash (.enum specs) layout

theorem structuralMembers_spec (fields : List TypeFieldSpec) :
    (structuralMembers fields).map LayoutMember.spec = fields := by
  rw [structuralMembers, List.map_map]
  exact List.map_id fields

theorem membersWithExpandedTypes_spec {label : String} {members : List TypeMemberDef}
    {expanded : List TypeFieldSpec} {laid : List LayoutMember}
    (run : membersWithExpandedTypes label members expanded = .ok laid) :
    laid.map LayoutMember.spec = expanded := by
  rw [membersWithExpandedTypes] at run
  split_ifs at run with differ
  have pairs : List.Forall₂ (fun pair member => pair.2 = LayoutMember.spec member)
      (members.zip expanded) laid :=
    (Except.mapM_eq_ok.mp run).imp fun (member, spec) laid made => by
      dsimp only at made
      split_ifs at made with renamed
      obtain rfl := Except.ok.inj made
      rw [LayoutMember.spec, not_not.mp renamed]
  have same : (members.zip expanded).map Prod.snd = laid.map LayoutMember.spec :=
    List.forall₂_eq_eq_eq ▸ List.forall₂_map_left_iff.mpr (List.forall₂_map_right_iff.mpr pairs)
  rw [← same, List.map_snd_zip (le_of_eq (not_not.mp differ).symm)]

/-- What one step of a layout can do. -/
theorem layoutTypeInner_cases
    (run : (layoutTypeInner P objects root target recurse flags typeHash).run s =
      .ok (layout, s')) :
    ∃ spec, typeSpecInRoot P objects root typeHash = .ok spec ∧
      LaidOut P target recurse flags typeHash spec layout := by
  -- the kind is read first, and each kind is peeled in the order the source computes it
  rw [layoutTypeInner] at run
  obtain ⟨spec, found, run⟩ := run_lift_bind_eq_ok.mp run
  have resolved (plain : ∀ sym regions args, spec ≠ .named sym regions args) :
      typeSpecInRoot P objects root typeHash = .ok spec := by
    rw [typeSpecInRoot, found]
    cases spec with
    | named => exact absurd rfl (plain _ _ _)
    | _ => rfl
  cases spec with
  | builtin kind =>
    obtain ⟨run, rfl⟩ := run_lift_eq_ok.mp run
    exact ⟨_, resolved nofun, .builtin run⟩
  | typeParam index => cases run
  | reference region isMut referent =>
    obtain ⟨_, _, run⟩ := run_lift_bind_eq_ok.mp run
    cases run_pure_eq_ok.mp run
    exact ⟨_, resolved nofun, .reference region isMut referent⟩
  | rawPointer isMut pointee =>
    obtain ⟨_, _, run⟩ := run_lift_bind_eq_ok.mp run
    cases run_pure_eq_ok.mp run
    exact ⟨_, resolved nofun, .rawPointer isMut pointee⟩
  | box element =>
    obtain ⟨_, _, run⟩ := run_lift_bind_eq_ok.mp run
    obtain ⟨payload, flagged, run⟩ := run_lift_bind_eq_ok.mp run
    cases run_pure_eq_ok.mp run
    exact ⟨_, resolved nofun, .box flagged⟩
  | vec element =>
    obtain ⟨inner, _, laid, run⟩ := run_bind_eq_ok.mp run
    obtain ⟨payload, flagged, run⟩ := run_lift_bind_eq_ok.mp run
    obtain ⟨⟨size, lenOffset⟩, buffer, run⟩ := run_lift_bind_eq_ok.mp run
    obtain ⟨elements, strides, run⟩ := run_lift_bind_eq_ok.mp run
    cases run_pure_eq_ok.mp run
    exact ⟨_, resolved nofun, .vec laid flagged buffer strides⟩
  | string =>
    obtain ⟨inner, _, laid, run⟩ := run_bind_eq_ok.mp run
    obtain ⟨⟨size, lenOffset⟩, buffer, run⟩ := run_lift_bind_eq_ok.mp run
    obtain ⟨elements, strides, run⟩ := run_lift_bind_eq_ok.mp run
    cases run_pure_eq_ok.mp run
    exact ⟨_, resolved nofun, .string laid buffer strides⟩
  | slice region isMut element =>
    obtain ⟨inner, _, laid, run⟩ := run_bind_eq_ok.mp run
    obtain ⟨⟨size, lenOffset⟩, buffer, run⟩ := run_lift_bind_eq_ok.mp run
    obtain ⟨elements, strides, run⟩ := run_lift_bind_eq_ok.mp run
    cases run_pure_eq_ok.mp run
    exact ⟨_, resolved nofun, .slice region isMut laid buffer strides⟩
  | fixedArray element len =>
    obtain ⟨inner, _, laid, run⟩ := run_bind_eq_ok.mp run
    obtain ⟨elements, strides, run⟩ := run_lift_bind_eq_ok.mp run
    obtain ⟨size, whole, run⟩ := run_lift_bind_eq_ok.mp run
    cases run_pure_eq_ok.mp run
    exact ⟨_, resolved nofun, .fixedArray laid strides whole⟩
  | record fields => exact ⟨_, resolved nofun, .record (structuralMembers_spec fields) run⟩
  | enum variants => exact ⟨_, resolved nofun, .enum (structuralMembers_spec variants) run⟩
  | named typeSymbol regionArgs typeArgs =>
    change (layoutNamed P objects root target recurse typeHash typeSymbol regionArgs
      typeArgs).run s = _ at run
    -- a declared type is one the stack does not hold yet, laid out as what it is expanded to
    rw [layoutNamed] at run
    obtain ⟨entry, _, run⟩ := run_lift_bind_eq_ok.mp run
    obtain ⟨definition, _, run⟩ := run_lift_bind_eq_ok.mp run
    dsimp only at run
    split_ifs at run
    · cases run
    · cases run
    obtain ⟨_, s, _, run⟩ := run_bind_eq_ok.mp run
    cases definition with
    | record body =>
      obtain ⟨spec, resolved, run⟩ := run_lift_bind_eq_ok.mp run
      cases spec with
      | record expanded =>
        obtain ⟨members, expands, run⟩ := run_lift_bind_eq_ok.mp run
        exact ⟨_, resolved, .record (membersWithExpandedTypes_spec expands) run⟩
      | _ => cases run
    | enum body =>
      obtain ⟨spec, resolved, run⟩ := run_lift_bind_eq_ok.mp run
      cases spec with
      | enum expanded =>
        obtain ⟨members, expands, run⟩ := run_lift_bind_eq_ok.mp run
        exact ⟨_, resolved, .enum (membersWithExpandedTypes_spec expands) run⟩
      | _ => cases run

/-! ### Members -/

/-- What laying out one more field can do. -/
theorem layoutField_cases {progress progress' : RecordProgress} {field : LayoutMember}
    (run : (layoutField recurse typeHash progress field).run s = .ok (progress', s')) :
    ∃ layout offset size, (recurse field.typeHash).run s = .ok (layout, s') ∧
      alignUp progress.offset layout.align = .ok offset ∧
      checkedAdd ("record layout overflows for " ++ typeHash) offset layout.size = .ok size ∧
      progress' = ⟨size, size, max progress.align layout.align,
        progress.layoutClass.merge layout.layoutClass, progress.fields ++
          [⟨field.symbol, field.name, field.typeHash, offset, layout.size, layout.align⟩]⟩ := by
  rw [layoutField] at run
  obtain ⟨layout, _, laid, run⟩ := run_bind_eq_ok.mp run
  obtain ⟨offset, aligned, run⟩ := run_lift_bind_eq_ok.mp run
  obtain ⟨size, added, run⟩ := run_lift_bind_eq_ok.mp run
  cases run_pure_eq_ok.mp run
  exact ⟨layout, offset, size, laid, aligned, added, rfl⟩

theorem layoutRecord_cases {typeSymbol typeDef : Option Hash} {fields : List LayoutMember}
    (run : (layoutRecord recurse typeHash typeSymbol typeDef fields).run s = .ok (layout, s')) :
    ∃ progress size, (fields.foldlM (layoutField recurse typeHash) ⟨0, 0, 1, .copy, []⟩).run s =
        .ok (progress, s') ∧
      alignUp progress.size progress.align = .ok size ∧
      layout = ⟨.record typeSymbol typeDef progress.fields, size, progress.align,
        progress.layoutClass⟩ := by
  rw [layoutRecord] at run
  obtain ⟨progress, _, laid, run⟩ := run_bind_eq_ok.mp run
  obtain ⟨size, aligned, run⟩ := run_lift_bind_eq_ok.mp run
  cases run_pure_eq_ok.mp run
  exact ⟨progress, size, laid, aligned, rfl⟩

/-- What laying out one more payload can do. -/
theorem layoutPayload_cases {progress progress' : PayloadProgress} {variant : LayoutMember}
    (run : (layoutPayload recurse progress variant).run s = .ok (progress', s')) :
    ∃ layout, (recurse variant.typeHash).run s = .ok (layout, s') ∧
      progress' = ⟨max progress.size layout.size, max progress.align layout.align,
        progress.layoutClass.merge layout.layoutClass, progress.layouts ++ [layout]⟩ := by
  rw [layoutPayload] at run
  obtain ⟨layout, _, laid, run⟩ := run_bind_eq_ok.mp run
  cases run_pure_eq_ok.mp run
  exact ⟨layout, laid, rfl⟩

theorem layoutEnum_cases {typeSymbol typeDef : Option Hash} {variants : List LayoutMember}
    (run : (layoutEnum target recurse typeHash typeSymbol typeDef variants).run s =
      .ok (layout, s')) :
    ∃ payload payloadOffset unaligned size,
      (variants.foldlM (layoutPayload recurse) ⟨0, 1, .copy, []⟩).run s = .ok (payload, s') ∧
      alignUp target.enumTagSize payload.align = .ok payloadOffset ∧
      checkedAdd ("enum layout overflows for " ++ typeHash) payloadOffset payload.size =
        .ok unaligned ∧
      alignUp unaligned (max target.enumTagAlign payload.align) = .ok size ∧
      layout = ⟨.enum typeSymbol typeDef target.enumTagSize target.enumTagAlign payloadOffset
        payload.size (variantLayouts variants payload.layouts payloadOffset), size,
        max target.enumTagAlign payload.align, payload.layoutClass⟩ := by
  rw [layoutEnum] at run
  obtain ⟨payload, _, laid, run⟩ := run_bind_eq_ok.mp run
  obtain ⟨payloadOffset, aligned, run⟩ := run_lift_bind_eq_ok.mp run
  obtain ⟨unaligned, added, run⟩ := run_lift_bind_eq_ok.mp run
  obtain ⟨size, rounded, run⟩ := run_lift_bind_eq_ok.mp run
  cases run_pure_eq_ok.mp run
  exact ⟨payload, payloadOffset, unaligned, size, laid, aligned, added, rounded, rfl⟩

end CodeDb

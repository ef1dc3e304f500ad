import CodeDb.Language.MemberNames
import CodeDb.Layout.Physical
import CodeDb.Lib.Owned
import CodeDb.Lowering.ValueSinks

/-!
# The bytes of a value under two types

A value that is stored at one type and loaded at another one is loaded as it was stored where
whatever the two types lead to in the same way has the same layout: what lies in a member of the
same name, in an element, in a box, and what lies behind a reference or in the elements of a
slice or a vector.

## Main definitions

* `Reaches` — what two types lead to in the same way
* `SameLayout` — all of it has the same layout
* `PointeesCompatible` — what lies behind references, slices and vectors passes the check of
  what is copied byte by byte

## Main results

* `layoutsBlindCopyCompatible_iff` — what the check asks of two types
* `sameLayout_iff` — the check, asked of all that lies behind a pointer as well, is exact
-/

namespace CodeDb

/-! ### What two types lead to -/

/-- What lies in the same member, or in a box, of two types. -/
inductive MemberPair : TypeSpec → TypeSpec → Hash → Hash → Prop
  | field {fields fields' : List TypeFieldSpec} {f f' : TypeFieldSpec} :
    f ∈ fields → f' ∈ fields' → f.name = f'.name →
    MemberPair (.record fields) (.record fields') f.typeHash f'.typeHash
  | payload {variants variants' : List TypeFieldSpec} {v v' : TypeFieldSpec} :
    v ∈ variants → v' ∈ variants' → v.name = v'.name →
    MemberPair (.enum variants) (.enum variants') v.typeHash v'.typeHash
  | element (element element' : Hash) (len len' : Nat) :
    MemberPair (.fixedArray element len) (.fixedArray element' len') element element'
  | boxed (element element' : Hash) : MemberPair (.box element) (.box element') element element'

section MemberPair

variable {related : Hash → Hash → Prop} {members members' : List TypeFieldSpec}

theorem forall_memberPair_record :
    (∀ a b, MemberPair (.record members) (.record members') a b → related a b) ↔
      ∀ f ∈ members, ∀ f' ∈ members', f.name = f'.name → related f.typeHash f'.typeHash := by
  constructor
  · exact fun holds f listed f' listed' same => holds _ _ (.field listed listed' same)
  · intro holds a b pair
    cases pair with
    | field listed listed' same => exact holds _ listed _ listed' same

theorem forall_memberPair_enum :
    (∀ a b, MemberPair (.enum members) (.enum members') a b → related a b) ↔
      ∀ v ∈ members, ∀ v' ∈ members', v.name = v'.name → related v.typeHash v'.typeHash := by
  constructor
  · exact fun holds v listed v' listed' same => holds _ _ (.payload listed listed' same)
  · intro holds a b pair
    cases pair with
    | payload listed listed' same => exact holds _ listed _ listed' same

end MemberPair

/-- What lies behind pointers of two types. -/
inductive PointeePair : TypeSpec → TypeSpec → Hash → Hash → Prop
  | referent (region region' : Hash) (isMut isMut' : Bool) (referent referent' : Hash) :
    PointeePair (.reference region isMut referent) (.reference region' isMut' referent') referent
      referent'
  | pointee (isMut isMut' : Bool) (pointee pointee' : Hash) :
    PointeePair (.rawPointer isMut pointee) (.rawPointer isMut' pointee') pointee pointee'
  | sliced (region region' : Hash) (isMut isMut' : Bool) (element element' : Hash) :
    PointeePair (.slice region isMut element) (.slice region' isMut' element') element element'
  | pushed (element element' : Hash) : PointeePair (.vec element) (.vec element') element element'

/-- Where the length and the capacity lie behind the pointer. -/
def LayoutDetails.headerOffsets : LayoutDetails → List Nat
  | .slice _ _ lenOffset _ => [lenOffset]
  | .vec lenOffset capacityOffset _ | .string lenOffset capacityOffset _ =>
    [lenOffset, capacityOffset]
  | _ => []

/-- The parts of two layouts have the same places. -/
def LayoutDetails.SamePlaces : LayoutDetails → LayoutDetails → Prop
  | .record _ _ fields, .record _ _ fields' =>
    fields.length = fields'.length ∧
      ∀ f' ∈ fields', ∃ f ∈ fields, f.name = f'.name ∧ f.offset = f'.offset
  | .enum _ _ tagSize _ _ _ variants, .enum _ _ tagSize' _ _ _ variants' =>
    tagSize = tagSize' ∧ variants.length = variants'.length ∧
      ∀ v' ∈ variants', ∃ v ∈ variants, v.name = v'.name ∧ v.tagValue = v'.tagValue ∧
        v.payloadOffset = v'.payloadOffset
  | .fixedArray len _, .fixedArray len' _ => len = len'
  | details, details' =>
    details.kind = details'.kind ∧ details.headerOffsets = details'.headerOffsets

/-- Types that are built in the same way. -/
inductive SameShape : TypeSpec → TypeSpec → Prop
  | pointers {spec spec' : TypeSpec} {a b : Hash} : PointeePair spec spec' a b →
    SameShape spec spec'
  | boxes (element element' : Hash) : SameShape (.box element) (.box element')
  | arrays (element element' : Hash) (len len' : Nat) :
    SameShape (.fixedArray element len) (.fixedArray element' len')
  | records (fields fields' : List TypeFieldSpec) : SameShape (.record fields) (.record fields')
  | enums (variants variants' : List TypeFieldSpec) :
    SameShape (.enum variants) (.enum variants')

section Relations

variable (P : Primitives) (objects : Objects) (root : ProgramRootPayload)

/-- What one step leads to from two types. -/
def PartPair (src dst : Hash × Hash) : Prop :=
  ∃ spec spec', typeSpecInRoot P objects root src.1 = .ok spec ∧
    typeSpecInRoot P objects root src.2 = .ok spec' ∧
    (MemberPair spec spec' dst.1 dst.2 ∨ PointeePair spec spec' dst.1 dst.2)

/-- What two types lead to in the same way. -/
def Reaches (src dst a b : Hash) : Prop :=
  Relation.ReflTransGen (PartPair P objects root) (src, dst) (a, b)

variable (stack : Nat) (targetTriple : String)

/-- Two types have the same layout. Elements lie as far apart as they are large. -/
def LaidOutAlike (src dst : Hash) : Prop :=
  src = dst ∨ ∃ layout layout', typeLayout P objects root stack targetTriple src = .ok layout ∧
    typeLayout P objects root stack targetTriple dst = .ok layout' ∧
    layout.size = layout'.size ∧ layout.details.SamePlaces layout'.details

/-- The bytes behind a value are laid out alike under two types, however deep. -/
def SameLayout (src dst : Hash) : Prop :=
  ∀ a b, Reaches P objects root src dst a b → LaidOutAlike P objects root stack targetTriple a b

/-- All that two types lead to has layouts. -/
def HaveLayouts (src dst : Hash) : Prop :=
  ∀ a b, Reaches P objects root src dst a b → a ≠ b →
    (∃ layout, typeLayout P objects root stack targetTriple a = .ok layout) ∧
      ∃ layout, typeLayout P objects root stack targetTriple b = .ok layout

/-- Two types pass the check of what is copied byte by byte. -/
def BlindCopyCompatible (src dst : Hash) : Prop :=
  ∃ depth, layoutsBlindCopyCompatible P objects root stack targetTriple depth src dst = .ok true

/-- All that lies behind pointers passes the check. -/
def PointeesCompatible (src dst : Hash) : Prop :=
  ∀ a b spec spec' a' b', Reaches P objects root src dst a b →
    typeSpecInRoot P objects root a = .ok spec → typeSpecInRoot P objects root b = .ok spec' →
    PointeePair spec spec' a' b' → BlindCopyCompatible P objects root stack targetTriple a' b'

end Relations

variable {P : Primitives} {objects : Objects} {root : ProgramRootPayload} {stack : Nat}
  {targetTriple : String}

/-! ### Layouts by type -/

section Layouts

variable {type : Hash} {layout : ComputedLayout}

theorem typeLayout_eq_ok : typeLayout P objects root stack targetTriple type = .ok layout ↔
    ∃ target deps, targetLayout targetTriple = .ok target ∧
      (layoutType P objects root target stack [] type).run [] = .ok (layout, deps) := by
  rw [typeLayout, Except.bind_eq_ok]
  constructor
  · rintro ⟨result, run, same⟩
    obtain rfl := Except.pure_eq_ok.mp same
    obtain ⟨target, supported, run⟩ := Except.bind_eq_ok.mp run
    obtain ⟨⟨layout', deps⟩, laid, run⟩ := Except.bind_eq_ok.mp run
    obtain rfl := Except.pure_eq_ok.mp run
    exact ⟨target, deps, supported, laid⟩
  · rintro ⟨target, deps, supported, laid⟩
    exact ⟨_, Except.bind_eq_ok.mpr ⟨target, supported, Except.bind_eq_ok.mpr ⟨_, laid, rfl⟩⟩,
      rfl⟩

/-- A layout is that of the type that is found in the root. -/
theorem exists_laidOut (laid : typeLayout P objects root stack targetTriple type = .ok layout) :
    ∃ target depth flags spec, targetLayout targetTriple = .ok target ∧
      typeSpecInRoot P objects root type = .ok spec ∧
      LaidOut P target (layoutType P objects root target depth [type]) flags type spec layout := by
  obtain ⟨target, deps, supported, run⟩ := typeLayout_eq_ok.mp laid
  cases stack with
  | zero => cases run
  | succ depth =>
    rw [layoutType, if_neg List.not_mem_nil] at run
    obtain ⟨spec, found, laid⟩ := layoutTypeInner_cases run
    exact ⟨target, _, _, spec, supported, found, laid⟩

/-- The layout of a record has the fields of the record. -/
theorem layout_of_record {specs : List TypeFieldSpec}
    (found : typeSpecInRoot P objects root type = .ok (.record specs))
    (laid : typeLayout P objects root stack targetTriple type = .ok layout) :
    ∃ typeSymbol typeDef fields, layout.details = .record typeSymbol typeDef fields ∧
      fields.map FieldLayout.spec = specs := by
  obtain ⟨target, depth, flags, spec, supported, found', laid⟩ := exists_laidOut laid
  obtain rfl := Except.ok.inj (found.symm.trans found')
  cases laid with
  | record named run =>
    subst named
    have sound := layoutRecord_sound supported found run
    obtain ⟨progress, size, _, _, rfl⟩ := layoutRecord_cases run
    obtain ⟨spec, found', rfl⟩ := sound.ofType
    exact ⟨_, _, _, rfl, TypeSpec.record.inj (Except.ok.inj (found'.symm.trans found))⟩

/-- The layout of an enum has the variants of the enum behind a tag. -/
theorem layout_of_enum {specs : List TypeFieldSpec}
    (found : typeSpecInRoot P objects root type = .ok (.enum specs))
    (laid : typeLayout P objects root stack targetTriple type = .ok layout) :
    ∃ typeSymbol typeDef tagAlign payloadOffset payloadSize variants,
      layout.details = .enum typeSymbol typeDef 8 tagAlign payloadOffset payloadSize variants ∧
      variants.map VariantLayout.spec = specs := by
  obtain ⟨target, depth, flags, spec, supported, found', laid⟩ := exists_laidOut laid
  obtain rfl := Except.ok.inj (found.symm.trans found')
  obtain rfl := targetLayout_eq supported
  cases laid with
  | enum named run =>
    subst named
    have sound := layoutEnum_sound supported found run
    obtain ⟨payload, payloadOffset, unaligned, size, _, _, _, _, rfl⟩ := layoutEnum_cases run
    obtain ⟨spec, found', rfl⟩ := sound.ofType
    exact ⟨_, _, _, _, _, _, rfl, TypeSpec.enum.inj (Except.ok.inj (found'.symm.trans found))⟩

/-- What lies behind pointers does not matter for the layout of the pointer. -/
theorem layout_of_pointeePair {type' : Hash} {layout' : ComputedLayout} {spec spec' : TypeSpec}
    {a b : Hash} (pair : PointeePair spec spec' a b)
    (found : typeSpecInRoot P objects root type = .ok spec)
    (found' : typeSpecInRoot P objects root type' = .ok spec')
    (laid : typeLayout P objects root stack targetTriple type = .ok layout)
    (laid' : typeLayout P objects root stack targetTriple type' = .ok layout') :
    layout.details.kind ∉ ["record", "enum", "fixed_array"] ∧
      layout.details.kind = layout'.details.kind ∧ layout.size = layout'.size ∧
      layout.align = layout'.align := by
  obtain ⟨target, _, _, _, supported, again, laid⟩ := exists_laidOut laid
  obtain ⟨target', _, _, _, supported', again', laid'⟩ := exists_laidOut laid'
  obtain rfl := Except.ok.inj (supported.symm.trans supported')
  obtain rfl := Except.ok.inj (found.symm.trans again)
  obtain rfl := Except.ok.inj (found'.symm.trans again')
  cases pair with
  | referent | pointee =>
    cases laid
    cases laid'
    exact ⟨by simp [LayoutDetails.kind], rfl, rfl, rfl⟩
  | sliced =>
    cases laid with | slice _ _ _ buffer _ =>
    cases laid' with | slice _ _ _ buffer' _ =>
    obtain ⟨rfl, rfl, _⟩ := bufferLayout_eq supported buffer
    obtain ⟨rfl, rfl, _⟩ := bufferLayout_eq supported buffer'
    exact ⟨by simp [LayoutDetails.kind], rfl, rfl, rfl⟩
  | pushed =>
    cases laid with | vec _ _ buffer _ =>
    cases laid' with | vec _ _ buffer' _ =>
    obtain ⟨rfl, rfl, _⟩ := bufferLayout_eq supported buffer
    obtain ⟨rfl, rfl, _⟩ := bufferLayout_eq supported buffer'
    exact ⟨by simp [LayoutDetails.kind], rfl, rfl, rfl⟩

theorem layout_of_boxes {type' element element' : Hash} {layout' : ComputedLayout}
    (found : typeSpecInRoot P objects root type = .ok (.box element))
    (found' : typeSpecInRoot P objects root type' = .ok (.box element'))
    (laid : typeLayout P objects root stack targetTriple type = .ok layout)
    (laid' : typeLayout P objects root stack targetTriple type' = .ok layout') :
    layout.details.kind = "box" ∧ layout'.details.kind = "box" ∧ layout.size = layout'.size := by
  obtain ⟨target, _, _, _, supported, again, laid⟩ := exists_laidOut laid
  obtain ⟨target', _, _, _, supported', again', laid'⟩ := exists_laidOut laid'
  obtain rfl := Except.ok.inj (supported.symm.trans supported')
  obtain rfl := Except.ok.inj (found.symm.trans again)
  obtain rfl := Except.ok.inj (found'.symm.trans again')
  cases laid
  cases laid'
  exact ⟨rfl, rfl, rfl⟩

theorem layout_of_fixedArray {element : Hash} {len : Nat}
    (found : typeSpecInRoot P objects root type = .ok (.fixedArray element len))
    (laid : typeLayout P objects root stack targetTriple type = .ok layout) :
    ∃ elements, layout.details = .fixedArray len elements := by
  obtain ⟨target, _, _, _, _, again, laid⟩ := exists_laidOut laid
  obtain rfl := Except.ok.inj (found.symm.trans again)
  cases laid
  exact ⟨_, rfl⟩

/-- The header of what begins with a pointer is the same for all types of a kind. -/
theorem headerOffsets_eq (laid : typeLayout P objects root stack targetTriple type = .ok layout) :
    layout.details.headerOffsets =
      if layout.details.kind = "slice" then [8]
      else if layout.details.kind ∈ ["vec", "string"] then [8, 16] else [] := by
  obtain ⟨target, _, _, _, supported, _, laid⟩ := exists_laidOut laid
  cases laid with
  | builtin run =>
    obtain ⟨scalar, _⟩ := layoutBuiltin_cases run
    rw [scalar]
    decide
  | reference | rawPointer | box | fixedArray => rfl
  | slice _ _ _ buffer _ =>
    obtain ⟨rfl, _⟩ := bufferLayout_eq supported buffer
    rfl
  | vec _ _ buffer _ | string _ buffer _ =>
    obtain ⟨rfl, _⟩ := bufferLayout_eq supported buffer
    rfl
  | record _ run =>
    obtain ⟨_, _, _, _, rfl⟩ := layoutRecord_cases run
    rfl
  | enum _ run =>
    obtain ⟨_, _, _, _, _, _, _, _, rfl⟩ := layoutEnum_cases run
    rfl

/-- Layouts of one kind that have no members have the same places. -/
theorem samePlaces_of_kind_eq {type' : Hash} {layout' : ComputedLayout}
    (laid : typeLayout P objects root stack targetTriple type = .ok layout)
    (laid' : typeLayout P objects root stack targetTriple type' = .ok layout')
    (same : layout.details.kind = layout'.details.kind)
    (scalar : layout.details.kind ∉ ["record", "enum", "fixed_array"]) :
    layout.details.SamePlaces layout'.details := by
  have header : layout.details.headerOffsets = layout'.details.headerOffsets := by
    rw [headerOffsets_eq laid, headerOffsets_eq laid', same]
  cases details : layout.details with
  | record | enum | fixedArray =>
    rw [details] at scalar
    exact absurd (by simp [LayoutDetails.kind]) scalar
  | _ =>
    rw [details] at same header
    exact ⟨same, header⟩

end Layouts

/-! ### The check -/

section Check

variable {src dst : Hash} {spec spec' : TypeSpec}

theorem everyMember_eq_ok_true {check : TypeFieldSpec → TypeFieldSpec → Except Error Bool}
    {actual expected : List TypeFieldSpec} (distinct : (actual.map (·.name)).Nodup) :
    everyMember check actual expected = .ok true ↔
      ∀ e ∈ expected, ∃ a ∈ actual, a.name = e.name ∧ check a e = .ok true := by
  rw [everyMember, Except.allM_eq_ok_true]
  refine forall₂_congr fun e _ => ?_
  simp only [← and_assoc, ← Owned.find?_eq_some_iff TypeFieldSpec.name distinct]
  cases actual.find? (·.name == e.name) <;> simp

theorem related_of_everyMember {check : Hash → Hash → Except Error Bool}
    {actual expected : List TypeFieldSpec} (distinct : (actual.map (·.name)).Nodup)
    (run : everyMember (fun a e => check a.typeHash e.typeHash) actual expected = .ok true) :
    ∀ a ∈ actual, ∀ e ∈ expected, a.name = e.name → check a.typeHash e.typeHash = .ok true := by
  intro a listed e listed' same
  obtain ⟨a', other, named, passes⟩ := (everyMember_eq_ok_true distinct).mp run e listed'
  have : a' = a := List.inj_on_of_nodup_map distinct other listed (named.trans same.symm)
  exact this ▸ passes

/-- A field lies where the layout of the record has it. -/
theorem layoutFieldOffsetBytes_eq_ok {layout : ComputedLayout} {typeSymbol typeDef : Option Hash}
    {fields : List FieldLayout} {name : String} {offset : Nat}
    (laid : typeLayout P objects root stack targetTriple src = .ok layout)
    (details : layout.details = .record typeSymbol typeDef fields)
    (distinct : (fields.map (·.name)).Nodup) :
    layoutFieldOffsetBytes P objects root stack targetTriple src name = .ok offset ↔
      ∃ f ∈ fields, f.name = name ∧ f.offset = offset := by
  simp only [← and_assoc, ← Owned.find?_eq_some_iff FieldLayout.name distinct]
  rw [layoutFieldOffsetBytes, laid]
  dsimp only [bind, Except.bind]
  rw [details]
  dsimp only
  cases fields.find? (·.name == name) <;> simp [pure, Except.pure]

theorem enumVariantLayout_eq_ok {layout : ComputedLayout} {typeSymbol typeDef : Option Hash}
    {tagSize tagAlign payloadOffset payloadSize : Nat} {variants : List VariantLayout}
    {name : String} {variant : VariantLayout}
    (details : layout.details =
      .enum typeSymbol typeDef tagSize tagAlign payloadOffset payloadSize variants)
    (distinct : (variants.map (·.name)).Nodup) :
    enumVariantLayout layout name = .ok variant ↔ variant ∈ variants ∧ variant.name = name := by
  rw [← Owned.find?_eq_some_iff VariantLayout.name distinct, enumVariantLayout, details]
  dsimp only
  cases variants.find? (·.name == name) <;> simp [JsonValue.require]

theorem sizesEqual_eq_ok_true {layout layout' : ComputedLayout}
    (laid : typeLayout P objects root stack targetTriple src = .ok layout)
    (laid' : typeLayout P objects root stack targetTriple dst = .ok layout') :
    sizesEqual P objects root stack targetTriple src dst = .ok true ↔
      layout.size = layout'.size := by
  rw [sizesEqual, layoutSizeBytes, layoutSizeBytes, laid, laid']
  change Except.ok (decide (layout.size = layout'.size)) = Except.ok true ↔ _
  rw [Except.ok.injEq, decide_eq_true_iff]

/-- Members of one name have the same place, and are related: said of the members of the types,
and of their places. -/
theorem members_iff {ι κ : Type} (spec : ι → TypeFieldSpec) (place : ι → κ)
    (related : Hash → Hash → Prop) {entries entries' : List ι}
    (distinct : (entries.map fun x => (spec x).name).Nodup)
    (distinct' : (entries'.map fun x => (spec x).name).Nodup) :
    ((entries.map spec).length = (entries'.map spec).length ∧
      ∀ e ∈ entries'.map spec, ∃ a ∈ entries.map spec, a.name = e.name ∧
        (∃ x ∈ entries, (spec x).name = e.name ∧ ∃ x' ∈ entries', (spec x').name = e.name ∧
          place x = place x') ∧ related a.typeHash e.typeHash) ↔
    (entries.length = entries'.length ∧
      ∀ x' ∈ entries', ∃ x ∈ entries, (spec x).name = (spec x').name ∧ place x = place x') ∧
      ∀ a ∈ entries.map spec, ∀ e ∈ entries'.map spec, a.name = e.name →
        related a.typeHash e.typeHash := by
  rw [List.length_map, List.length_map]
  constructor
  · rintro ⟨lengths, each⟩
    refine ⟨⟨lengths, fun x' listed' => ?_⟩, fun a listed e listed' same => ?_⟩
    · obtain ⟨_, _, _, ⟨x, listed, named, y', other, named', place⟩, _⟩ :=
        each _ (List.mem_map_of_mem listed')
      obtain rfl := List.inj_on_of_nodup_map distinct' other listed' named'
      exact ⟨x, listed, named, place⟩
    · obtain ⟨x, here, rfl⟩ := List.mem_map.mp listed
      obtain ⟨_, other, named, _, holds⟩ := each e listed'
      obtain ⟨y, there, rfl⟩ := List.mem_map.mp other
      obtain rfl := List.inj_on_of_nodup_map distinct there here (named.trans same.symm)
      exact holds
  · rintro ⟨⟨lengths, places⟩, holds⟩
    refine ⟨lengths, fun e listed' => ?_⟩
    obtain ⟨x', here, rfl⟩ := List.mem_map.mp listed'
    obtain ⟨x, there, named, place⟩ := places x' here
    exact ⟨spec x, List.mem_map_of_mem there, named, ⟨x, there, named, x', here, rfl, place⟩,
      holds _ (List.mem_map_of_mem there) _ listed' named⟩

/-- What the check asks of records: that the layouts have the fields at the same places, and that
the fields pass. -/
theorem layoutsBlindCopyCompatible_record {fields fields' : List TypeFieldSpec}
    {layout layout' : ComputedLayout} {depth : Nat} (differ : src ≠ dst)
    (found : typeSpecInRoot P objects root src = .ok (.record fields))
    (found' : typeSpecInRoot P objects root dst = .ok (.record fields'))
    (laid : typeLayout P objects root stack targetTriple src = .ok layout)
    (laid' : typeLayout P objects root stack targetTriple dst = .ok layout') :
    layoutsBlindCopyCompatible P objects root stack targetTriple (depth + 1) src dst = .ok true ↔
      layout.size = layout'.size ∧ layout.details.SamePlaces layout'.details ∧
      ∀ a b, MemberPair (.record fields) (.record fields') a b →
        layoutsBlindCopyCompatible P objects root stack targetTriple depth a b = .ok true := by
  have distinct := nodup_members found
  have distinct' := nodup_members found'
  obtain ⟨_, _, places, details, rfl⟩ := layout_of_record found laid
  obtain ⟨_, _, places', details', rfl⟩ := layout_of_record found' laid'
  rw [TypeSpec.members, List.map_map] at distinct distinct'
  have members := members_iff FieldLayout.spec FieldLayout.offset
    (fun a b => layoutsBlindCopyCompatible P objects root stack targetTriple depth a b = .ok true)
    distinct distinct'
  rw [forall_memberPair_record, details, details', LayoutDetails.SamePlaces]
  refine Iff.trans ?_ (and_congr_right fun _ => members)
  rw [layoutsBlindCopyCompatible, if_neg differ, found, found']
  change (if _ then pure false else everyMember _ _ _ >>= fun b => if b then _ else pure false) =
    _ ↔ _
  rw [Except.ite_eq_ok_true, Except.bind_ite_eq_ok_true, sizesEqual_eq_ok_true laid laid',
    everyMember_eq_ok_true (by rwa [List.map_map]), not_ne_iff, ← and_assoc, and_comm]
  refine and_congr_right fun _ => and_congr_right fun _ => forall₂_congr fun e _ =>
    exists_congr fun a => and_congr_right fun _ => and_congr_right fun _ => ?_
  constructor
  · intro run
    obtain ⟨_, offset, run⟩ := Except.bind_eq_ok.mp run
    obtain ⟨_, offset', run⟩ := Except.bind_eq_ok.mp run
    obtain ⟨same, passes⟩ := Except.ite_eq_ok_true.mp run
    obtain ⟨x, listed, named, rfl⟩ :=
      (layoutFieldOffsetBytes_eq_ok laid details distinct).mp offset
    obtain ⟨x', listed', named', rfl⟩ :=
      (layoutFieldOffsetBytes_eq_ok laid' details' distinct').mp offset'
    exact ⟨⟨x, listed, named, x', listed', named', not_ne_iff.mp same⟩, passes⟩
  · rintro ⟨⟨x, listed, named, x', listed', named', same⟩, passes⟩
    refine Except.bind_eq_ok.mpr ⟨x.offset, ?_, Except.bind_eq_ok.mpr ⟨x'.offset, ?_,
      Except.ite_eq_ok_true.mpr ⟨not_ne_iff.mpr same, passes⟩⟩⟩
    · exact (layoutFieldOffsetBytes_eq_ok laid details distinct).mpr ⟨x, listed, named, rfl⟩
    · exact (layoutFieldOffsetBytes_eq_ok laid' details' distinct').mpr ⟨x', listed', named', rfl⟩

/-- What the check asks of enums: that the layouts have the tags and the payloads at the same
places, and that the payloads pass. -/
theorem layoutsBlindCopyCompatible_enum {variants variants' : List TypeFieldSpec}
    {layout layout' : ComputedLayout} {depth : Nat} (differ : src ≠ dst)
    (found : typeSpecInRoot P objects root src = .ok (.enum variants))
    (found' : typeSpecInRoot P objects root dst = .ok (.enum variants'))
    (laid : typeLayout P objects root stack targetTriple src = .ok layout)
    (laid' : typeLayout P objects root stack targetTriple dst = .ok layout') :
    layoutsBlindCopyCompatible P objects root stack targetTriple (depth + 1) src dst = .ok true ↔
      layout.size = layout'.size ∧ layout.details.SamePlaces layout'.details ∧
      ∀ a b, MemberPair (.enum variants) (.enum variants') a b →
        layoutsBlindCopyCompatible P objects root stack targetTriple depth a b = .ok true := by
  have distinct := nodup_members found
  have distinct' := nodup_members found'
  obtain ⟨_, _, _, _, _, places, details, rfl⟩ := layout_of_enum found laid
  obtain ⟨_, _, _, _, _, places', details', rfl⟩ := layout_of_enum found' laid'
  rw [TypeSpec.members, List.map_map] at distinct distinct'
  -- names are distinct, so a variant and its place are found by name alike
  have members := members_iff VariantLayout.spec (fun v => (v.tagValue, v.payloadOffset))
    (fun a b => layoutsBlindCopyCompatible P objects root stack targetTriple depth a b = .ok true)
    distinct distinct'
  simp only [Prod.mk.injEq] at members
  rw [forall_memberPair_enum, details, details', LayoutDetails.SamePlaces, and_iff_right rfl]
  refine Iff.trans ?_ (and_congr_right fun _ => members)
  rw [layoutsBlindCopyCompatible, if_neg differ, found, found']
  -- both layouts are computed and compared by size before any variant is
  change (if _ then pure false else typeLayout P objects root stack targetTriple src >>= fun _ =>
    typeLayout P objects root stack targetTriple dst >>= fun _ =>
      everyMember _ _ _ >>= fun b => if b then _ else pure false) = _ ↔ _
  rw [Except.ite_eq_ok_true, laid, laid']
  change _ ∧ (everyMember _ _ _ >>= fun b => if b then _ else pure false) = _ ↔ _
  rw [Except.bind_ite_eq_ok_true, sizesEqual_eq_ok_true laid laid',
    everyMember_eq_ok_true (by rwa [List.map_map]), not_ne_iff, ← and_assoc, and_comm]
  refine and_congr_right fun _ => and_congr_right fun _ => forall₂_congr fun e _ =>
    exists_congr fun a => and_congr_right fun _ => and_congr_right fun _ => ?_
  constructor
  · intro run
    obtain ⟨v, info, run⟩ := Except.bind_eq_ok.mp run
    obtain ⟨v', info', run⟩ := Except.bind_eq_ok.mp run
    obtain ⟨same, passes⟩ := Except.ite_eq_ok_true.mp run
    obtain ⟨listed, named⟩ := (enumVariantLayout_eq_ok details distinct).mp info
    obtain ⟨listed', named'⟩ := (enumVariantLayout_eq_ok details' distinct').mp info'
    rw [not_or, not_ne_iff, not_ne_iff] at same
    exact ⟨⟨v, listed, named, v', listed', named', same⟩, passes⟩
  · rintro ⟨⟨v, listed, named, v', listed', named', same⟩, passes⟩
    refine Except.bind_eq_ok.mpr ⟨v, ?_, Except.bind_eq_ok.mpr ⟨v', ?_,
      Except.ite_eq_ok_true.mpr ⟨?_, passes⟩⟩⟩
    · exact (enumVariantLayout_eq_ok details distinct).mpr ⟨listed, named⟩
    · exact (enumVariantLayout_eq_ok details' distinct').mpr ⟨listed', named'⟩
    · rwa [not_or, not_ne_iff, not_ne_iff]

/-- Pointers pass the check whatever lies behind them. -/
theorem layoutsBlindCopyCompatible_pointers {layout layout' : ComputedLayout} {a b : Hash}
    {depth : Nat} (pair : PointeePair spec spec' a b)
    (found : typeSpecInRoot P objects root src = .ok spec)
    (found' : typeSpecInRoot P objects root dst = .ok spec')
    (laid : typeLayout P objects root stack targetTriple src = .ok layout)
    (laid' : typeLayout P objects root stack targetTriple dst = .ok layout') :
    layoutsBlindCopyCompatible P objects root stack targetTriple (depth + 1) src dst =
      .ok true := by
  obtain ⟨_, kind, size, align⟩ := layout_of_pointeePair pair found found' laid laid'
  have passes : scalarLayoutsEqual P objects root stack targetTriple src dst = .ok true := by
    rw [scalarLayoutsEqual, laid, laid']
    exact congrArg Except.ok (decide_eq_true ⟨kind, size, align⟩)
  by_cases same : src = dst
  · rw [layoutsBlindCopyCompatible, if_pos same]
  rw [layoutsBlindCopyCompatible, if_neg same, found, found']
  cases pair <;> exact passes

/-- What the check asks of two types that are built in the same way. -/
theorem layoutsBlindCopyCompatible_iff {layout layout' : ComputedLayout} {depth : Nat}
    (differ : src ≠ dst) (shape : SameShape spec spec')
    (found : typeSpecInRoot P objects root src = .ok spec)
    (found' : typeSpecInRoot P objects root dst = .ok spec')
    (laid : typeLayout P objects root stack targetTriple src = .ok layout)
    (laid' : typeLayout P objects root stack targetTriple dst = .ok layout') :
    layoutsBlindCopyCompatible P objects root stack targetTriple (depth + 1) src dst = .ok true ↔
      layout.size = layout'.size ∧ layout.details.SamePlaces layout'.details ∧
      ∀ a b, MemberPair spec spec' a b →
        layoutsBlindCopyCompatible P objects root stack targetTriple depth a b = .ok true := by
  cases shape with
  | records => exact layoutsBlindCopyCompatible_record differ found found' laid laid'
  | enums => exact layoutsBlindCopyCompatible_enum differ found found' laid laid'
  | boxes element element' =>
    obtain ⟨kind, kind', size⟩ := layout_of_boxes found found' laid laid'
    have places := samePlaces_of_kind_eq laid laid' (kind.trans kind'.symm) (by rw [kind]; decide)
    rw [and_iff_right size, and_iff_right places, layoutsBlindCopyCompatible, if_neg differ, found,
      found']
    exact ⟨fun passes a b pair => by cases pair; exact passes, fun passes => passes _ _ (.boxed ..)⟩
  | arrays element element' len len' =>
    obtain ⟨_, details⟩ := layout_of_fixedArray found laid
    obtain ⟨_, details'⟩ := layout_of_fixedArray found' laid'
    rw [details, details', layoutsBlindCopyCompatible, if_neg differ, found, found']
    change (if _ then pure false else layoutsBlindCopyCompatible P objects root stack targetTriple
      depth element element' >>= fun b => if b then _ else pure false) = _ ↔ _ ∧ len = len' ∧ _
    rw [Except.ite_eq_ok_true, Except.bind_ite_eq_ok_true, sizesEqual_eq_ok_true laid laid',
      not_ne_iff]
    constructor
    · rintro ⟨same, passes, size⟩
      exact ⟨size, same, fun a b pair => by cases pair; exact passes⟩
    · rintro ⟨size, same, passes⟩
      exact ⟨same, passes _ _ (.element ..), size⟩
  | pointers pair =>
    obtain ⟨scalar, kind, size, _⟩ := layout_of_pointeePair pair found found' laid laid'
    refine iff_of_true (layoutsBlindCopyCompatible_pointers pair found found' laid laid')
      ⟨size, samePlaces_of_kind_eq laid laid' kind scalar, fun a b member => ?_⟩
    cases pair <;> cases member

end Check

/-! ### Assignability -/

section Assignable

variable {src dst a b : Hash} {spec spec' : TypeSpec}

/-- Types that are written alike are the same in every root. -/
theorem eq_of_typeSpec_eq (same : typeSpec P objects src = typeSpec P objects dst)
    (found : typeSpecInRoot P objects root src = .ok spec)
    (found' : typeSpecInRoot P objects root dst = .ok spec') : spec = spec' := by
  rw [typeSpecInRoot, same] at found
  exact Except.ok.inj (found.symm.trans found')

/-- What is found in the root for a named type is a record or an enum. -/
theorem sameShape_of_named {typeSymbol : Hash} {regionArgs typeArgs : List Hash}
    (named : typeSpec P objects src = .ok (.named typeSymbol regionArgs typeArgs))
    (found : typeSpecInRoot P objects root src = .ok spec) : SameShape spec spec := by
  obtain ⟨spec', known, found⟩ := Except.bind_eq_ok.mp found
  obtain rfl := Except.ok.inj (known.symm.trans named)
  dsimp only at found
  cases listed : rootType root typeSymbol with
  | none =>
    rw [listed] at found
    cases found
  | some entry =>
    rw [listed] at found
    obtain ⟨definition, _, found⟩ := Except.bind_eq_ok.mp found
    split_ifs at found
    obtain ⟨members, _, found⟩ := Except.bind_eq_ok.mp found
    cases definition with
    | record body =>
      cases Except.pure_eq_ok.mp found
      exact .records _ _
    | enum body =>
      cases Except.pure_eq_ok.mp found
      exact .enums _ _

/-- A type leads to the same as itself. -/
theorem part_eq (found : typeSpecInRoot P objects root src = .ok spec)
    (part : MemberPair spec spec a b ∨ PointeePair spec spec a b) : a = b := by
  have distinct := nodup_members found
  rcases part with member | pointee
  · cases member with
    | field listed listed' same | payload listed listed' same =>
      exact congrArg _ (List.inj_on_of_nodup_map distinct listed listed' same)
    | element | boxed => rfl
  · cases pointee <;> rfl

theorem PartPair.eq (part : PartPair P objects root (src, src) (a, b)) : a = b := by
  obtain ⟨spec, spec', found, found', part⟩ := part
  obtain rfl := Except.ok.inj (found.symm.trans found')
  exact part_eq found part

theorem namedActualTypeAssignable_eq_true {actual expected : TypeSpec}
    (assignable : namedActualTypeAssignable actual expected = some true) :
    ∃ typeSymbol regionArgs typeArgs, actual = .named typeSymbol regionArgs typeArgs ∧
      expected = .named typeSymbol regionArgs typeArgs := by
  rw [namedActualTypeAssignable.eq_def] at assignable
  split at assignable
  · obtain ⟨rfl, rfl, rfl⟩ := of_decide_eq_true (Option.some.inj assignable)
    exact ⟨_, _, _, rfl, rfl⟩
  · cases assignable
  · cases assignable

/-- What a type that can be used as another one has in common with it. -/
theorem typeAssignableInRoot_cases {depth : Nat} (differ : src ≠ dst)
    (run : typeAssignableInRoot P objects root (depth + 1) src dst = .ok true) :
    (∃ typeSymbol regionArgs typeArgs,
      typeSpec P objects src = .ok (.named typeSymbol regionArgs typeArgs) ∧
      typeSpec P objects dst = .ok (.named typeSymbol regionArgs typeArgs)) ∨
    ∃ spec spec', typeSpecInRoot P objects root src = .ok spec ∧
      typeSpecInRoot P objects root dst = .ok spec' ∧ SameShape spec spec' ∧
      ∀ a b, MemberPair spec spec' a b ∨ PointeePair spec spec' a b →
        typeAssignableInRoot P objects root depth a b = .ok true := by
  rw [typeAssignableInRoot, if_neg differ] at run
  obtain ⟨actual, isActual, run⟩ := Except.bind_eq_ok.mp run
  obtain ⟨expected, isExpected, run⟩ := Except.bind_eq_ok.mp run
  -- an actual type that is declared is compared by name; all others by what they stand for
  cases named : namedActualTypeAssignable actual expected with
  | some assignable =>
    rw [named] at run
    obtain rfl := Except.pure_eq_ok.mp run
    obtain ⟨typeSymbol, regionArgs, typeArgs, rfl, rfl⟩ := namedActualTypeAssignable_eq_true named
    exact Or.inl ⟨_, _, _, isActual, isExpected⟩
  | none =>
    rw [named] at run
    obtain ⟨spec, found, run⟩ := Except.bind_eq_ok.mp run
    obtain ⟨spec', found', run⟩ := Except.bind_eq_ok.mp run
    refine Or.inr ⟨spec, spec', found, found', ?_⟩
    -- shape by shape, in the order of the source; two different shapes never agree
    have distinct := nodup_members found
    split at run
    · obtain ⟨_, run⟩ := Except.ite_eq_ok_true.mp run
      exact ⟨.pointers (.referent ..), fun a b part => by
        cases part.resolve_left (by rintro ⟨⟩)
        exact run⟩
    · obtain ⟨_, run⟩ := Except.ite_eq_ok_true.mp run
      exact ⟨.pointers (.sliced ..), fun a b part => by
        cases part.resolve_left (by rintro ⟨⟩)
        exact run⟩
    · exact ⟨.boxes .., fun a b part => by
        cases part.resolve_right (by rintro ⟨⟩)
        exact run⟩
    · exact ⟨.pointers (.pushed ..), fun a b part => by
        cases part.resolve_left (by rintro ⟨⟩)
        exact run⟩
    · obtain ⟨_, run⟩ := Except.ite_eq_ok_true.mp run
      exact ⟨.arrays .., fun a b part => by
        cases part.resolve_right (by rintro ⟨⟩)
        exact run⟩
    · obtain ⟨_, run⟩ := Except.ite_eq_ok_true.mp run
      have each : ∀ a b, _ → typeAssignableInRoot P objects root depth a b = .ok true :=
        forall_memberPair_record.mpr (related_of_everyMember distinct run)
      exact ⟨.records .., fun a b part => each a b (part.resolve_right (by rintro ⟨⟩))⟩
    · obtain ⟨_, run⟩ := Except.ite_eq_ok_true.mp run
      have each : ∀ a b, _ → typeAssignableInRoot P objects root depth a b = .ok true :=
        forall_memberPair_enum.mpr (related_of_everyMember distinct run)
      exact ⟨.enums .., fun a b part => each a b (part.resolve_right (by rintro ⟨⟩))⟩
    · cases run

/-- What types that can be used as each other lead to can be used as each other as well. -/
theorem exists_assignable_of_part {depth : Nat} (part : PartPair P objects root (src, dst) (a, b))
    (run : typeAssignableInRoot P objects root depth src dst = .ok true) :
    ∃ depth, typeAssignableInRoot P objects root depth a b = .ok true := by
  have same (a : Hash) : typeAssignableInRoot P objects root 1 a a = .ok true := by
    rw [typeAssignableInRoot, if_pos rfl]
  cases depth with
  | zero => cases run
  | succ depth =>
    by_cases differ : src = dst
    · subst differ
      exact ⟨1, part.eq ▸ same a⟩
    obtain ⟨spec, spec', found, found', part⟩ := part
    dsimp only at found found'
    rcases typeAssignableInRoot_cases differ run with ⟨_, _, _, named, named'⟩ |
      ⟨_, _, again, again', _, parts⟩
    · obtain rfl := eq_of_typeSpec_eq (named.trans named'.symm) found found'
      obtain rfl : a = b := part_eq found part
      exact ⟨1, same a⟩
    · obtain rfl := Except.ok.inj (found.symm.trans again)
      obtain rfl := Except.ok.inj (found'.symm.trans again')
      exact ⟨depth, parts a b part⟩

theorem exists_assignable_of_reaches {depth : Nat} (reaches : Reaches P objects root src dst a b)
    (run : typeAssignableInRoot P objects root depth src dst = .ok true) :
    ∃ depth, typeAssignableInRoot P objects root depth a b = .ok true := by
  suffices h : ∀ p, Relation.ReflTransGen (PartPair P objects root) (src, dst) p →
      ∃ depth, typeAssignableInRoot P objects root depth p.1 p.2 = .ok true from h _ reaches
  intro p reaches
  induction reaches with
  | refl => exact ⟨depth, run⟩
  | tail _ part ih =>
    obtain ⟨depth, run⟩ := ih
    exact exists_assignable_of_part part run

/-- Types that can be used as each other, and are not the same, are built in the same way. -/
theorem sameShape_of_assignable {depth : Nat} (differ : src ≠ dst)
    (run : typeAssignableInRoot P objects root depth src dst = .ok true)
    (found : typeSpecInRoot P objects root src = .ok spec)
    (found' : typeSpecInRoot P objects root dst = .ok spec') : SameShape spec spec' := by
  cases depth with
  | zero => cases run
  | succ depth =>
    rcases typeAssignableInRoot_cases differ run with ⟨_, _, _, named, named'⟩ |
      ⟨_, _, again, again', shape, _⟩
    · obtain rfl := eq_of_typeSpec_eq (named.trans named'.symm) found found'
      exact sameShape_of_named named found
    · obtain rfl := Except.ok.inj (found.symm.trans again)
      obtain rfl := Except.ok.inj (found'.symm.trans again')
      exact shape

end Assignable

/-! ### The check is exact -/

section Exact

variable {src dst a b : Hash}

theorem layoutsBlindCopyCompatible_self (depth : Nat) (type : Hash) :
    layoutsBlindCopyCompatible P objects root stack targetTriple (depth + 1) type type =
      .ok true := by
  rw [layoutsBlindCopyCompatible, if_pos rfl]

theorem SameLayout.of_reaches (same : SameLayout P objects root stack targetTriple src dst)
    (reaches : Reaches P objects root src dst a b) :
    SameLayout P objects root stack targetTriple a b :=
  fun a' b' further => same a' b' (reaches.trans further)

/-- What has the same layout passes the check, if it can be used as each other at all. -/
theorem SameLayout.layoutsBlindCopyCompatible {depth : Nat}
    (same : SameLayout P objects root stack targetTriple src dst)
    (run : typeAssignableInRoot P objects root depth src dst = .ok true) :
    layoutsBlindCopyCompatible P objects root stack targetTriple (depth + 1) src dst =
      .ok true := by
  induction depth generalizing src dst with
  | zero => cases run
  | succ depth ih =>
    by_cases differ : src = dst
    · exact differ ▸ layoutsBlindCopyCompatible_self ..
    obtain ⟨layout, layout', laid, laid', size, places⟩ := (same _ _ .refl).resolve_left differ
    obtain ⟨_, _, _, spec, _, found, _⟩ := exists_laidOut laid
    obtain ⟨_, _, _, spec', _, found', _⟩ := exists_laidOut laid'
    have shape := sameShape_of_assignable differ run found found'
    refine (layoutsBlindCopyCompatible_iff differ shape found found' laid laid').mpr
      ⟨size, places, fun a b member => ?_⟩
    have part : PartPair P objects root (src, dst) (a, b) :=
      ⟨spec, spec', found, found', Or.inl member⟩
    -- A member passes because it is used as the other one, or because it is the other one.
    rcases typeAssignableInRoot_cases differ run with ⟨_, _, _, named, named'⟩ |
      ⟨_, _, again, again', _, parts⟩
    · obtain rfl := eq_of_typeSpec_eq (named.trans named'.symm) found found'
      obtain rfl : a = b := part_eq found (Or.inl member)
      exact layoutsBlindCopyCompatible_self ..
    · obtain rfl := Except.ok.inj (found.symm.trans again)
      obtain rfl := Except.ok.inj (found'.symm.trans again')
      exact ih (same.of_reaches (.single part)) (parts a b (Or.inl member))

/-- What passes the check at the outside and behind every pointer passes it everywhere. -/
theorem blindCopyCompatible_of_reaches {depth : Nat}
    (run : typeAssignableInRoot P objects root depth src dst = .ok true)
    (laid : HaveLayouts P objects root stack targetTriple src dst)
    (outside : BlindCopyCompatible P objects root stack targetTriple src dst)
    (pointees : PointeesCompatible P objects root stack targetTriple src dst)
    (reaches : Reaches P objects root src dst a b) :
    BlindCopyCompatible P objects root stack targetTriple a b := by
  suffices h : ∀ p, Relation.ReflTransGen (PartPair P objects root) (src, dst) p →
      BlindCopyCompatible P objects root stack targetTriple p.1 p.2 from h _ reaches
  intro p reaches
  induction reaches with
  | refl => exact outside
  | @tail p q before part ih =>
    obtain ⟨a, b⟩ := p
    obtain ⟨a', b'⟩ := q
    by_cases differ : a = b
    · subst differ
      obtain rfl := part.eq
      exact ⟨1, layoutsBlindCopyCompatible_self ..⟩
    obtain ⟨spec, spec', found, found', member | pointee⟩ := part
    · obtain ⟨depth', passes⟩ := ih
      obtain ⟨⟨layout, laid⟩, layout', laid'⟩ := laid a b before differ
      obtain ⟨_, assignable⟩ := exists_assignable_of_reaches before run
      have shape := sameShape_of_assignable differ assignable found found'
      cases depth' with
      | zero => cases passes
      | succ depth' =>
        obtain ⟨_, _, members⟩ :=
          (layoutsBlindCopyCompatible_iff differ shape found found' laid laid').mp passes
        exact ⟨depth', members a' b' member⟩
    · exact pointees a b spec spec' a' b' before found found' pointee

/-- Types that can be used as each other lay out the bytes behind a value alike, however deep,
exactly when all of it has layouts and passes the check at the outside and behind every pointer. -/
theorem sameLayout_iff {depth : Nat}
    (run : typeAssignableInRoot P objects root depth src dst = .ok true) :
    SameLayout P objects root stack targetTriple src dst ↔
      HaveLayouts P objects root stack targetTriple src dst ∧
      BlindCopyCompatible P objects root stack targetTriple src dst ∧
      PointeesCompatible P objects root stack targetTriple src dst := by
  constructor
  · intro same
    refine ⟨fun a b reaches differ => ?_, ⟨_, same.layoutsBlindCopyCompatible run⟩, ?_⟩
    · obtain ⟨layout, layout', laid, laid', _⟩ := (same a b reaches).resolve_left differ
      exact ⟨⟨layout, laid⟩, layout', laid'⟩
    · intro a b spec spec' a' b' reaches found found' pointee
      have reaches' : Reaches P objects root src dst a' b' :=
        reaches.tail ⟨spec, spec', found, found', Or.inr pointee⟩
      obtain ⟨_, assignable⟩ := exists_assignable_of_reaches reaches' run
      exact ⟨_, (same.of_reaches reaches').layoutsBlindCopyCompatible assignable⟩
  · rintro ⟨laid, outside, pointees⟩ a b reaches
    by_cases differ : a = b
    · exact Or.inl differ
    obtain ⟨⟨layout, here⟩, layout', here'⟩ := laid a b reaches differ
    obtain ⟨_, _, _, spec, _, found, _⟩ := exists_laidOut here
    obtain ⟨_, _, _, spec', _, found', _⟩ := exists_laidOut here'
    obtain ⟨_, assignable⟩ := exists_assignable_of_reaches reaches run
    have shape := sameShape_of_assignable differ assignable found found'
    obtain ⟨depth', passes⟩ := blindCopyCompatible_of_reaches run laid outside pointees reaches
    cases depth' with
    | zero => cases passes
    | succ depth' =>
      obtain ⟨size, places, _⟩ :=
        (layoutsBlindCopyCompatible_iff differ shape found found' here here').mp passes
      exact Or.inr ⟨layout, layout', here, here', size, places⟩

end Exact

end CodeDb

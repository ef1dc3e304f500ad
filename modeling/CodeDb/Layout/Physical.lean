import CodeDb.Layout.Class
import CodeDb.Lib.Alignment

/-!
# Layouts are physically sound

The parts of what is laid out lie in it one behind the other, each where its alignment asks
for it, and every size is what it is over unbounded numbers: where a number would leave the
64 bits there is no layout.

## Main definitions

* `LayoutDetails.OfSpec` — the details of a layout are those of a type
* `ComputedLayout.Sound` — a layout is that of its type, and is physically sound

## Main results

* `alignUp_eq_ok` — rounding up is exact, or fails
* `layoutType_sound` — every layout on a target is physically sound
-/

namespace CodeDb

open Alignment StateT

/-! ### Arithmetic -/

section Arithmetic

variable {a b r : Nat} {overflow : Error}

theorem checkedAdd_eq_ok : checkedAdd overflow a b = .ok r ↔ a + b < 2 ^ 64 ∧ a + b = r := by
  rw [checkedAdd]
  by_cases fits : a + b < 2 ^ 64
  · rw [if_pos fits, Except.ok.injEq, and_iff_right fits]
  · rw [if_neg fits]
    exact iff_of_false nofun fun ⟨fits', _⟩ => fits fits'

theorem checkedMul_eq_ok : checkedMul overflow a b = .ok r ↔ a * b < 2 ^ 64 ∧ a * b = r := by
  rw [checkedMul]
  by_cases fits : a * b < 2 ^ 64
  · rw [if_pos fits, Except.ok.injEq, and_iff_right fits]
  · rw [if_neg fits]
    exact iff_of_false nofun fun ⟨fits', _⟩ => fits fits'

/-- Rounding up is exact: what is not checked does not wrap where what is checked did not. -/
theorem alignUp_eq_ok : alignUp a b = .ok r ↔ 0 < b ∧ a + (b - 1) < 2 ^ 64 ∧ roundUp a b = r := by
  have exact (fits : a + (b - 1) < 2 ^ 64) : wrapU64 ((a + (b - 1)) / b * b) = roundUp a b :=
    Nat.mod_eq_of_lt (lt_of_le_of_lt (roundUp_le_add a b) fits)
  rw [alignUp]
  split_ifs with zero
  · simp [zero]
  · rw [and_iff_right (Nat.pos_of_ne_zero zero)]
    constructor
    · intro run
      obtain ⟨rounded, added, run⟩ := Except.bind_eq_ok.mp run
      obtain ⟨fits, rfl⟩ := checkedAdd_eq_ok.mp added
      exact ⟨fits, exact fits ▸ Except.pure_eq_ok.mp run⟩
    · rintro ⟨fits, rfl⟩
      exact Except.bind_eq_ok.mpr
        ⟨_, checkedAdd_eq_ok.mpr ⟨fits, rfl⟩, Except.pure_eq_ok.mpr (exact fits)⟩

end Arithmetic

/-! ### Alignments -/

/-- What types are aligned to. -/
def IsAlign (align : Nat) : Prop := align ∈ [1, 2, 4, 8]

instance (align : Nat) : Decidable (IsAlign align) := inferInstanceAs (Decidable (_ ∈ _))

namespace IsAlign

variable {a b : Nat}

theorem pos (isAlign : IsAlign a) : 0 < a := by
  simp only [IsAlign, List.mem_cons, List.not_mem_nil, or_false] at isAlign
  omega

theorem lt (isAlign : IsAlign a) : a < 2 ^ 64 := by
  simp only [IsAlign, List.mem_cons, List.not_mem_nil, or_false] at isAlign
  omega

private theorem all_max : ∀ a ∈ [1, 2, 4, 8], ∀ b ∈ [1, 2, 4, 8],
    IsAlign (max a b) ∧ a ∣ max a b ∧ b ∣ max a b := by
  decide

theorem max (left : IsAlign a) (right : IsAlign b) : IsAlign (max a b) :=
  (all_max a left b right).1

theorem dvd_max_left (left : IsAlign a) (right : IsAlign b) : a ∣ Max.max a b :=
  (all_max a left b right).2.1

theorem dvd_max_right (left : IsAlign a) (right : IsAlign b) : b ∣ Max.max a b :=
  (all_max a left b right).2.2

end IsAlign

/-! ### Soundness -/

/-- What a field is in the type that it is a field of. -/
def FieldLayout.spec (field : FieldLayout) : TypeFieldSpec := ⟨field.name, field.typeHash⟩

/-- What a variant is in the type that it is a variant of. -/
def VariantLayout.spec (variant : VariantLayout) : TypeFieldSpec := ⟨variant.name, variant.typeHash⟩

section Sound

variable (P : Primitives) (objects : Objects) (root : ProgramRootPayload) (target : TargetLayout)

/-- A type is laid out with a size and an alignment. -/
def HasLayout (typeHash : Hash) (size align : Nat) : Prop :=
  ∃ layout depth active s s',
    (layoutType P objects root target depth active typeHash).run s = .ok (layout, s') ∧
      layout.size = size ∧ layout.align = align

/-- Elements that are a stride apart do not overlap, and are aligned if the first one is. -/
structure ElementLayout.Sound (e : ElementLayout) : Prop where
  laid : HasLayout P objects root target e.typeHash e.size e.align
  apart : e.size ≤ e.stride
  aligned : e.align ∣ e.stride
  exact : e.stride = roundUp e.size e.align

/-- Fields that lie in a record one behind the other. -/
structure FieldsSound (fields : List FieldLayout) (size align : Nat) : Prop where
  laid : ∀ f ∈ fields, HasLayout P objects root target f.typeHash f.size f.align
  aligned : ∀ f ∈ fields, f.align ∣ f.offset ∧ f.align ∣ align
  disjoint : fields.Pairwise fun f g => f.offset + f.size ≤ g.offset
  inside : ∀ f ∈ fields, f.offset + f.size ≤ size

/-- Payloads that lie in an enum behind its tag. -/
structure VariantsSound (variants : List VariantLayout)
    (tagSize payloadOffset payloadSize size align : Nat) : Prop where
  laid : ∀ v ∈ variants, HasLayout P objects root target v.typeHash v.payloadSize v.payloadAlign
  distinct : (variants.map (·.tagValue)).Nodup
  behindTag : tagSize ≤ payloadOffset
  aligned : ∀ v ∈ variants, v.payloadOffset = payloadOffset ∧ v.payloadAlign ∣ payloadOffset ∧
    v.payloadAlign ∣ align
  fits : ∀ v ∈ variants, v.payloadSize ≤ payloadSize
  inside : payloadOffset + payloadSize ≤ size

/-- The details of a layout are those of a type: a record has the details of a record with its
fields, in their order, and so on for every kind of type. -/
def LayoutDetails.OfSpec : LayoutDetails → TypeSpec → Prop
  | .scalar, spec => ∃ kind, spec = .builtin kind
  | .reference region isMut referent, spec => spec = .reference region isMut referent
  | .rawPointer isMut pointee, spec => spec = .rawPointer isMut pointee
  | .box element, spec => spec = .box element
  | .vec _ _ element, spec => spec = .vec element.typeHash
  | .string _ _ element, spec => spec = .string ∧ element.typeHash = typeHashFor P "U8"
  | .slice region isMut _ element, spec => spec = .slice region isMut element.typeHash
  | .fixedArray len element, spec => spec = .fixedArray element.typeHash len
  | .record _ _ fields, spec => spec = .record (fields.map FieldLayout.spec)
  | .enum _ _ _ _ _ _ variants, spec => spec = .enum (variants.map VariantLayout.spec)

/-- A builtin type takes as many bytes as it has, and is aligned to them. -/
def ScalarSound (typeHash : Hash) (size align : Nat) : Prop :=
  (∃ int ∈ scalarIntTypes, typeHash = typeHashFor P int.name ∧ size = int.width ∧
    align = int.width) ∨
  (typeHash = typeHashFor P "Bool" ∧ size = 1 ∧ align = 1) ∨
  (typeHash = typeHashFor P "Unit" ∧ size = 0 ∧ align = 1)

/-- The parts of a type lie in its layout as they should, and its size is what it is over
unbounded numbers. -/
def LayoutDetails.Sound (typeHash : Hash) (size align : Nat) : LayoutDetails → Prop
  | .scalar => ScalarSound P typeHash size align
  | .reference .. | .rawPointer .. | .box _ =>
    size = target.pointerSize ∧ align = target.pointerAlign
  | .vec lenOffset capacityOffset element | .string lenOffset capacityOffset element =>
    element.Sound P objects root target ∧ target.pointerSize ≤ lenOffset ∧
      capacityOffset = lenOffset + 8 ∧ size = capacityOffset + 8
  | .slice _ _ lenOffset element =>
    element.Sound P objects root target ∧ target.pointerSize ≤ lenOffset ∧ size = lenOffset + 8
  | .fixedArray len element =>
    element.Sound P objects root target ∧ element.align = align ∧ size = element.stride * len
  | .record _ _ fields =>
    FieldsSound P objects root target fields size align ∧
      size = roundUp (packedEnd (fields.map fun f => (f.size, f.align))) align
  | .enum _ _ tagSize tagAlign payloadOffset payloadSize variants =>
    VariantsSound P objects root target variants tagSize payloadOffset payloadSize size align ∧
      tagAlign ∣ align ∧ size = roundUp (payloadOffset + payloadSize) align

/-- A layout is that of the type that the root has, and is physically sound. -/
structure ComputedLayout.Sound (typeHash : Hash) (layout : ComputedLayout) : Prop where
  ofType : ∃ spec, typeSpecInRoot P objects root typeHash = .ok spec ∧ layout.details.OfSpec P spec
  isAlign : IsAlign layout.align
  aligned : layout.align ∣ layout.size
  fits : layout.size < 2 ^ 64
  details : layout.details.Sound P objects root target typeHash layout.size layout.align

end Sound

variable {P : Primitives} {objects : Objects} {root : ProgramRootPayload} {target : TargetLayout}
  {typeHash : Hash} {layout : ComputedLayout} {depth : Nat} {active s s' : List Hash}
  {targetTriple : String}

theorem targetLayout_eq (supported : targetLayout targetTriple = .ok target) :
    target = ⟨8, 8, 8, 8⟩ := by
  rw [targetLayout] at supported
  split_ifs at supported
  exact (Except.ok.inj supported).symm

/-! ### Every alignment is one of a few -/

private theorem isAlign_width : ∀ t ∈ scalarIntTypes, IsAlign t.width := by
  decide

theorem layoutBuiltin_cases {kind : String} (run : layoutBuiltin P typeHash kind = .ok layout) :
    layout.details = .scalar ∧ ScalarSound P typeHash layout.size layout.align := by
  rw [layoutBuiltin] at run
  cases found : scalarIntTypeByHash P typeHash with
  | some int =>
    rw [found] at run
    obtain rfl := Except.ok.inj run
    have same : typeHash = typeHashFor P int.name := by simpa using List.find?_some found
    exact ⟨rfl, .inl ⟨int, List.mem_of_find?_eq_some found, same, rfl, rfl⟩⟩
  | none =>
    rw [found] at run
    dsimp only at run
    split_ifs at run with bool unit
    · obtain rfl := Except.ok.inj run
      exact ⟨rfl, .inr (.inl ⟨bool, rfl, rfl⟩)⟩
    · obtain rfl := Except.ok.inj run
      exact ⟨rfl, .inr (.inr ⟨unit, rfl, rfl⟩)⟩

theorem ScalarSound.isAlign {size align : Nat} (sound : ScalarSound P typeHash size align) :
    IsAlign align ∧ (size = align ∨ size = 0) := by
  rcases sound with ⟨int, known, _, rfl, rfl⟩ | ⟨_, rfl, rfl⟩ | ⟨_, rfl, rfl⟩
  · exact ⟨isAlign_width int known, .inl rfl⟩
  · exact ⟨by decide, .inl rfl⟩
  · exact ⟨by decide, .inr rfl⟩

/-- What is laid out is aligned to one, two, four or eight bytes. -/
theorem layoutType_isAlign (supported : targetLayout targetTriple = .ok target)
    (run : (layoutType P objects root target depth active typeHash).run s = .ok (layout, s')) :
    IsAlign layout.align := by
  obtain rfl := targetLayout_eq supported
  induction depth generalizing active typeHash layout s s' with
  | zero => cases run
  | succ depth ih =>
    rw [layoutType] at run
    split_ifs at run with inside
    · cases run
    obtain ⟨spec, _, laid⟩ := layoutTypeInner_cases run
    cases laid with
    | builtin scalar => exact (layoutBuiltin_cases scalar).2.isAlign.1
    | reference | rawPointer | box => exact (by decide : IsAlign 8)
    | vec | string | slice => exact (by decide : IsAlign (max 8 8))
    | fixedArray laid =>
      have elements := ih laid
      exact elements
    | record _ run =>
      obtain ⟨progress, _, folded, _, rfl⟩ := layoutRecord_cases run
      refine run_foldlM_inv (fun _ progress => IsAlign progress.align) ?_ (by decide) folded
      intro _ field progress s progress' s' before run
      obtain ⟨layout, _, _, laid, _, _, rfl⟩ := layoutField_cases run
      exact before.max (ih laid)
    | enum _ run =>
      obtain ⟨payload, _, _, _, folded, _, _, _, rfl⟩ := layoutEnum_cases run
      refine IsAlign.max (by decide) ?_
      refine run_foldlM_inv (fun _ progress => IsAlign progress.align) ?_ (by decide) folded
      intro _ variant progress s progress' s' before run
      obtain ⟨layout, laid, rfl⟩ := layoutPayload_cases run
      exact before.max (ih laid)

/-! ### Parts -/

theorem elementLayout_sound
    (laid : (layoutType P objects root target depth active typeHash).run s = .ok (layout, s'))
    {elements : ElementLayout} (run : elementLayout typeHash layout = .ok elements) :
    elements.Sound P objects root target ∧ elements.align = layout.align ∧
      elements.typeHash = typeHash := by
  obtain ⟨stride, rounded, run⟩ := Except.bind_eq_ok.mp run
  obtain rfl := Except.pure_eq_ok.mp run
  obtain ⟨positive, _, rfl⟩ := alignUp_eq_ok.mp rounded
  exact ⟨⟨⟨layout, depth, active, s, s', laid, rfl, rfl⟩, le_roundUp positive, dvd_roundUp _ _,
    rfl⟩, rfl, rfl⟩

theorem bufferLayout_eq (supported : targetLayout targetTriple = .ok target) {overflow : Error}
    {rest size lenOffset : Nat} (run : bufferLayout target overflow rest = .ok (size, lenOffset)) :
    lenOffset = 8 ∧ size = 8 + rest ∧ 8 + rest < 2 ^ 64 := by
  obtain rfl := targetLayout_eq supported
  obtain ⟨offset, rounded, run⟩ := Except.bind_eq_ok.mp run
  obtain ⟨size, added, run⟩ := Except.bind_eq_ok.mp run
  obtain ⟨_, _, rfl⟩ := alignUp_eq_ok.mp rounded
  obtain ⟨fits, rfl⟩ := checkedAdd_eq_ok.mp added
  cases Except.pure_eq_ok.mp run
  exact ⟨rfl, rfl, fits⟩

/-- The fields that are laid out so far. -/
structure RecordProgress.Sound (P : Primitives) (objects : Objects) (root : ProgramRootPayload)
    (target : TargetLayout) (done : List LayoutMember) (progress : RecordProgress) : Prop where
  isAlign : IsAlign progress.align
  offset : progress.offset = progress.size
  exact : progress.size = packedEnd (progress.fields.map fun f => (f.size, f.align))
  spec : progress.fields.map FieldLayout.spec = done.map LayoutMember.spec
  fields : FieldsSound P objects root target progress.fields progress.size progress.align

/-- One more field goes behind those that are there. -/
theorem RecordProgress.Sound.layoutField (supported : targetLayout targetTriple = .ok target)
    {done : List LayoutMember} {progress progress' : RecordProgress} {field : LayoutMember}
    (before : progress.Sound P objects root target done)
    (run : (layoutField (layoutType P objects root target depth active) typeHash progress field).run
      s = .ok (progress', s')) : progress'.Sound P objects root target (done ++ [field]) := by
  obtain ⟨layout, offset, size, laid, rounded, added, rfl⟩ := layoutField_cases run
  obtain ⟨positive, _, rfl⟩ := alignUp_eq_ok.mp rounded
  obtain ⟨_, rfl⟩ := checkedAdd_eq_ok.mp added
  have isAlign := layoutType_isAlign supported laid
  have behind : progress.size ≤ roundUp progress.offset layout.align :=
    before.offset ▸ le_roundUp positive
  refine ⟨before.isAlign.max isAlign, rfl, ?_, ?_, ?_, ?_, ?_, ?_⟩
  · simp [packedEnd_append_singleton, before.offset, before.exact]
  · simp [before.spec, FieldLayout.spec, LayoutMember.spec]
  · intro f listed
    rcases List.mem_append.mp listed with earlier | this
    · exact before.fields.laid f earlier
    · obtain rfl := List.mem_singleton.mp this
      exact ⟨layout, depth, active, s, s', laid, rfl, rfl⟩
  · intro f listed
    rcases List.mem_append.mp listed with earlier | this
    · obtain ⟨place, all⟩ := before.fields.aligned f earlier
      exact ⟨place, Nat.dvd_trans all (before.isAlign.dvd_max_left isAlign)⟩
    · obtain rfl := List.mem_singleton.mp this
      exact ⟨dvd_roundUp _ _, before.isAlign.dvd_max_right isAlign⟩
  · refine List.pairwise_append.mpr ⟨before.fields.disjoint, List.pairwise_singleton _ _, ?_⟩
    intro f earlier g this
    obtain rfl := List.mem_singleton.mp this
    exact (before.fields.inside f earlier).trans behind
  · intro f listed
    rcases List.mem_append.mp listed with earlier | this
    · exact (before.fields.inside f earlier).trans (behind.trans (Nat.le_add_right _ _))
    · obtain rfl := List.mem_singleton.mp this
      exact Nat.le_refl _

theorem layoutRecord_sound (supported : targetLayout targetTriple = .ok target)
    {typeSymbol typeDef : Option Hash} {members : List LayoutMember}
    (found : typeSpecInRoot P objects root typeHash = .ok (.record (members.map LayoutMember.spec)))
    (run : (layoutRecord (layoutType P objects root target depth active) typeHash typeSymbol typeDef
      members).run s = .ok (layout, s')) : layout.Sound P objects root target typeHash := by
  obtain ⟨progress, size, folded, rounded, rfl⟩ := layoutRecord_cases run
  obtain ⟨positive, fits, rfl⟩ := alignUp_eq_ok.mp rounded
  have start : RecordProgress.Sound P objects root target [] ⟨0, 0, 1, .copy, []⟩ :=
    ⟨by decide, rfl, rfl, rfl, by simp, by simp, .nil, by simp⟩
  have sound : progress.Sound P objects root target members :=
    run_foldlM_inv (RecordProgress.Sound P objects root target)
      (fun _ _ _ _ _ _ before run => before.layoutField supported run) start folded
  have small := lt_of_le_of_lt (roundUp_le_add progress.size progress.align) fits
  have ofType : LayoutDetails.OfSpec P (.record typeSymbol typeDef progress.fields)
      (.record (members.map LayoutMember.spec)) := sound.spec ▸ rfl
  refine ⟨⟨_, found, ofType⟩, sound.isAlign, dvd_roundUp _ _, small, ?_, ?_⟩
  · exact { sound.fields with
      inside := fun f listed => (sound.fields.inside f listed).trans (le_roundUp positive) }
  · rw [sound.exact]

/-- The payloads that are laid out so far. -/
structure PayloadProgress.Sound (P : Primitives) (objects : Objects) (root : ProgramRootPayload)
    (target : TargetLayout) (done : List LayoutMember) (progress : PayloadProgress) : Prop where
  isAlign : IsAlign progress.align
  laid : List.Forall₂ (fun member layout =>
    HasLayout P objects root target member.typeHash layout.size layout.align) done progress.layouts
  fits : ∀ layout ∈ progress.layouts, layout.size ≤ progress.size ∧ layout.align ∣ progress.align

theorem PayloadProgress.Sound.layoutPayload (supported : targetLayout targetTriple = .ok target)
    {done : List LayoutMember} {progress progress' : PayloadProgress} {variant : LayoutMember}
    (before : progress.Sound P objects root target done)
    (run : (layoutPayload (layoutType P objects root target depth active) progress variant).run s =
      .ok (progress', s')) : progress'.Sound P objects root target (done ++ [variant]) := by
  obtain ⟨layout, laid, rfl⟩ := layoutPayload_cases run
  have isAlign := layoutType_isAlign supported laid
  refine ⟨before.isAlign.max isAlign, ?_, ?_⟩
  · exact List.rel_append before.laid (.cons ⟨layout, depth, active, s, s', laid, rfl, rfl⟩ .nil)
  · intro other listed
    rcases List.mem_append.mp listed with earlier | this
    · obtain ⟨small, all⟩ := before.fits other earlier
      exact ⟨small.trans (le_max_left ..),
        Nat.dvd_trans all (before.isAlign.dvd_max_left isAlign)⟩
    · obtain rfl := List.mem_singleton.mp this
      exact ⟨le_max_right .., before.isAlign.dvd_max_right isAlign⟩

/-! ### Variants -/

section Variants

variable {variants : List LayoutMember} {layouts : List ComputedLayout} {payloadOffset : Nat}

theorem nodup_variantLayouts :
    ((variantLayouts variants layouts payloadOffset).map (·.tagValue)).Nodup := by
  have positions : (variantLayouts variants layouts payloadOffset).map (·.tagValue) =
      List.range' 0 (variants.zip layouts).length := by
    rw [variantLayouts, List.map_map, ← List.zipIdx_map_snd]
    rfl
  rw [positions]
  exact List.nodup_range'

theorem variantLayouts_spec (lengths : variants.length = layouts.length) :
    (variantLayouts variants layouts payloadOffset).map VariantLayout.spec =
      variants.map LayoutMember.spec := by
  have firsts : (variantLayouts variants layouts payloadOffset).map VariantLayout.spec =
      (((variants.zip layouts).zipIdx.map Prod.fst).map Prod.fst).map LayoutMember.spec := by
    rw [variantLayouts, List.map_map, List.map_map, List.map_map]
    rfl
  rw [firsts, List.zipIdx_map_fst, List.map_fst_zip (Nat.le_of_eq lengths)]

theorem mem_variantLayouts {v : VariantLayout}
    (listed : v ∈ variantLayouts variants layouts payloadOffset) :
    ∃ variant layout, (variant, layout) ∈ variants.zip layouts ∧ v.typeHash = variant.typeHash ∧
      v.payloadOffset = payloadOffset ∧ v.payloadSize = layout.size ∧
      v.payloadAlign = layout.align := by
  obtain ⟨⟨⟨variant, layout⟩, idx⟩, pair, rfl⟩ := List.mem_map.mp listed
  exact ⟨variant, layout, List.fst_mem_of_mem_zipIdx pair, rfl, rfl, rfl, rfl⟩

end Variants

theorem layoutEnum_sound (supported : targetLayout targetTriple = .ok target)
    {typeSymbol typeDef : Option Hash} {variants : List LayoutMember}
    (found : typeSpecInRoot P objects root typeHash = .ok (.enum (variants.map LayoutMember.spec)))
    (run : (layoutEnum target (layoutType P objects root target depth active) typeHash typeSymbol
      typeDef variants).run s = .ok (layout, s')) :
    layout.Sound P objects root target typeHash := by
  obtain ⟨payload, payloadOffset, unaligned, size, folded, behind, added, rounded, rfl⟩ :=
    layoutEnum_cases run
  obtain ⟨positive, _, rfl⟩ := alignUp_eq_ok.mp behind
  obtain ⟨_, rfl⟩ := checkedAdd_eq_ok.mp added
  obtain ⟨positive', fits, rfl⟩ := alignUp_eq_ok.mp rounded
  have start : PayloadProgress.Sound P objects root target [] ⟨0, 1, .copy, []⟩ :=
    ⟨by decide, .nil, by simp⟩
  have sound : payload.Sound P objects root target variants :=
    run_foldlM_inv (PayloadProgress.Sound P objects root target)
      (fun _ _ _ _ _ _ before run => before.layoutPayload supported run) start folded
  have tagAlign : IsAlign target.enumTagAlign := by
    rw [targetLayout_eq supported]
    decide
  have small := lt_of_le_of_lt (roundUp_le_add _ _) fits
  refine ⟨⟨_, found, congrArg _ (variantLayouts_spec sound.laid.length_eq).symm⟩,
    tagAlign.max sound.isAlign, dvd_roundUp _ _, small,
    ⟨?_, nodup_variantLayouts, le_roundUp positive, ?_, ?_, le_roundUp positive'⟩,
    tagAlign.dvd_max_left sound.isAlign, rfl⟩
  · intro v listed
    obtain ⟨variant, layout, pair, typed, _, size, align⟩ := mem_variantLayouts listed
    rw [typed, size, align]
    exact List.forall₂_zip sound.laid pair
  · intro v listed
    obtain ⟨variant, layout, pair, _, offset, _, align⟩ := mem_variantLayouts listed
    have all := (sound.fits layout (List.of_mem_zip pair).2).2
    rw [align]
    exact ⟨offset, Nat.dvd_trans all (dvd_roundUp _ _),
      Nat.dvd_trans all (tagAlign.dvd_max_right sound.isAlign)⟩
  · intro v listed
    obtain ⟨variant, layout, pair, _, _, size, _⟩ := mem_variantLayouts listed
    rw [size]
    exact (sound.fits layout (List.of_mem_zip pair).2).1

/-! ### Every layout -/

/-- What is laid out on a target is physically sound. -/
theorem layoutType_sound (supported : targetLayout targetTriple = .ok target)
    (run : (layoutType P objects root target depth active typeHash).run s = .ok (layout, s')) :
    layout.Sound P objects root target typeHash := by
  have isAlign := layoutType_isAlign supported run
  cases depth with
  | zero => cases run
  | succ depth =>
    rw [layoutType] at run
    split_ifs at run with inside
    · cases run
    obtain ⟨spec, found, laid⟩ := layoutTypeInner_cases run
    -- on every target that is supported an address takes eight bytes
    have pointers := targetLayout_eq supported
    cases laid with
    | builtin scalar =>
      obtain ⟨details, scalarSound⟩ := layoutBuiltin_cases scalar
      refine ⟨⟨_, found, details ▸ ⟨_, rfl⟩⟩, isAlign, ?_, ?_, details ▸ scalarSound⟩
      · rcases scalarSound.isAlign.2 with same | none
        · exact same ▸ Nat.dvd_refl _
        · exact none ▸ Nat.dvd_zero _
      · rcases scalarSound.isAlign.2 with same | none
        · exact same ▸ isAlign.lt
        · rw [none]
          decide
    | reference | rawPointer | box =>
      subst pointers
      exact ⟨⟨_, found, rfl⟩, isAlign, Nat.dvd_refl 8, (by decide : 8 < 2 ^ 64), rfl, rfl⟩
    | vec laid _ buffer strides =>
      obtain ⟨sound, _, typed⟩ := elementLayout_sound laid strides
      obtain ⟨rfl, rfl, _⟩ := bufferLayout_eq supported buffer
      subst pointers
      exact ⟨⟨_, found, congrArg _ typed.symm⟩, isAlign, (by decide : 8 ∣ 24),
        (by decide : 24 < 2 ^ 64), sound, Nat.le_refl 8, rfl, rfl⟩
    | string laid buffer strides =>
      obtain ⟨sound, _, typed⟩ := elementLayout_sound laid strides
      obtain ⟨rfl, rfl, _⟩ := bufferLayout_eq supported buffer
      subst pointers
      exact ⟨⟨_, found, rfl, typed⟩, isAlign, (by decide : 8 ∣ 24), (by decide : 24 < 2 ^ 64),
        sound, Nat.le_refl 8, rfl, rfl⟩
    | slice _ _ laid buffer strides =>
      obtain ⟨sound, _, typed⟩ := elementLayout_sound laid strides
      obtain ⟨rfl, rfl, _⟩ := bufferLayout_eq supported buffer
      subst pointers
      exact ⟨⟨_, found, congrArg _ typed.symm⟩, isAlign, (by decide : 8 ∣ 16),
        (by decide : 16 < 2 ^ 64), sound, Nat.le_refl 8, rfl⟩
    | fixedArray laid strides whole =>
      obtain ⟨sound, align, typed⟩ := elementLayout_sound laid strides
      obtain ⟨fits, rfl⟩ := checkedMul_eq_ok.mp whole
      exact ⟨⟨_, found, typed ▸ rfl⟩, isAlign,
        Nat.dvd_mul_right_of_dvd (align ▸ sound.aligned) _, fits, sound, align, rfl⟩
    | record named run =>
      subst named
      exact layoutRecord_sound supported found run
    | enum named run =>
      subst named
      exact layoutEnum_sound supported found run

theorem layoutType_sound_typeSlice :
    ComputedLayout.Sound plain sliceObjects .empty linuxTarget typeSlice
      ⟨.slice staticRegion false 8 ⟨typeBox, 8, 8, 8⟩, 16, 8, .sharedReference⟩ :=
  layoutType_sound (rfl : targetLayout linuxX8664Target = .ok linuxTarget) layoutType_typeSlice

end CodeDb

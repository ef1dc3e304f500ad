import CodeDb.Layout.ClassTraits
import CodeDb.Layout.Steps
import CodeDb.Language.StoredTypes
import CodeDb.Operations.TypeRoundTrip

/-!
# Classes of types

`layoutClassFlagsForType` looks at everything that can be reached through the parts of a
type, the elements of slices included, while a layout takes a slice for the reference that
it is. So the two agree on exactly the types whose slices have nothing in their elements
that is not elsewhere in the value as well.

## Main results

* `layoutClassFlagsForType_describes` — the flags say what a type holds
* `layoutType_describes` — a layout says what a type lays out
* `layoutClass_eq_flags_iff` — they agree exactly if all that is held is laid out
-/

namespace CodeDb

section Root

variable {P : Primitives} {objects : Objects} {root : ProgramRootPayload} {typeHash : Hash}

/-! ### The flags of a type -/

/-- A class that is merged from those of members describes what any of them has. -/
private theorem describes_foldlM_merge (recurse : Hash → Except Error LayoutClass)
    {has : Hash → ClassTrait → Prop}
    (describes : ∀ h c, recurse h = .ok c → c.Describes (has h)) {members : List TypeFieldSpec}
    {before : ClassTrait → Prop} {c c' : LayoutClass} (start : c.Describes before)
    (run : members.foldlM (fun c member => do return c.merge (← recurse member.typeHash)) c =
      .ok c') :
    c'.Describes fun t => before t ∨ ∃ part ∈ members.map (·.typeHash), has part t := by
  induction members generalizing c before with
  | nil =>
    obtain rfl := Except.pure_eq_ok.mp run
    exact start.congr fun t => by simp
  | cons member members ih =>
    rw [List.foldlM_cons] at run
    obtain ⟨merged, first, rest⟩ := Except.bind_eq_ok.mp run
    obtain ⟨d, found, first⟩ := Except.bind_eq_ok.mp first
    obtain rfl := Except.pure_eq_ok.mp first
    refine (ih (start.merge (describes _ _ found)) rest).congr fun t => ?_
    simp only [List.map_cons, List.mem_cons, exists_eq_or_imp, or_assoc]

/-- The flags of a type, cut at the types being classified, say what is held by a path that
does not come back to one of them. -/
theorem layoutClassFlagsForType_describes {depth : Nat} {active : List Hash} {typeHash : Hash}
    {c : LayoutClass}
    (run : layoutClassFlagsForType P objects root depth active typeHash = .ok c) :
    c.Describes (HoldsOutside P objects root {h | h ∈ active} typeHash) := by
  induction depth generalizing active typeHash c with
  | zero => cases run
  | succ depth ih =>
    rw [layoutClassFlagsForType] at run
    -- a type that is being classified already is answered as copyable: it adds no trait
    split_ifs at run with inside
    · obtain rfl := Except.ok.inj run
      exact LayoutClass.describes_copy.congr fun t => iff_false_intro (not_holdsOutside inside)
    · obtain ⟨spec, found, run⟩ := Except.bind_eq_ok.mp run
      have grown : {h | h ∈ typeHash :: active} = insert typeHash {h | h ∈ active} := by
        ext h
        simp
      -- a trait is the type's own or that of a part, looked for outside the types on the way
      have step (t : ClassTrait) :
          HoldsOutside P objects root {h | h ∈ active} typeHash t ↔
            spec.HasTrait t ∨ ∃ part ∈ spec.parts,
              HoldsOutside P objects root {h | h ∈ typeHash :: active} part t :=
        grown ▸ holdsOutside_iff found inside
      -- by kind; each merges what the parts were found to be
      cases spec with
      | builtin | named =>
        obtain rfl := Except.pure_eq_ok.mp run
        exact LayoutClass.describes_copy.congr fun t => by
          simp [step, TypeSpec.HasTrait, TypeSpec.parts]
      | typeParam index => cases run
      | reference region isMut referent =>
        obtain rfl := Except.pure_eq_ok.mp run
        exact (LayoutClass.describes_borrowed isMut).congr fun t => by
          simp [step, TypeSpec.HasTrait, TypeSpec.parts]
      | rawPointer isMut pointee =>
        obtain rfl := Except.pure_eq_ok.mp run
        exact LayoutClass.describes_rawPointer.congr fun t => by
          simp [step, TypeSpec.HasTrait, TypeSpec.parts]
      | box element =>
        obtain ⟨payload, payloadRun, run⟩ := Except.bind_eq_ok.mp run
        obtain rfl := Except.pure_eq_ok.mp run
        exact (ih payloadRun).boxed.congr fun t => by
          simp [step, TypeSpec.HasTrait, TypeSpec.parts]
      | vec element =>
        obtain ⟨payload, payloadRun, run⟩ := Except.bind_eq_ok.mp run
        obtain rfl := Except.pure_eq_ok.mp run
        exact (ih payloadRun).ownedBuffer.congr fun t => by
          simp [step, TypeSpec.HasTrait, TypeSpec.parts]
      | string =>
        obtain rfl := Except.pure_eq_ok.mp run
        exact LayoutClass.describes_copy.ownedBuffer.congr fun t => by
          simp [step, TypeSpec.HasTrait, TypeSpec.parts]
      | slice region isMut element =>
        obtain ⟨elements, elementsRun, run⟩ := Except.bind_eq_ok.mp run
        obtain rfl := Except.pure_eq_ok.mp run
        exact ((LayoutClass.describes_borrowed isMut).merge (ih elementsRun)).congr fun t => by
          simp [step, TypeSpec.HasTrait, TypeSpec.parts]
      | fixedArray element len =>
        exact (ih run).congr fun t => by simp [step, TypeSpec.HasTrait, TypeSpec.parts]
      | record members | enum members =>
        have merged := describes_foldlM_merge
          (layoutClassFlagsForType P objects root depth (typeHash :: active))
          (fun h c found => ih found) LayoutClass.describes_copy run
        exact merged.congr fun t => by simp only [step, TypeSpec.HasTrait, TypeSpec.parts]

/-- The flags of a type without the cut. -/
theorem layoutClassFlagsForType_holds {depth : Nat} {c : LayoutClass}
    (run : layoutClassFlagsForType P objects root depth [] typeHash = .ok c) :
    c.Describes (HoldsTrait P objects root typeHash) := by
  refine (layoutClassFlagsForType_describes run).congr fun t => ?_
  rw [holdsTrait_iff, show {h | h ∈ ([] : List Hash)} = ∅ by simp]

/-! ### When there are flags -/

private theorem foldlM_merge_isOk {recurse : Hash → Except Error LayoutClass}
    {members : List TypeFieldSpec} (c : LayoutClass) :
    (∃ c', members.foldlM (fun c member => do return c.merge (← recurse member.typeHash)) c =
        .ok c') ↔
      ∀ part ∈ members.map (·.typeHash), ∃ d, recurse part = .ok d := by
  induction members generalizing c with
  | nil => simp [pure, Except.pure]
  | cons member members ih =>
    simp only [List.foldlM_cons, List.map_cons, List.mem_cons, forall_eq_or_imp]
    constructor
    · rintro ⟨c', run⟩
      obtain ⟨merged, first, rest⟩ := Except.bind_eq_ok.mp run
      obtain ⟨d, found, _⟩ := Except.bind_eq_ok.mp first
      exact ⟨⟨d, found⟩, (ih merged).mp ⟨c', rest⟩⟩
    · rintro ⟨⟨d, found⟩, others⟩
      obtain ⟨c', rest⟩ := (ih (c.merge d)).mpr others
      exact ⟨c', Except.bind_eq_ok.mpr
        ⟨_, Except.bind_eq_ok.mpr ⟨d, found, Except.pure_eq_ok.mpr rfl⟩, rest⟩⟩

/-- A type has flags if it is found, is no parameter, and its parts have flags. -/
theorem layoutClassFlagsInner_isOk {recurse : Hash → Except Error LayoutClass} :
    (∃ c, layoutClassFlagsInner P objects root recurse typeHash = .ok c) ↔
      ∃ spec, typeSpecInRoot P objects root typeHash = .ok spec ∧
        (∀ index, spec ≠ .typeParam index) ∧ ∀ part ∈ spec.parts, ∃ c, recurse part = .ok c := by
  have step (spec : TypeSpec) (found : typeSpecInRoot P objects root typeHash = .ok spec) :
      (∃ c, layoutClassFlagsInner P objects root recurse typeHash = .ok c) ↔
        (∀ index, spec ≠ .typeParam index) ∧ ∀ part ∈ spec.parts, ∃ c, recurse part = .ok c := by
    rw [layoutClassFlagsInner, found]
    cases spec with
    | record members | enum members =>
      exact ⟨fun ok => ⟨nofun, (foldlM_merge_isOk .copy).mp ok⟩,
        fun ok => (foldlM_merge_isOk .copy).mpr ok.2⟩
    | box element | vec element | slice _ _ element | fixedArray element =>
      cases h : recurse element <;>
        simp [TypeSpec.parts, bind, Except.bind, pure, Except.pure, h]
    | _ => simp [TypeSpec.parts, bind, Except.bind, pure, Except.pure]
  constructor
  · rintro ⟨c, run⟩
    obtain ⟨spec, found, _⟩ := Except.bind_eq_ok.mp run
    exact ⟨spec, found, (step spec found).mp ⟨c, run⟩⟩
  · rintro ⟨spec, found, parts⟩
    exact (step spec found).mpr parts

/-- Deeper recursions that are cut at more types have flags for more types. -/
theorem layoutClassFlagsForType_isOk_mono {depth depth' : Nat} {active active' : List Hash}
    (le : depth ≤ depth') (sub : active ⊆ active')
    (ok : ∃ c, layoutClassFlagsForType P objects root depth active typeHash = .ok c) :
    ∃ c, layoutClassFlagsForType P objects root depth' active' typeHash = .ok c := by
  induction depth generalizing depth' active active' typeHash with
  | zero => exact absurd ok (by simp [layoutClassFlagsForType])
  | succ depth ih =>
    obtain ⟨depth', rfl⟩ : ∃ d, depth' = d + 1 := ⟨depth' - 1, by omega⟩
    rw [layoutClassFlagsForType] at ok ⊢
    split_ifs with inside'
    · exact ⟨_, rfl⟩
    · rw [if_neg fun inside => inside' (sub inside), layoutClassFlagsInner_isOk] at ok
      rw [layoutClassFlagsInner_isOk]
      obtain ⟨spec, found, plain, parts⟩ := ok
      exact ⟨spec, found, plain, fun part listed =>
        ih (Nat.le_of_succ_le_succ le) (List.cons_subset_cons typeHash sub) (parts part listed)⟩

/-- Parts that have flags have them at one depth. -/
private theorem exists_depth {parts : List Hash}
    (ok : ∀ part ∈ parts, ∃ depth c, layoutClassFlagsForType P objects root depth [] part = .ok c) :
    ∃ depth, ∀ part ∈ parts, ∃ c, layoutClassFlagsForType P objects root depth [] part = .ok c := by
  induction parts with
  | nil => exact ⟨0, nofun⟩
  | cons part parts ih =>
    obtain ⟨first, found⟩ := ok part List.mem_cons_self
    obtain ⟨rest, others⟩ := ih fun part' listed => ok part' (List.mem_cons_of_mem _ listed)
    refine ⟨max first rest, fun part' listed => ?_⟩
    rcases List.mem_cons.mp listed with rfl | listed
    · exact layoutClassFlagsForType_isOk_mono (le_max_left ..) (List.Subset.refl _) found
    · exact layoutClassFlagsForType_isOk_mono (le_max_right ..) (List.Subset.refl _)
        (others part' listed)

/-! ### The class of a layout -/

section Steps

variable {target : TargetLayout} {recurse : Hash → LayoutM ComputedLayout}
  {flags : Hash → Except Error LayoutClass} {layout : ComputedLayout} {s s' : List Hash}

/-- Members that are laid out one after the other are laid out each. -/
private theorem laid_of_foldlM {τ : Type} {step : τ → LayoutMember → LayoutM τ}
    (laid : ∀ progress member s progress' s', (step progress member).run s = .ok (progress', s') →
      ∃ layout s s', (recurse member.typeHash).run s = .ok (layout, s'))
    {members : List LayoutMember} {start progress : τ}
    (run : (members.foldlM step start).run s = .ok (progress, s')) {part : Hash}
    (listed : part ∈ (members.map LayoutMember.spec).map (·.typeHash)) :
    ∃ layout s s', (recurse part).run s = .ok (layout, s') := by
  have every : ∀ member ∈ members,
      ∃ layout s s', (recurse member.typeHash).run s = .ok (layout, s') := by
    refine StateT.run_foldlM_inv (fun done _ => ∀ member ∈ done,
      ∃ layout s s', (recurse member.typeHash).run s = .ok (layout, s')) ?_ nofun run
    intro done member progress s progress' s' before run later listed
    rcases List.mem_append.mp listed with earlier | this
    · exact before later earlier
    · obtain rfl := List.mem_singleton.mp this
      exact laid _ _ _ _ _ run
  obtain ⟨spec, ofMember, rfl⟩ := List.mem_map.mp listed
  obtain ⟨member, isMember, rfl⟩ := List.mem_map.mp ofMember
  exact every member isMember

/-- A class that is merged from those of members that are laid out describes what any of them
has. -/
private theorem describes_of_foldlM {τ : Type} {step : τ → LayoutMember → LayoutM τ}
    (has : Hash → ClassTrait → Prop)
    (describes : ∀ {part layout s s'}, (recurse part).run s = .ok (layout, s') →
      layout.layoutClass.Describes (has part)) (classOf : τ → LayoutClass)
    (merges : ∀ progress member s progress' s', (step progress member).run s = .ok (progress', s') →
      ∃ layout s s', (recurse member.typeHash).run s = .ok (layout, s') ∧
        classOf progress' = (classOf progress).merge layout.layoutClass)
    {members : List LayoutMember} {start progress : τ}
    (none : (classOf start).Describes fun _ => False)
    (run : (members.foldlM step start).run s = .ok (progress, s')) :
    (classOf progress).Describes fun t =>
      ∃ part ∈ (members.map LayoutMember.spec).map (·.typeHash), has part t := by
  refine StateT.run_foldlM_inv (fun done progress => (classOf progress).Describes
    fun t => ∃ part ∈ (done.map LayoutMember.spec).map (·.typeHash), has part t) ?_
    (none.congr fun t => by simp) run
  intro done member progress s progress' s' before run
  obtain ⟨layout, s, s', laid, merged⟩ := merges _ _ _ _ _ run
  refine merged ▸ (before.merge (describes laid)).congr fun t => ?_
  simp only [List.map_append, List.map_cons, List.map_nil, List.mem_append, List.mem_singleton,
    or_and_right, exists_or, exists_eq_left, LayoutMember.spec]

/-- What a layout needs of the parts of a type: they are laid out, or they have flags. -/
theorem LaidOut.parts {spec : TypeSpec}
    (laid : LaidOut P target recurse flags typeHash spec layout) :
    (∀ index, spec ≠ .typeParam index) ∧ ∀ part ∈ spec.parts,
      (∃ layout s s', (recurse part).run s = .ok (layout, s')) ∨ ∃ c, flags part = .ok c := by
  cases laid with
  | box flagged | vec _ flagged =>
    exact ⟨nofun, fun part listed => Or.inr ⟨_, List.mem_singleton.mp listed ▸ flagged⟩⟩
  | slice _ _ laid | fixedArray laid =>
    exact ⟨nofun, fun part listed => Or.inl ⟨_, _, _, List.mem_singleton.mp listed ▸ laid⟩⟩
  | record named run =>
    obtain ⟨progress, size, folded, _⟩ := layoutRecord_cases run
    refine ⟨nofun, fun part listed => Or.inl (laid_of_foldlM ?_ folded (named ▸ listed))⟩
    intro progress member s progress' s' run
    obtain ⟨layout, _, _, laid, _⟩ := layoutField_cases run
    exact ⟨layout, s, s', laid⟩
  | enum named run =>
    obtain ⟨payload, _, _, _, folded, _⟩ := layoutEnum_cases run
    refine ⟨nofun, fun part listed => Or.inl (laid_of_foldlM ?_ folded (named ▸ listed))⟩
    intro progress member s progress' s' run
    obtain ⟨layout, laid, _⟩ := layoutPayload_cases run
    exact ⟨layout, s, s', laid⟩
  | _ => exact ⟨nofun, nofun⟩

end Steps

private theorem layoutBuiltin_layoutClass {kind : String} {layout : ComputedLayout}
    (run : layoutBuiltin P typeHash kind = .ok layout) : layout.layoutClass = .copy := by
  rw [layoutBuiltin] at run
  cases found : scalarIntTypeByHash P typeHash with
  | some int =>
    rw [found] at run
    obtain rfl := Except.ok.inj run
    rfl
  | none =>
    rw [found] at run
    dsimp only at run
    split_ifs at run <;> obtain rfl := Except.ok.inj run <;> rfl

variable {target : TargetLayout} {layout : ComputedLayout} {s s' : List Hash}

/-- What is laid out has flags. -/
theorem layoutType_flags_isOk {depth : Nat} {active : List Hash}
    (run : (layoutType P objects root target depth active typeHash).run s = .ok (layout, s')) :
    ∃ depth c, layoutClassFlagsForType P objects root depth [] typeHash = .ok c := by
  induction depth generalizing active typeHash layout s s' with
  | zero => cases run
  | succ depth ih =>
    rw [layoutType] at run
    split_ifs at run with inside
    · cases run
    obtain ⟨spec, found, laid⟩ := layoutTypeInner_cases run
    obtain ⟨plain, parts⟩ := laid.parts
    have flags (part : Hash) (listed : part ∈ spec.parts) :
        ∃ depth c, layoutClassFlagsForType P objects root depth [] part = .ok c := by
      rcases parts part listed with ⟨layout, s, s', laid⟩ | ⟨c, flagged⟩
      · exact ih laid
      · exact ⟨depth, c, flagged⟩
    obtain ⟨bound, flagged⟩ := exists_depth flags
    refine ⟨bound + 1, ?_⟩
    rw [layoutClassFlagsForType, if_neg List.not_mem_nil, layoutClassFlagsInner_isOk]
    exact ⟨spec, found, plain, fun part listed =>
      layoutClassFlagsForType_isOk_mono (Nat.le_refl _) (List.nil_subset _) (flagged part listed)⟩

/-- The class of a layout says what the type lays out. -/
theorem layoutType_describes {depth : Nat} {active : List Hash}
    (run : (layoutType P objects root target depth active typeHash).run s = .ok (layout, s')) :
    layout.layoutClass.Describes (Lays P objects root typeHash) := by
  induction depth generalizing active typeHash layout s s' with
  | zero => cases run
  | succ depth ih =>
    rw [layoutType] at run
    split_ifs at run with inside
    · cases run
    obtain ⟨spec, found, laid⟩ := layoutTypeInner_cases run
    -- a trait is the type's own, an inline part's, or that of a type it owns a buffer of
    have step (t : ClassTrait) := lays_iff (t := t) found
    have plain {c : LayoutClass} {has : ClassTrait → Prop} (describes : c.Describes has)
        (same : ∀ t, has t ↔ spec.HasTrait t ∨
          (∃ part ∈ spec.inlineParts, Lays P objects root part t) ∨
            ∃ part ∈ spec.ownedParts, HoldsTrait P objects root part t) :
        c.Describes (Lays P objects root typeHash) :=
      describes.congr fun t => (step t).trans (same t).symm
    -- only inline parts are laid out in turn; what is owned is classified by flags alone
    cases laid with
    | builtin scalar =>
      rw [layoutBuiltin_layoutClass scalar]
      exact plain LayoutClass.describes_copy fun t => by
        simp [TypeSpec.HasTrait, TypeSpec.inlineParts, TypeSpec.ownedParts]
    | reference region isMut referent =>
      exact plain (LayoutClass.describes_borrowed isMut) fun t => by
        simp [TypeSpec.HasTrait, TypeSpec.inlineParts, TypeSpec.ownedParts]
    | rawPointer isMut pointee =>
      exact plain LayoutClass.describes_rawPointer fun t => by
        simp [TypeSpec.HasTrait, TypeSpec.inlineParts, TypeSpec.ownedParts]
    | box flagged =>
      exact plain (layoutClassFlagsForType_holds flagged).boxed fun t => by
        simp [TypeSpec.HasTrait, TypeSpec.inlineParts, TypeSpec.ownedParts]
    | vec _ flagged =>
      exact plain (layoutClassFlagsForType_holds flagged).ownedBuffer fun t => by
        simp [TypeSpec.HasTrait, TypeSpec.inlineParts, TypeSpec.ownedParts]
    | string =>
      exact plain LayoutClass.describes_copy.ownedBuffer fun t => by
        simp [TypeSpec.HasTrait, TypeSpec.inlineParts, TypeSpec.ownedParts]
    | slice region isMut =>
      exact plain (LayoutClass.describes_borrowed isMut) fun t => by
        simp [TypeSpec.HasTrait, TypeSpec.inlineParts, TypeSpec.ownedParts]
    | fixedArray laid =>
      have elements := ih laid
      exact plain elements fun t => by
        simp [TypeSpec.HasTrait, TypeSpec.inlineParts, TypeSpec.ownedParts]
    | record named run =>
      obtain ⟨progress, size, folded, _, rfl⟩ := layoutRecord_cases run
      have merged := describes_of_foldlM (Lays P objects root) (fun laid => ih laid)
        (·.layoutClass) (fun progress member s progress' s' run => by
          obtain ⟨layout, _, _, laid, _, _, rfl⟩ := layoutField_cases run
          exact ⟨layout, s, s', laid, rfl⟩) LayoutClass.describes_copy folded
      rw [named] at merged
      exact plain merged fun t => by
        simp [TypeSpec.HasTrait, TypeSpec.inlineParts, TypeSpec.ownedParts]
    | enum named run =>
      obtain ⟨payload, _, _, _, folded, _, _, _, rfl⟩ := layoutEnum_cases run
      have merged := describes_of_foldlM (Lays P objects root) (fun laid => ih laid)
        (·.layoutClass) (fun progress member s progress' s' run => by
          obtain ⟨layout, laid, rfl⟩ := layoutPayload_cases run
          exact ⟨layout, s, s', laid, rfl⟩) LayoutClass.describes_copy folded
      rw [named] at merged
      exact plain merged fun t => by
        simp [TypeSpec.HasTrait, TypeSpec.inlineParts, TypeSpec.ownedParts]

/-- What is laid out has flags, and they are the class of the layout exactly if whatever is
held is held outside the elements of the slices that lie in a value too. -/
theorem layoutClass_eq_flags_iff {depth : Nat} {active : List Hash}
    (run : (layoutType P objects root target depth active typeHash).run s = .ok (layout, s')) :
    (∃ depth c, layoutClassFlagsForType P objects root depth [] typeHash = .ok c) ∧
      ∀ depth c, layoutClassFlagsForType P objects root depth [] typeHash = .ok c →
        (layout.layoutClass = c ↔
          ∀ t, HoldsTrait P objects root typeHash t → Lays P objects root typeHash t) := by
  refine ⟨layoutType_flags_isOk run, fun depth c flags => ?_⟩
  rw [(layoutType_describes run).eq_iff (layoutClassFlagsForType_holds flags)]
  exact forall_congr' fun t => ⟨fun same => same.mpr, fun laid => ⟨Lays.holds, laid⟩⟩

end Root

/-! ### A slice of boxes -/

def linuxTarget : TargetLayout where
  pointerSize := 8
  pointerAlign := 8
  enumTagSize := 8
  enumTagAlign := 8

def boxOfI64 : JsonValue := .object [("element", .string typeI64), ("type_kind", .string "Box")]

def typeBox : Hash := objectHash plain "Type" boxOfI64

/-- The region of what is never dropped. -/
def staticRegion : Hash :=
  objectHash plain "SymbolBirth" (.object [("birth_history_hash", .string "genesis"),
    ("local_nonce", .string "builtin:static"), ("symbol_kind", .string "region_param")])

def sliceOfBoxes : JsonValue :=
  .object [("element", .string typeBox), ("mutable", .bool false), ("region", .string staticRegion),
    ("type_kind", .string "Slice")]

def typeSlice : Hash := objectHash plain "Type" sliceOfBoxes

@[irreducible] def sliceObjects : Objects :=
  putAll plain ∅ [("Type", boxOfI64), ("Type", sliceOfBoxes)]

theorem stored_sliceObjects {payload : JsonValue} (mem : payload ∈ [boxOfI64, sliceOfBoxes]) :
    Stored plain sliceObjects "Type" payload := by
  have empty : Addressed plain ∅ := fun hash _ found =>
    nomatch (AList.lookup_empty hash).symm.trans found
  unfold sliceObjects
  exact stored_putAll plain_reliable empty (by simpa using mem)

theorem fixed_boxOfI64 : Fixed plain.floatText boxOfI64 :=
  Fixed.object (by simp only [List.map]; decide) (by simp [Fixed.string])

theorem fixed_sliceOfBoxes : Fixed plain.floatText sliceOfBoxes :=
  Fixed.object (by simp only [List.map]; decide) (by simp [Fixed.string, Fixed.bool])

theorem typeBox_ne_typeSlice : typeBox ≠ typeSlice := fun same => by
  simpa [boxOfI64, sliceOfBoxes] using objectHash_value_inj fixed_boxOfI64 fixed_sliceOfBoxes same

theorem typeSpec_typeBox : typeSpec plain sliceObjects typeBox = .ok (.box typeI64) := by
  rw [typeBox, (stored_sliceObjects (by simp)).typeSpec fixed_boxOfI64 (by simp [boxOfI64])]
  have valid : validateTypeHashText "box element" typeI64 = .ok () :=
    if_pos (hasHashPrefix_objectHash ..)
  exact Except.bind_eq_ok.mpr ⟨"Box", rfl, Except.bind_eq_ok.mpr ⟨typeI64,
    Except.bind_eq_ok.mpr ⟨typeI64, rfl, Except.bind_eq_ok.mpr ⟨(), valid, rfl⟩⟩, rfl⟩⟩

theorem typeSpec_typeSlice :
    typeSpec plain sliceObjects typeSlice = .ok (.slice staticRegion false typeBox) := by
  rw [typeSlice, (stored_sliceObjects (by simp)).typeSpec fixed_sliceOfBoxes
    (by simp [sliceOfBoxes])]
  have valid : validateTypeHashText "slice element" typeBox = .ok () :=
    if_pos (hasHashPrefix_objectHash ..)
  have region : validateRegionArg staticRegion = .ok () := if_pos (hasHashPrefix_objectHash ..)
  exact Except.bind_eq_ok.mpr ⟨"Slice", rfl, Except.bind_eq_ok.mpr ⟨staticRegion,
    Except.bind_eq_ok.mpr ⟨staticRegion, rfl, Except.bind_eq_ok.mpr ⟨(), region, rfl⟩⟩,
    Except.bind_eq_ok.mpr ⟨false, rfl, Except.bind_eq_ok.mpr ⟨typeBox,
      Except.bind_eq_ok.mpr ⟨typeBox, rfl, Except.bind_eq_ok.mpr ⟨(), valid, rfl⟩⟩, rfl⟩⟩⟩⟩

theorem layoutClassFlagsForType_typeI64 (depth : Nat) {active : List Hash}
    (fresh : typeI64 ∉ active) :
    layoutClassFlagsForType plain sliceObjects .empty (depth + 1) active typeI64 = .ok .copy := by
  rw [layoutClassFlagsForType, if_neg fresh, layoutClassFlagsInner, typeSpecInRoot,
    typeSpec_typeI64]
  rfl

theorem layoutType_typeSlice :
    (layoutType plain sliceObjects .empty linuxTarget 3 [] typeSlice).run [] =
      .ok (⟨.slice staticRegion false 8 ⟨typeBox, 8, 8, 8⟩, 16, 8, .sharedReference⟩, []) := by
  have box : (layoutType plain sliceObjects .empty linuxTarget 2 [typeSlice] typeBox).run [] =
      .ok (⟨.box typeI64, 8, 8, .boxed .copy⟩, []) := by
    rw [layoutType, if_neg (by simpa using typeBox_ne_typeSlice), layoutTypeInner,
      StateT.run_lift_bind_eq_ok]
    refine ⟨_, typeSpec_typeBox, StateT.run_lift_bind_eq_ok.mpr ⟨_, typeSpec_typeI64 _, ?_⟩⟩
    exact StateT.run_lift_bind_eq_ok.mpr
      ⟨_, layoutClassFlagsForType_typeI64 0 List.not_mem_nil, rfl⟩
  rw [layoutType, if_neg List.not_mem_nil, layoutTypeInner, StateT.run_lift_bind_eq_ok]
  exact ⟨_, typeSpec_typeSlice, StateT.run_bind_eq_ok.mpr ⟨_, _, box, rfl⟩⟩

theorem layoutClassFlagsForType_typeSlice :
    layoutClassFlagsForType plain sliceObjects .empty 3 [] typeSlice =
      .ok (LayoutClass.sharedReference.merge (.boxed .copy)) := by
  have other (payload : JsonValue) (fixed : Fixed plain.floatText payload)
      (composite : ∀ kind, payload ≠ .object [("type_kind", .string kind)]) :
      typeI64 ≠ objectHash plain "Type" payload :=
    fun same => composite _ (objectHash_value_inj (fixed_builtin _) fixed same).symm
  have elements : layoutClassFlagsForType plain sliceObjects .empty 1 [typeBox, typeSlice] typeI64 =
      .ok .copy :=
    layoutClassFlagsForType_typeI64 0 (by
      simp [typeBox, typeSlice, other _ fixed_boxOfI64 (by simp [boxOfI64]),
        other _ fixed_sliceOfBoxes (by simp [sliceOfBoxes])])
  have box : layoutClassFlagsForType plain sliceObjects .empty 2 [typeSlice] typeBox =
      .ok (.boxed .copy) := by
    rw [layoutClassFlagsForType, if_neg (by simpa using typeBox_ne_typeSlice)]
    exact Except.bind_eq_ok.mpr ⟨_, Except.bind_eq_ok.mpr ⟨_, typeSpec_typeBox, rfl⟩,
      Except.bind_eq_ok.mpr ⟨_, elements, rfl⟩⟩
  rw [layoutClassFlagsForType, if_neg List.not_mem_nil]
  exact Except.bind_eq_ok.mpr ⟨_, Except.bind_eq_ok.mpr ⟨_, typeSpec_typeSlice, rfl⟩,
    Except.bind_eq_ok.mpr ⟨_, box, rfl⟩⟩

/-- A slice of boxes is a reference when it is laid out, and contains a box inside a box. -/
theorem layoutClass_typeSlice :
    ∃ layout deps c, (layoutType plain sliceObjects .empty linuxTarget 3 [] typeSlice).run [] =
        .ok (layout, deps) ∧
      layoutClassFlagsForType plain sliceObjects .empty 3 [] typeSlice = .ok c ∧
      layout.layoutClass ≠ c :=
  ⟨_, _, _, layoutType_typeSlice, layoutClassFlagsForType_typeSlice, by decide⟩

theorem layoutClass_eq_flags_iff_typeSlice :
    (∃ depth c, layoutClassFlagsForType plain sliceObjects .empty depth [] typeSlice = .ok c) ∧
      ∀ depth c, layoutClassFlagsForType plain sliceObjects .empty depth [] typeSlice = .ok c →
        (LayoutClass.sharedReference = c ↔ ∀ t, HoldsTrait plain sliceObjects .empty typeSlice t →
          Lays plain sliceObjects .empty typeSlice t) :=
  layoutClass_eq_flags_iff layoutType_typeSlice

end CodeDb

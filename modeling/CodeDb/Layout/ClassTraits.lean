import CodeDb.Layout.Layout
import CodeDb.Lib.DepthFirst

/-!
# What classes of types say

The class of a type says what a value of it contains: references, raw pointers, boxes and
owned resources.

## Main definitions

* `ClassTrait`, `TypeSpec.HasTrait` — what the class of a type is made of
* `LayoutClass.Describes` — a class says which traits there are
* `HoldsTrait` — some type that is reached through the parts of a type has a trait
* `Lays` — the same, without the elements of slices in the value

## Main results

* `Describes.eq_iff` — classes are the same if they describe the same traits
* `holdsOutside_iff`, `lays_iff` — one step of the recursions over parts
-/

namespace CodeDb

open DepthFirst

/-! ### What a class says -/

/-- What types contribute to a class. -/
inductive ClassTrait where
  | reference
  | mutReference
  | rawPointer
  | box
  | owned
  deriving DecidableEq

/-- The class says which traits there are. -/
structure LayoutClass.Describes (has : ClassTrait → Prop) (c : LayoutClass) : Prop where
  copyKind : c.copyKind = .moveOnly ↔ has .mutReference ∨ has .owned
  dropKind : c.dropKind = .needsDrop ↔ has .owned
  containsReference : c.containsReference = true ↔ has .reference
  containsMutReference : c.containsMutReference = true ↔ has .mutReference
  containsRawPointer : c.containsRawPointer = true ↔ has .rawPointer
  containsBox : c.containsBox = true ↔ has .box
  containsOwnedResource : c.containsOwnedResource = true ↔ has .owned
  containsCapabilityHandle : c.containsCapabilityHandle = false

namespace LayoutClass

variable {has has' : ClassTrait → Prop} {c d : LayoutClass}

theorem Describes.congr (describes : c.Describes has) (same : ∀ t, has' t ↔ has t) :
    c.Describes has' := by
  have eq : has' = has := funext fun t => propext (same t)
  rwa [eq]

theorem describes_copy : copy.Describes fun _ => False := by
  constructor <;> simp [copy]

theorem describes_borrowed (isMut : Bool) :
    (borrowed isMut).Describes fun t => t = .reference ∨ isMut ∧ t = .mutReference := by
  cases isMut <;> constructor <;> simp [borrowed, mutableReference, sharedReference, copy]

theorem describes_rawPointer : rawPointer.Describes (· = .rawPointer) := by
  constructor <;> simp [rawPointer, copy]

theorem Describes.boxed (describes : c.Describes has) :
    c.boxed.Describes fun t => (t = .box ∨ t = .owned) ∨ has t := by
  constructor <;> simp [LayoutClass.boxed, describes.containsReference,
    describes.containsMutReference, describes.containsRawPointer,
    describes.containsCapabilityHandle]

theorem Describes.ownedBuffer (describes : c.Describes has) :
    c.ownedBuffer.Describes fun t => t = .owned ∨ has t := by
  constructor <;> simp [LayoutClass.ownedBuffer, describes.containsReference,
    describes.containsMutReference, describes.containsRawPointer, describes.containsBox,
    describes.containsCapabilityHandle]

theorem merge_copyKind : (c.merge d).copyKind = .moveOnly ↔
    c.copyKind = .moveOnly ∨ d.copyKind = .moveOnly := by
  simp only [merge]
  cases c.copyKind <;> cases d.copyKind <;> simp

theorem merge_dropKind : (c.merge d).dropKind = .needsDrop ↔
    c.dropKind = .needsDrop ∨ d.dropKind = .needsDrop := by
  simp only [merge]
  split_ifs with needs <;> simp [needs]

theorem Describes.merge (describes : c.Describes has) (describes' : d.Describes has') :
    (c.merge d).Describes fun t => has t ∨ has' t where
  copyKind := by
    rw [merge_copyKind, describes.copyKind, describes'.copyKind]
    tauto
  dropKind := by rw [merge_dropKind, describes.dropKind, describes'.dropKind]
  containsReference := by
    rw [LayoutClass.merge, Bool.or_eq_true, describes.containsReference,
      describes'.containsReference]
  containsMutReference := by
    rw [LayoutClass.merge, Bool.or_eq_true, describes.containsMutReference,
      describes'.containsMutReference]
  containsRawPointer := by
    rw [LayoutClass.merge, Bool.or_eq_true, describes.containsRawPointer,
      describes'.containsRawPointer]
  containsBox := by
    rw [LayoutClass.merge, Bool.or_eq_true, describes.containsBox, describes'.containsBox]
  containsOwnedResource := by
    rw [LayoutClass.merge, Bool.or_eq_true, describes.containsOwnedResource,
      describes'.containsOwnedResource]
  containsCapabilityHandle := by
    rw [LayoutClass.merge, describes.containsCapabilityHandle,
      describes'.containsCapabilityHandle, Bool.or_false]

/-- Classes are the same exactly if they describe the same traits. -/
theorem Describes.eq_iff (describes : c.Describes has) (describes' : d.Describes has') :
    c = d ↔ ∀ t, has t ↔ has' t := by
  constructor
  · rintro rfl t
    cases t with
    | reference => rw [← describes.containsReference, describes'.containsReference]
    | mutReference => rw [← describes.containsMutReference, describes'.containsMutReference]
    | rawPointer => rw [← describes.containsRawPointer, describes'.containsRawPointer]
    | box => rw [← describes.containsBox, describes'.containsBox]
    | owned => rw [← describes.containsOwnedResource, describes'.containsOwnedResource]
  · intro same
    have describes := describes.congr fun t => (same t).symm
    have copyKinds : c.copyKind = d.copyKind := by
      have move := describes.copyKind.trans describes'.copyKind.symm
      cases hc : c.copyKind <;> cases hd : d.copyKind <;> simp_all
    have dropKinds : c.dropKind = d.dropKind := by
      have drop := describes.dropKind.trans describes'.dropKind.symm
      cases hc : c.dropKind <;> cases hd : d.dropKind <;> simp_all
    obtain ⟨_, _, _, _, _, _, _, _⟩ := c
    obtain ⟨_, _, _, _, _, _, _, _⟩ := d
    simp only [LayoutClass.mk.injEq]
    exact ⟨copyKinds, dropKinds,
      Bool.eq_iff_iff.mpr (describes.containsReference.trans describes'.containsReference.symm),
      Bool.eq_iff_iff.mpr
        (describes.containsMutReference.trans describes'.containsMutReference.symm),
      Bool.eq_iff_iff.mpr (describes.containsRawPointer.trans describes'.containsRawPointer.symm),
      Bool.eq_iff_iff.mpr (describes.containsBox.trans describes'.containsBox.symm),
      Bool.eq_iff_iff.mpr
        (describes.containsOwnedResource.trans describes'.containsOwnedResource.symm),
      describes.containsCapabilityHandle.trans describes'.containsCapabilityHandle.symm⟩

end LayoutClass

/-! ### Parts -/

namespace TypeSpec

/-- The types that the class of a type is computed from. -/
def parts : TypeSpec → List Hash
  | .box element | .vec element | .slice _ _ element | .fixedArray element _ => [element]
  | .record members | .enum members => members.map (·.typeHash)
  | _ => []

/-- The parts that lie in a value. -/
def inlineParts : TypeSpec → List Hash
  | .fixedArray element _ => [element]
  | .record members | .enum members => members.map (·.typeHash)
  | _ => []

/-- The parts that a value owns elsewhere. -/
def ownedParts : TypeSpec → List Hash
  | .box element | .vec element => [element]
  | _ => []

/-- What a type contributes by itself. -/
def HasTrait : TypeSpec → ClassTrait → Prop
  | .reference _ isMut _ | .slice _ isMut _ => fun t => t = .reference ∨ isMut ∧ t = .mutReference
  | .rawPointer .. => (· = .rawPointer)
  | .box _ => fun t => t = .box ∨ t = .owned
  | .vec _ | .string => (· = .owned)
  | _ => fun _ => False

end TypeSpec

section Root

variable (P : Primitives) (objects : Objects) (root : ProgramRootPayload)

/-- One type is a part of another. -/
def PartOf (whole part : Hash) : Prop :=
  ∃ spec, typeSpecInRoot P objects root whole = .ok spec ∧ part ∈ spec.parts

/-- A type has a trait by itself. -/
def HasOwn (typeHash : Hash) (t : ClassTrait) : Prop :=
  ∃ spec, typeSpecInRoot P objects root typeHash = .ok spec ∧ spec.HasTrait t

/-- Some type reached through parts, by a path outside a set, has a trait. -/
def HoldsOutside (active : Set Hash) (typeHash : Hash) (t : ClassTrait) : Prop :=
  ∃ part, ReachesOutside (PartOf P objects root) active typeHash part ∧ HasOwn P objects root part t

/-- Some type reached through parts has a trait. -/
def HoldsTrait (typeHash : Hash) (t : ClassTrait) : Prop :=
  ∃ part, Relation.ReflTransGen (PartOf P objects root) typeHash part ∧
    HasOwn P objects root part t

/-- Some type reached through the parts of a value has a trait: through those that lie in
it, and from those that it owns on through any. The elements of a slice that lies in the
value are not parts of it. -/
inductive Lays : Hash → ClassTrait → Prop
  | own {typeHash : Hash} {t : ClassTrait} : HasOwn P objects root typeHash t → Lays typeHash t
  | inline {typeHash part : Hash} {t : ClassTrait} {spec : TypeSpec} :
    typeSpecInRoot P objects root typeHash = .ok spec → part ∈ spec.inlineParts → Lays part t →
    Lays typeHash t
  | owned {typeHash part : Hash} {t : ClassTrait} {spec : TypeSpec} :
    typeSpecInRoot P objects root typeHash = .ok spec → part ∈ spec.ownedParts →
    HoldsTrait P objects root part t → Lays typeHash t

variable {P objects root} {typeHash : Hash} {t : ClassTrait} {spec : TypeSpec} {active : Set Hash}

theorem holdsTrait_iff :
    HoldsTrait P objects root typeHash t ↔ HoldsOutside P objects root ∅ typeHash t := by
  simp only [HoldsTrait, HoldsOutside, reachesOutside_empty]

/-- One step of the recursion over parts. -/
theorem holdsOutside_iff (found : typeSpecInRoot P objects root typeHash = .ok spec)
    (outside : typeHash ∉ active) :
    HoldsOutside P objects root active typeHash t ↔
      spec.HasTrait t ∨
        ∃ part ∈ spec.parts, HoldsOutside P objects root (insert typeHash active) part t := by
  have only : ∀ {spec'}, typeSpecInRoot P objects root typeHash = .ok spec' → spec' = spec :=
    fun found' => Except.ok.inj (found'.symm.trans found)
  simp only [HoldsOutside, reachesOutside_iff outside]
  constructor
  · rintro ⟨part, rfl | ⟨next, ⟨spec', found', listed⟩, path⟩, has⟩
    · obtain ⟨spec', found', has⟩ := has
      exact Or.inl (only found' ▸ has)
    · exact Or.inr ⟨next, only found' ▸ listed, part, path, has⟩
  · rintro (has | ⟨next, listed, part, path, has⟩)
    · exact ⟨typeHash, Or.inl rfl, spec, found, has⟩
    · exact ⟨part, Or.inr ⟨next, ⟨spec, found, listed⟩, path⟩, has⟩

theorem not_holdsOutside (inside : typeHash ∈ active) :
    ¬ HoldsOutside P objects root active typeHash t :=
  fun ⟨_, path, _⟩ => path.start inside

/-- What is laid out is held. -/
theorem Lays.holds (lays : Lays P objects root typeHash t) :
    HoldsTrait P objects root typeHash t := by
  induction lays with
  | own has => exact ⟨_, .refl, has⟩
  | @inline typeHash part t spec found listed _ ih =>
    obtain ⟨last, path, has⟩ := ih
    have isPart : part ∈ spec.parts := by
      cases spec <;> simp_all [TypeSpec.inlineParts, TypeSpec.parts]
    exact ⟨last, .head ⟨spec, found, isPart⟩ path, has⟩
  | @owned typeHash part t spec found listed holds =>
    obtain ⟨last, path, has⟩ := holds
    have isPart : part ∈ spec.parts := by
      cases spec <;> simp_all [TypeSpec.ownedParts, TypeSpec.parts]
    exact ⟨last, .head ⟨spec, found, isPart⟩ path, has⟩

/-- One step of a layout. -/
theorem lays_iff (found : typeSpecInRoot P objects root typeHash = .ok spec) :
    Lays P objects root typeHash t ↔
      spec.HasTrait t ∨ (∃ part ∈ spec.inlineParts, Lays P objects root part t) ∨
        ∃ part ∈ spec.ownedParts, HoldsTrait P objects root part t := by
  have only : ∀ {spec'}, typeSpecInRoot P objects root typeHash = .ok spec' → spec' = spec :=
    fun found' => Except.ok.inj (found'.symm.trans found)
  constructor
  · intro lays
    cases lays with
    | own has =>
      obtain ⟨spec', found', has⟩ := has
      exact Or.inl (only found' ▸ has)
    | inline found' listed lays => exact Or.inr (Or.inl ⟨_, only found' ▸ listed, lays⟩)
    | owned found' listed holds => exact Or.inr (Or.inr ⟨_, only found' ▸ listed, holds⟩)
  · rintro (has | ⟨part, listed, lays⟩ | ⟨part, listed, holds⟩)
    · exact .own ⟨spec, found, has⟩
    · exact .inline found listed lays
    · exact .owned found listed holds

end Root

end CodeDb

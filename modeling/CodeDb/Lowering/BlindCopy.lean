import CodeDb.Layout.Layout

/-!
# Assignability and blind copies

A value can be used at another type than its own: where the types are built alike, member by
member by name, and where a type that is given by its structure is used as a named one. Names
of members are kept, places are not: the fields of a record that is given by its structure
lie in the order of their names, those of a named record as they are declared. So it is checked
of what is copied byte by byte that its parts have the same places under both types.

## Main definitions

* `typeAssignableInRoot` — a type can be used as another one
* `layoutsBlindCopyCompatible` — the bytes of one type can be read at the other one
-/

namespace CodeDb

/-- What a named type can be used as; nothing is said of a type that is not named. -/
def namedActualTypeAssignable : TypeSpec → TypeSpec → Option Bool
  | .named actualSymbol actualArgs actualTypeArgs,
      .named expectedSymbol expectedArgs expectedTypeArgs =>
    some (actualSymbol = expectedSymbol ∧ actualArgs = expectedArgs ∧
      actualTypeArgs = expectedTypeArgs)
  | .named .., _ => some false
  | _, _ => none

/-- Every member that is expected is one of the actual members, and passes a check with it. -/
def everyMember (check : TypeFieldSpec → TypeFieldSpec → Except Error Bool)
    (actual expected : List TypeFieldSpec) : Except Error Bool :=
  expected.allM fun expectedMember =>
    match actual.find? (·.name == expectedMember.name) with
    | none => .ok false
    | some actualMember => check actualMember expectedMember

section Computer

variable (P : Primitives) (objects : Objects) (root : ProgramRootPayload)

/-- A type can be used as another one. The depth bounds how deep the recursion may go. -/
def typeAssignableInRoot : Nat → Hash → Hash → Except Error Bool
  | 0, _, _ => .error "stack overflow"
  | depth + 1, actual, expected =>
    if actual = expected then .ok true
    else do
      let recurse := typeAssignableInRoot depth
      let actualSpec ← typeSpec P objects actual
      let expectedSpec ← typeSpec P objects expected
      match namedActualTypeAssignable actualSpec expectedSpec with
      | some assignable => return assignable
      | none =>
        let actualSpec ← typeSpecInRoot P objects root actual
        let expectedSpec ← typeSpecInRoot P objects root expected
        match actualSpec, expectedSpec with
        | .reference actualRegion actualMutable actualReferent,
            .reference expectedRegion expectedMutable expectedReferent =>
          if actualRegion ≠ expectedRegion ∨ actualMutable ≠ expectedMutable then return false
          else recurse actualReferent expectedReferent
        | .slice actualRegion actualMutable actualElement,
            .slice expectedRegion expectedMutable expectedElement =>
          if actualRegion ≠ expectedRegion ∨ actualMutable ≠ expectedMutable then return false
          else recurse actualElement expectedElement
        | .box actualElement, .box expectedElement => recurse actualElement expectedElement
        | .vec actualElement, .vec expectedElement => recurse actualElement expectedElement
        | .fixedArray actualElement actualLen, .fixedArray expectedElement expectedLen =>
          if actualLen ≠ expectedLen then return false
          else recurse actualElement expectedElement
        | .record actualFields, .record expectedFields
        | .enum actualFields, .enum expectedFields =>
          if actualFields.length ≠ expectedFields.length then return false
          else everyMember (fun a e => recurse a.typeHash e.typeHash) actualFields expectedFields
        | _, _ => return false

/-! ### What lowering reads of layouts -/

variable (stack : Nat) (targetTriple : String)

/-- The layout of a type on a target. The stack bounds how deep its recursion may go. -/
def typeLayout (typeHash : Hash) : Except Error ComputedLayout := do
  return (← computeTypeLayout P objects root stack typeHash targetTriple).layout

def layoutSizeBytes (typeHash : Hash) : Except Error Nat := do
  return (← typeLayout P objects root stack targetTriple typeHash).size

/-- Where a field of a record lies. -/
def layoutFieldOffsetBytes (typeHash : Hash) (field : String) : Except Error Nat := do
  let layout ← typeLayout P objects root stack targetTriple typeHash
  let fields := match layout.details with
    | .record _ _ fields => fields
    | _ => []
  match fields.find? (·.name == field) with
  | some entry => return entry.offset
  | none => .error ("type layout missing offset for field " ++ field)

/-- What a layout says of a variant. -/
def enumVariantLayout (layout : ComputedLayout) (variant : String) :
    Except Error VariantLayout :=
  match layout.details with
  | .enum _ _ _ _ _ _ variants =>
    JsonValue.require ("enum layout missing variant " ++ variant)
      (variants.find? (·.name == variant))
  | _ => .error "type layout metadata must have kind enum"

def scalarLayoutsEqual (src dst : Hash) : Except Error Bool := do
  let srcLayout ← typeLayout P objects root stack targetTriple src
  let dstLayout ← typeLayout P objects root stack targetTriple dst
  return srcLayout.details.kind = dstLayout.details.kind ∧ srcLayout.size = dstLayout.size ∧
    srcLayout.align = dstLayout.align

/-- Two types take up equally many bytes. -/
def sizesEqual (src dst : Hash) : Except Error Bool := do
  let srcSize ← layoutSizeBytes P objects root stack targetTriple src
  let dstSize ← layoutSizeBytes P objects root stack targetTriple dst
  return srcSize = dstSize

/-- The bytes of a value of one type can be read at the other type. The depth bounds how deep
the recursion may go. -/
def layoutsBlindCopyCompatible : Nat → Hash → Hash → Except Error Bool
  | 0, _, _ => .error "stack overflow"
  | depth + 1, src, dst =>
    if src = dst then .ok true
    else do
      let recurse := layoutsBlindCopyCompatible depth
      let srcSpec ← typeSpecInRoot P objects root src
      let dstSpec ← typeSpecInRoot P objects root dst
      match srcSpec, dstSpec with
      | .record srcFields, .record dstFields =>
        if srcFields.length ≠ dstFields.length then return false
        else do
          let fields ← everyMember (fun srcField dstField => do
            let srcOffset ←
              layoutFieldOffsetBytes P objects root stack targetTriple src dstField.name
            let dstOffset ←
              layoutFieldOffsetBytes P objects root stack targetTriple dst dstField.name
            if srcOffset ≠ dstOffset then return false
            else recurse srcField.typeHash dstField.typeHash) srcFields dstFields
          if fields then sizesEqual P objects root stack targetTriple src dst else return false
      | .enum srcVariants, .enum dstVariants =>
        if srcVariants.length ≠ dstVariants.length then return false
        else do
          let srcLayout ← typeLayout P objects root stack targetTriple src
          let dstLayout ← typeLayout P objects root stack targetTriple dst
          let variants ← everyMember (fun srcVariant dstVariant => do
            let srcInfo ← enumVariantLayout srcLayout dstVariant.name
            let dstInfo ← enumVariantLayout dstLayout dstVariant.name
            if srcInfo.tagValue ≠ dstInfo.tagValue ∨ srcInfo.payloadOffset ≠ dstInfo.payloadOffset
            then return false
            else recurse srcVariant.typeHash dstVariant.typeHash) srcVariants dstVariants
          if variants then sizesEqual P objects root stack targetTriple src dst else return false
      | .fixedArray srcElement srcLen, .fixedArray dstElement dstLen =>
        if srcLen ≠ dstLen then return false
        else do
          let elements ← recurse srcElement dstElement
          if elements then sizesEqual P objects root stack targetTriple src dst else return false
      | .box srcElement, .box dstElement => recurse srcElement dstElement
      | .record _, _ | _, .record _ | .enum _, _ | _, .enum _ | .fixedArray .., _
      | _, .fixedArray .. | .box _, _ | _, .box _ => return false
      | _, _ => scalarLayoutsEqual P objects root stack targetTriple src dst

end Computer

end CodeDb

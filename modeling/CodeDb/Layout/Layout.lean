import CodeDb.Language.Types

/-!
# Type layouts

The layout of a type gives its size and alignment, the places of its parts, and its class:
whether values of it are copied or moved, whether they need to be dropped, and what they
contain. Sizes are computed in 64 bits, and an addition or a multiplication that may leave
them is checked.

The class of what a box or a vector holds is computed by a recursion of its own, which has
no sizes and is cut where it comes back to a type.

## Main definitions

* `LayoutClass` — the class of a type
* `ComputedLayout` — a layout, and `ComputedLayout.metadata` what is stored of it
* `layoutClassFlagsForType` — the class of a type without its layout
* `layoutType` — the layout of a type
-/

namespace CodeDb

open SortOn

/-! ### Classes -/

inductive CopyKind where
  | copy
  | moveOnly
  deriving DecidableEq, Repr

def CopyKind.asStr : CopyKind → String
  | .copy => "copy"
  | .moveOnly => "move_only"

inductive DropKind where
  | trivial
  | needsDrop
  deriving DecidableEq, Repr

def DropKind.asStr : DropKind → String
  | .trivial => "trivial"
  | .needsDrop => "needs_drop"

/-- How values of a type are owned. -/
structure LayoutClass where
  copyKind : CopyKind
  dropKind : DropKind
  containsReference : Bool
  containsMutReference : Bool
  containsRawPointer : Bool
  containsBox : Bool
  containsOwnedResource : Bool
  containsCapabilityHandle : Bool
  deriving DecidableEq, Repr

namespace LayoutClass

def copy : LayoutClass where
  copyKind := .copy
  dropKind := .trivial
  containsReference := false
  containsMutReference := false
  containsRawPointer := false
  containsBox := false
  containsOwnedResource := false
  containsCapabilityHandle := false

def sharedReference : LayoutClass := { copy with containsReference := true }

def mutableReference : LayoutClass :=
  { copy with copyKind := .moveOnly, containsReference := true, containsMutReference := true }

/-- The class of a reference or a slice. -/
def borrowed (isMut : Bool) : LayoutClass := if isMut then mutableReference else sharedReference

def rawPointer : LayoutClass := { copy with containsRawPointer := true }

/-- The class of a box around a payload. -/
def boxed (payload : LayoutClass) : LayoutClass :=
  { payload with
    copyKind := .moveOnly, dropKind := .needsDrop, containsBox := true
    containsOwnedResource := true }

/-- The class of a growable buffer of elements. -/
def ownedBuffer (payload : LayoutClass) : LayoutClass :=
  { payload with copyKind := .moveOnly, dropKind := .needsDrop, containsOwnedResource := true }

/-- The class of what has parts of both classes. -/
def merge (a b : LayoutClass) : LayoutClass where
  copyKind := if a.copyKind = .copy ∧ b.copyKind = .copy then .copy else .moveOnly
  dropKind := if a.dropKind = .needsDrop ∨ b.dropKind = .needsDrop then .needsDrop else .trivial
  containsReference := a.containsReference || b.containsReference
  containsMutReference := a.containsMutReference || b.containsMutReference
  containsRawPointer := a.containsRawPointer || b.containsRawPointer
  containsBox := a.containsBox || b.containsBox
  containsOwnedResource := a.containsOwnedResource || b.containsOwnedResource
  containsCapabilityHandle := a.containsCapabilityHandle || b.containsCapabilityHandle

end LayoutClass

/-! ### Layouts -/

/-- What a target prescribes. -/
structure TargetLayout where
  pointerSize : Nat
  pointerAlign : Nat
  enumTagSize : Nat
  enumTagAlign : Nat
  deriving DecidableEq

def linuxX8664Target : String := "x86_64-unknown-linux-gnu"

def appleArm64Target : String := "aarch64-apple-darwin"

def targetLayout (targetTriple : String) : Except Error TargetLayout :=
  if targetTriple = linuxX8664Target ∨ targetTriple = appleArm64Target then
    .ok { pointerSize := 8, pointerAlign := 8, enumTagSize := 8, enumTagAlign := 8 }
  else
    .error ("unsupported layout target " ++ targetTriple ++ "; supported targets: " ++
      linuxX8664Target ++ ", " ++ appleArm64Target)

/-- A field or a variant that is to be laid out. -/
structure LayoutMember where
  symbol : Option Hash
  name : String
  typeHash : Hash

/-- The place of a field in a record. -/
structure FieldLayout where
  symbol : Option Hash
  name : String
  typeHash : Hash
  offset : Nat
  size : Nat
  align : Nat
  deriving DecidableEq

/-- The tag of a variant, and the place of its payload. -/
structure VariantLayout where
  symbol : Option Hash
  name : String
  typeHash : Hash
  tagValue : Nat
  payloadOffset : Nat
  payloadSize : Nat
  payloadAlign : Nat
  deriving DecidableEq

/-- The elements behind a pointer or in an array. -/
structure ElementLayout where
  typeHash : Hash
  size : Nat
  align : Nat
  stride : Nat
  deriving DecidableEq

/-- What a layout says beyond size, alignment and class. -/
inductive LayoutDetails where
  | scalar
  | reference (region : Hash) (isMut : Bool) (referent : Hash)
  | rawPointer (isMut : Bool) (pointee : Hash)
  | box (element : Hash)
  | vec (lenOffset capacityOffset : Nat) (element : ElementLayout)
  | string (lenOffset capacityOffset : Nat) (element : ElementLayout)
  | slice (region : Hash) (isMut : Bool) (lenOffset : Nat) (element : ElementLayout)
  | fixedArray (len : Nat) (element : ElementLayout)
  | record (typeSymbol typeDef : Option Hash) (fields : List FieldLayout)
  | enum (typeSymbol typeDef : Option Hash) (tagSize tagAlign payloadOffset payloadSize : Nat)
      (variants : List VariantLayout)
  deriving DecidableEq

structure ComputedLayout where
  details : LayoutDetails
  size : Nat
  align : Nat
  layoutClass : LayoutClass
  deriving DecidableEq

/-! ### What is stored of a layout -/

private def jsonNat (n : Nat) : JsonValue := .number (.posInt (.ofNat n))

/-- An entry under a key for what may be missing. -/
private def optionEntry (key : String) (value : Option Hash) : List (String × JsonValue) :=
  (value.map fun hash => (key, .string hash)).toList

/-- How values of a kind and a size are passed and returned. -/
def abiMetadata (kind : String) (size : Nat) : JsonValue :=
  if kind = "record" ∧ size ≤ 8 then
    .object [("pass", .string "by_value"), ("return", .string "by_value")]
  else if kind ∈ ["record", "enum", "fixed_array", "slice", "vec", "string"] then
    .object [("pass", .string "by_indirect"), ("return", .string "hidden_return_slot")]
  else .object [("pass", .string "by_value"), ("return", .string "by_value")]

namespace LayoutDetails

def kind : LayoutDetails → String
  | .scalar => "scalar"
  | .reference .. => "reference"
  | .rawPointer .. => "raw_pointer"
  | .box _ => "box"
  | .vec .. => "vec"
  | .string .. => "string"
  | .slice .. => "slice"
  | .fixedArray .. => "fixed_array"
  | .record .. => "record"
  | .enum .. => "enum"

private def elementEntries (strideKey : String) (element : ElementLayout) :
    List (String × JsonValue) :=
  [("element_type_hash", .string element.typeHash), ("element_size_bytes", jsonNat element.size),
    ("element_align_bytes", jsonNat element.align), (strideKey, jsonNat element.stride)]

private def fieldValue (f : FieldLayout) : JsonValue :=
  .object (sortOn (·.1) (optionEntry "field_symbol" f.symbol ++
    [("name", .string f.name), ("type_hash", .string f.typeHash),
      ("offset_bytes", jsonNat f.offset), ("size_bytes", jsonNat f.size),
      ("align_bytes", jsonNat f.align)]))

private def variantValue (v : VariantLayout) : JsonValue :=
  .object (sortOn (·.1) (optionEntry "variant_symbol" v.symbol ++
    [("name", .string v.name), ("type_hash", .string v.typeHash), ("tag_value", jsonNat v.tagValue),
      ("payload_offset_bytes", jsonNat v.payloadOffset),
      ("payload_size_bytes", jsonNat v.payloadSize),
      ("payload_align_bytes", jsonNat v.payloadAlign)]))

/-- The entries of the metadata that only layouts of one kind have. -/
def entries : LayoutDetails → List (String × JsonValue)
  | .scalar => []
  | .reference region isMut referent =>
    [("region", .string region), ("mutable", .bool isMut), ("referent_type_hash", .string referent)]
  | .rawPointer isMut pointee =>
    [("mutable", .bool isMut), ("pointee_type_hash", .string pointee)]
  | .box element => [("element_type_hash", .string element)]
  | .vec lenOffset capacityOffset element | .string lenOffset capacityOffset element =>
    [("ptr_offset_bytes", jsonNat 0), ("len_offset_bytes", jsonNat lenOffset),
      ("capacity_offset_bytes", jsonNat capacityOffset)] ++
      elementEntries "element_stride_bytes" element
  | .slice region isMut lenOffset element =>
    [("region", .string region), ("mutable", .bool isMut), ("ptr_offset_bytes", jsonNat 0),
      ("len_offset_bytes", jsonNat lenOffset)] ++ elementEntries "element_stride_bytes" element
  | .fixedArray len element => ("len", jsonNat len) :: elementEntries "stride_bytes" element
  | .record typeSymbol typeDef fields =>
    optionEntry "type_symbol" typeSymbol ++ optionEntry "type_def_hash" typeDef ++
      [("fields", .array (fields.map fieldValue))]
  | .enum typeSymbol typeDef tagSize tagAlign payloadOffset payloadSize variants =>
    optionEntry "type_symbol" typeSymbol ++ optionEntry "type_def_hash" typeDef ++
      [("tag", .object [("align_bytes", jsonNat tagAlign), ("offset_bytes", jsonNat 0),
          ("size_bytes", jsonNat tagSize), ("type", .string "u64")]),
        ("payload_offset_bytes", jsonNat payloadOffset),
        ("payload_size_bytes", jsonNat payloadSize),
        ("variants", .array (variants.map variantValue))]

end LayoutDetails

/-- The entries of the metadata that every layout has. -/
def baseMetadata (targetTriple : String) (typeHash : Hash) (kind : String) (size align : Nat)
    (layoutClass : LayoutClass) : List (String × JsonValue) :=
  [("schema", .string "codedb/type-layout/v2"), ("type_hash", .string typeHash),
    ("target_triple", .string targetTriple), ("layout_version", .string "layout:v2"),
    ("abi_version", .string "codedb-v0-internal"), ("kind", .string kind),
    ("size_bytes", jsonNat size), ("align_bytes", jsonNat align),
    ("copy_kind", .string layoutClass.copyKind.asStr),
    ("drop_kind", .string layoutClass.dropKind.asStr),
    ("contains_reference", .bool layoutClass.containsReference),
    ("contains_mut_reference", .bool layoutClass.containsMutReference),
    ("contains_raw_pointer", .bool layoutClass.containsRawPointer),
    ("contains_box", .bool layoutClass.containsBox),
    ("contains_owned_resource", .bool layoutClass.containsOwnedResource),
    ("contains_capability_handle", .bool layoutClass.containsCapabilityHandle),
    ("abi", abiMetadata kind size)]

/-- The metadata of a layout, with the definitions of types that it depends on. -/
def ComputedLayout.metadata (layout : ComputedLayout) (targetTriple : String) (typeHash : Hash)
    (dependencies : List Hash) : JsonValue :=
  .object (sortOn (·.1) (baseMetadata targetTriple typeHash layout.details.kind layout.size
    layout.align layout.layoutClass ++ layout.details.entries ++
    [("type_dependency_hashes", .array (dependencies.map .string))]))

/-! ### Arithmetic -/

/-- The numbers sizes are computed in. -/
def wrapU64 (n : Nat) : Nat := n % 2 ^ 64

def checkedAdd (overflow : Error) (a b : Nat) : Except Error Nat :=
  if a + b < 2 ^ 64 then .ok (a + b) else .error overflow

def checkedMul (overflow : Error) (a b : Nat) : Except Error Nat :=
  if a * b < 2 ^ 64 then .ok (a * b) else .error overflow

def alignUp (value align : Nat) : Except Error Nat :=
  if align = 0 then .error "layout alignment must not be zero"
  else do
    let rounded ← checkedAdd "layout alignment overflows" value (align - 1)
    return wrapU64 (rounded / align * align)

/-! ### The recursions -/

def structuralMembers (fields : List TypeFieldSpec) : List LayoutMember :=
  fields.map fun f => ⟨none, f.name, f.typeHash⟩

/-- The members of a definition at the types they expand to. -/
def membersWithExpandedTypes (label : String) (members : List TypeMemberDef)
    (expanded : List TypeFieldSpec) : Except Error (List LayoutMember) :=
  if members.length ≠ expanded.length then .error (label ++ " expansion changed member count")
  else (members.zip expanded).mapM fun (member, expanded) =>
    if member.name ≠ expanded.name then
      .error (label ++ " expansion order mismatch: expected " ++ member.name ++ ", got " ++
        expanded.name)
    else .ok ⟨some member.memberSymbol, member.name, expanded.typeHash⟩

/-- Computations that collect the definitions of types that a layout depends on. -/
abbrev LayoutM (α : Type) : Type := StateT (List Hash) (Except Error) α

section Computer

variable (P : Primitives) (objects : Objects) (root : ProgramRootPayload)

/-- The class of a type: what its parts make of it. -/
def layoutClassFlagsInner (recurse : Hash → Except Error LayoutClass) (typeHash : Hash) :
    Except Error LayoutClass := do
  match ← typeSpecInRoot P objects root typeHash with
  | .builtin _ | .named .. => return .copy
  | .typeParam index => .error ("cannot compute layout of type parameter " ++ toString index)
  | .reference _ isMut _ => return .borrowed isMut
  | .rawPointer .. => return .rawPointer
  | .box element => do return .boxed (← recurse element)
  | .vec element => do return .ownedBuffer (← recurse element)
  | .string => return .ownedBuffer .copy
  | .slice _ isMut element => do return (LayoutClass.borrowed isMut).merge (← recurse element)
  | .fixedArray element _ => recurse element
  | .record members | .enum members =>
    members.foldlM (fun c member => do return c.merge (← recurse member.typeHash)) .copy

/-- The class of a type without its layout, cut where it comes back to a type that is being
classified. The depth bounds how deep the recursion may go. -/
def layoutClassFlagsForType : Nat → List Hash → Hash → Except Error LayoutClass
  | 0, _, _ => .error "stack overflow"
  | depth + 1, active, typeHash =>
    if typeHash ∈ active then .ok .copy
    else layoutClassFlagsInner P objects root
      (layoutClassFlagsForType depth (typeHash :: active)) typeHash

variable (target : TargetLayout)

def layoutBuiltin (typeHash : Hash) (kind : String) : Except Error ComputedLayout :=
  match scalarIntTypeByHash P typeHash with
  | some int => .ok ⟨.scalar, int.width, int.width, .copy⟩
  | none =>
    if typeHash = typeHashFor P "Bool" then .ok ⟨.scalar, 1, 1, .copy⟩
    else if typeHash = typeHashFor P "Unit" then .ok ⟨.scalar, 0, 1, .copy⟩
    else .error ("unknown builtin type kind " ++ kind)

/-- Elements one behind the other. -/
def elementLayout (typeHash : Hash) (layout : ComputedLayout) : Except Error ElementLayout := do
  return ⟨typeHash, layout.size, layout.align, ← alignUp layout.size layout.align⟩

/-- A record that is laid out up to some field. -/
structure RecordProgress where
  offset : Nat
  size : Nat
  align : Nat
  layoutClass : LayoutClass
  fields : List FieldLayout

/-- Lay out the next field. -/
def layoutField (recurse : Hash → LayoutM ComputedLayout) (typeHash : Hash)
    (progress : RecordProgress) (field : LayoutMember) : LayoutM RecordProgress := do
  let layout ← recurse field.typeHash
  let offset ← alignUp progress.offset layout.align
  let size ← checkedAdd ("record layout overflows for " ++ typeHash) offset layout.size
  return {
    offset := size
    size := size
    align := max progress.align layout.align
    layoutClass := progress.layoutClass.merge layout.layoutClass
    fields := progress.fields ++
      [⟨field.symbol, field.name, field.typeHash, offset, layout.size, layout.align⟩] }

def layoutRecord (recurse : Hash → LayoutM ComputedLayout) (typeHash : Hash)
    (typeSymbol typeDef : Option Hash) (fields : List LayoutMember) : LayoutM ComputedLayout := do
  let progress ← fields.foldlM (layoutField recurse typeHash) ⟨0, 0, 1, .copy, []⟩
  let size ← alignUp progress.size progress.align
  return ⟨.record typeSymbol typeDef progress.fields, size, progress.align, progress.layoutClass⟩

/-- The payloads of an enum that are laid out so far. -/
structure PayloadProgress where
  size : Nat
  align : Nat
  layoutClass : LayoutClass
  layouts : List ComputedLayout

/-- Lay out the next payload. -/
def layoutPayload (recurse : Hash → LayoutM ComputedLayout) (progress : PayloadProgress)
    (variant : LayoutMember) : LayoutM PayloadProgress := do
  let layout ← recurse variant.typeHash
  return {
    size := max progress.size layout.size
    align := max progress.align layout.align
    layoutClass := progress.layoutClass.merge layout.layoutClass
    layouts := progress.layouts ++ [layout] }

/-- Variants with their tags: the tag of a variant is its position. -/
def variantLayouts (variants : List LayoutMember) (layouts : List ComputedLayout)
    (payloadOffset : Nat) : List VariantLayout :=
  (variants.zip layouts).zipIdx.map fun ((variant, layout), idx) =>
    ⟨variant.symbol, variant.name, variant.typeHash, idx, payloadOffset, layout.size, layout.align⟩

def layoutEnum (recurse : Hash → LayoutM ComputedLayout) (typeHash : Hash)
    (typeSymbol typeDef : Option Hash) (variants : List LayoutMember) :
    LayoutM ComputedLayout := do
  let payload ← variants.foldlM (layoutPayload recurse) ⟨0, 1, .copy, []⟩
  let align := max target.enumTagAlign payload.align
  let payloadOffset ← alignUp target.enumTagSize payload.align
  let unaligned ← checkedAdd ("enum layout overflows for " ++ typeHash) payloadOffset payload.size
  let size ← alignUp unaligned align
  return ⟨.enum typeSymbol typeDef target.enumTagSize target.enumTagAlign payloadOffset payload.size
    (variantLayouts variants payload.layouts payloadOffset), size, align, payload.layoutClass⟩

/-- The layout of a named type, of the members of its definition. -/
def layoutNamed (recurse : Hash → LayoutM ComputedLayout) (typeHash typeSymbol : Hash)
    (regionArgs typeArgs : List Hash) : LayoutM ComputedLayout := do
  let entry ← JsonValue.require ("named type missing from root " ++ typeSymbol)
    (rootType root typeSymbol)
  let definition ← typeDefinition P objects entry.typeDef
  let body := definition.body
  if body.regionParams.length ≠ regionArgs.length then
    throw ("named type " ++ typeSymbol ++ " expects " ++ toString body.regionParams.length ++
      " region args, got " ++ toString regionArgs.length)
  else if body.typeParams.length ≠ typeArgs.length then
    throw ("named type " ++ typeSymbol ++ " expects " ++ toString body.typeParams.length ++
      " type args, got " ++ toString typeArgs.length)
  else do
    modify (entry.typeDef :: ·)
    match definition with
    | .record _ => do
      match ← typeSpecInRoot P objects root typeHash with
      | .record expanded =>
        let fields ← membersWithExpandedTypes "record field" body.members expanded
        layoutRecord recurse typeHash (some typeSymbol) (some entry.typeDef) fields
      | _ => throw "named record did not expand to record layout members"
    | .enum _ => do
      match ← typeSpecInRoot P objects root typeHash with
      | .enum expanded =>
        let variants ← membersWithExpandedTypes "enum variant" body.members expanded
        layoutEnum target recurse typeHash (some typeSymbol) (some entry.typeDef) variants
      | _ => throw "named enum did not expand to enum layout members"

/-- The size and the place of the length in what begins with a pointer and goes on with a
length and `rest` more bytes. -/
def bufferLayout (overflow : Error) (rest : Nat) : Except Error (Nat × Nat) := do
  let lenOffset ← alignUp target.pointerSize 8
  return (← checkedAdd overflow lenOffset rest, lenOffset)

/-- The layout of a type, given those of its parts. -/
def layoutTypeInner (recurse : Hash → LayoutM ComputedLayout)
    (flags : Hash → Except Error LayoutClass) (typeHash : Hash) : LayoutM ComputedLayout := do
  let pointer (details : LayoutDetails) (layoutClass : LayoutClass) : ComputedLayout :=
    ⟨details, target.pointerSize, target.pointerAlign, layoutClass⟩
  let spec ← typeSpec P objects typeHash
  match spec with
  | .builtin kind => layoutBuiltin P typeHash kind
  | .typeParam index => throw ("cannot lay out type parameter " ++ toString index)
  | .named typeSymbol regionArgs typeArgs =>
    layoutNamed P objects root target recurse typeHash typeSymbol regionArgs typeArgs
  | .reference region isMut referent => do
    let _ ← typeSpec P objects referent
    return pointer (.reference region isMut referent) (.borrowed isMut)
  | .rawPointer isMut pointee => do
    let _ ← typeSpec P objects pointee
    return pointer (.rawPointer isMut pointee) .rawPointer
  | .box element => do
    let _ ← typeSpec P objects element
    let payload ← flags element
    return pointer (.box element) (.boxed payload)
  | .vec element => do
    let layout ← recurse element
    let payload ← flags element
    let (size, lenOffset) ← bufferLayout target ("vec layout overflows for " ++ typeHash) 16
    return ⟨.vec lenOffset (wrapU64 (lenOffset + 8)) (← elementLayout element layout), size,
      max target.pointerAlign 8, .ownedBuffer payload⟩
  | .string => do
    let element := typeHashFor P "U8"
    let layout ← recurse element
    let (size, lenOffset) ← bufferLayout target ("string layout overflows for " ++ typeHash) 16
    return ⟨.string lenOffset (wrapU64 (lenOffset + 8)) (← elementLayout element layout), size,
      max target.pointerAlign 8, .ownedBuffer .copy⟩
  | .slice region isMut element => do
    let layout ← recurse element
    let (size, lenOffset) ← bufferLayout target ("slice layout overflows for " ++ typeHash) 8
    return ⟨.slice region isMut lenOffset (← elementLayout element layout), size,
      max target.pointerAlign 8, .borrowed isMut⟩
  | .fixedArray element len => do
    let layout ← recurse element
    let elements ← elementLayout element layout
    let size ← checkedMul ("fixed array layout overflows for " ++ typeHash) elements.stride len
    return ⟨.fixedArray len elements, size, layout.align, layout.layoutClass⟩
  | .record fields => layoutRecord recurse typeHash none none (structuralMembers fields)
  | .enum variants => layoutEnum target recurse typeHash none none (structuralMembers variants)

/-- The layout of a type that is not being laid out already. The depth bounds how deep the
recursion may go. -/
def layoutType : Nat → List Hash → Hash → LayoutM ComputedLayout
  | 0, _, _ => throw "stack overflow"
  | depth + 1, active, typeHash =>
    if typeHash ∈ active then throw ("recursive type layout is not supported for " ++ typeHash)
    else layoutTypeInner P objects root target (layoutType depth (typeHash :: active))
      (layoutClassFlagsForType P objects root depth []) typeHash

end Computer

/-- What is computed for a type on a target: its layout, the metadata that are stored of it, and
the definitions of types that it depends on. -/
structure TypeLayoutResult where
  layout : ComputedLayout
  metadata : JsonValue
  dependencyTypeDefHashes : List Hash

/-- The layout of a type on a target. The depth bounds how deep the recursion may go. -/
def computeTypeLayout (P : Primitives) (objects : Objects) (root : ProgramRootPayload) (depth : Nat)
    (typeHash : Hash) (targetTriple : String) : Except Error TypeLayoutResult := do
  let target ← targetLayout targetTriple
  let (layout, dependencies) ← (layoutType P objects root target depth [] typeHash).run []
  let dependencies := sortedSet dependencies
  return ⟨layout, layout.metadata targetTriple typeHash dependencies, dependencies⟩

end CodeDb

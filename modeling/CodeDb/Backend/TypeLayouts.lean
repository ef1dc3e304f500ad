import CodeDb.Language.Types
import CodeDb.Lowering.Ir

/-!
# Type layouts in the backend

The backend reads how wide the types of a function are, and how they are passed, from the
layouts that come with the function. A map from hashes to layouts is the list of them.

## Main definitions

* `nativeTypeLayouts`, `nativeTypeLayout` — the layouts of a function, and one of them
* `nativePassesIndirect`, `nativeReturnsIndirect` — what is passed and returned in memory
* `nativeSupportedType`, `nativeLayoutCompatible`, `nativeCaseArmLayout` — checks of layouts
* `nativeStackSlotSizeBytes` — the width of the stack slot of a type
-/

namespace CodeDb

deriving instance DecidableEq for LoweredTypeAbi

/-- A check that fails with a message. -/
def bailIf (bad : Bool) (message : Error) : Except Error Unit :=
  if bad then .error message else .ok ()

theorem bailIf_eq_ok {bad : Bool} {message : Error} :
    bailIf bad message = .ok () ↔ bad = false := by
  cases bad <;> simp [bailIf]

/-- The layouts, unless two are of the same type. -/
def insertLayouts : List LoweredTypeLayout → List LoweredTypeLayout →
    Except Error (List LoweredTypeLayout)
  | layouts, [] => .ok layouts
  | layouts, layout :: rest =>
    if layouts.any (·.typeHash == layout.typeHash) then
      .error ("duplicate native type layout " ++ layout.typeHash)
    else insertLayouts (layouts ++ [layout]) rest

def nativeTypeLayouts (ir : LoweredFunctionIr) : Except Error (List LoweredTypeLayout) :=
  insertLayouts [] ir.typeLayouts

theorem insertLayouts_eq_ok {layouts rest all : List LoweredTypeLayout}
    (inserted : insertLayouts layouts rest = .ok all) : all = layouts ++ rest := by
  induction rest generalizing layouts with
  | nil =>
    rw [insertLayouts, Except.ok.injEq] at inserted
    rw [← inserted, List.append_nil]
  | cons layout rest ih =>
    rw [insertLayouts] at inserted
    split at inserted
    · cases inserted
    · rw [ih inserted, List.append_assoc, List.singleton_append]

/-- The map of the layouts has those that the function lists. -/
theorem nativeTypeLayouts_eq_ok {ir : LoweredFunctionIr} {layouts : List LoweredTypeLayout}
    (read : nativeTypeLayouts ir = .ok layouts) : layouts = ir.typeLayouts :=
  insertLayouts_eq_ok read

section Layouts

variable (layouts : List LoweredTypeLayout)

def nativeTypeLayout (typeHash : Hash) : Except Error LoweredTypeLayout :=
  match layouts.find? (·.typeHash == typeHash) with
  | some layout => .ok layout
  | none => .error ("native object backend missing type layout for " ++ typeHash)

def nativePassesIndirect (typeHash : Hash) : Except Error Bool := do
  return (← nativeTypeLayout layouts typeHash).abi.pass == "by_indirect"

def nativeReturnsIndirect (typeHash : Hash) : Except Error Bool := do
  return (← nativeTypeLayout layouts typeHash).abi.return_ == "hidden_return_slot"

def nativeTypeSize (typeHash : Hash) : Except Error UInt64 := do
  return (← nativeTypeLayout layouts typeHash).sizeBytes

def nativeSupportedType (P : Primitives) (typeHash : Hash) : Except Error Unit :=
  if typeHash == typeHashFor P "I64" || typeHash == typeHashFor P "Bool" ||
      typeHash == typeHashFor P "Unit" then .ok ()
  else if (scalarIntTypeByHash P typeHash).isSome then .ok ()
  else do
    let layout ← nativeTypeLayout layouts typeHash
    bailIf (!(["scalar", "record", "enum", "fixed_array", "slice", "reference", "raw_pointer",
      "box", "vec", "string"].contains layout.kind))
      ("native object backend v0 does not support native values of " ++ layout.kind ++ " type")

/-- A layout of a supported kind makes a type supported. -/
theorem nativeSupportedType_of_layout {P : Primitives} {typeHash : Hash}
    {layout : LoweredTypeLayout} (found : nativeTypeLayout layouts typeHash = .ok layout)
    (supported : layout.kind ∈ ["scalar", "record", "enum", "fixed_array", "slice", "reference",
      "raw_pointer", "box", "vec", "string"]) :
    nativeSupportedType layouts P typeHash = .ok () := by
  rw [nativeSupportedType]
  split
  · rfl
  · split
    · rfl
    · rw [found]
      exact bailIf_eq_ok.mpr (by rw [List.contains_iff_mem.mpr supported]; rfl)

def nativeCaseArmLayout (enumTypeHash : Hash) : LoweredCaseArm → Except Error Unit
  | .mk _ _ _ payloadTypeHash payloadOffsetBytes _ => do
    let layout ← nativeTypeLayout layouts enumTypeHash
    bailIf (layout.kind != "enum")
      ("native object backend expected enum layout for " ++ enumTypeHash)
    bailIf (layout.sizeBytes < payloadOffsetBytes)
      "native object backend saw enum payload offset outside layout"
    let payload ← nativeTypeLayout layouts payloadTypeHash
    bailIf (layout.sizeBytes < payloadOffsetBytes + payload.sizeBytes)
      "native object backend saw enum payload outside layout bounds"

def nativeLayoutCompatible (actual expected : Hash) : Except Error Bool :=
  if actual == expected then .ok true
  else do
    let actual ← nativeTypeLayout layouts actual
    let expected ← nativeTypeLayout layouts expected
    if ["vec", "string"].contains actual.kind || ["vec", "string"].contains expected.kind then
      return false
    else
      return actual.kind == expected.kind && actual.sizeBytes == expected.sizeBytes &&
        actual.alignBytes == expected.alignBytes && actual.abi == expected.abi

end Layouts

def nativeLayoutString (layout : LoweredTypeLayout) (key : String) : Except Error String :=
  JsonValue.require ("native type layout " ++ layout.typeHash ++ " missing string " ++ key)
    (JsonValue.asStr? (layout.metadata.get? key))

/-- Whether a layout of a pointer says that the pointer is mutable. -/
def nativeLayoutMutable (layout : LoweredTypeLayout) (missing : Error) : Except Error Bool :=
  JsonValue.require missing (JsonValue.asBool? (layout.metadata.get? "mutable"))

/-- The size of a type is rounded up to eights, in the width of a machine word. -/
def nativeStackSlotSizeBytes (layoutSizeBytes : UInt64) : UInt64 :=
  let atLeast := max layoutSizeBytes 1
  (atLeast / 8 + if 0 < atLeast % 8 then 1 else 0) * 8

end CodeDb

import CodeDb.Backend.TypeLayouts

/-!
# Stack frames

The backend keeps every value in a slot of its own on the stack. From one end of the frame on
there are the hidden return slot, the parameters, the copies of parameters that are passed in
memory, the locals, and the values. Offsets have 32 bits: on x86-64 they are signed and go down
from the frame pointer, and on arm64 they are unsigned and go up from the stack pointer. A
release build does not check that they do not wrap.

## Main definitions

* `collectValueIds` — the names of the values of a function
* `NativeTarget` — how offsets are calculated for a target
* `StackLayout.new`, `Arm64StackLayout.new` — the frame of a function
* `compileStackLayout` — the frame that code is emitted for
-/

namespace CodeDb

/-! ### The values of a function -/

namespace LoweredOp

/-- The name of the value that an operation defines. -/
def valueId? : LoweredOp → Option String
  | .param id .. | .constI64 id .. | .constBool id .. | .constUnit id .. | .unary id ..
  | .intCast id .. | .binary id .. | .call id .. | .if_ id .. | .case id .. | .fold id ..
  | .loop id .. | .borrowShared id .. | .borrowMut id .. | .derefShared id .. | .derefMut id ..
  | .derefBox id .. | .unboxMove id .. | .heapAlloc id .. | .ptrCast id .. | .derefRaw id ..
  | .addrOfParam id .. | .addrOfLocal id .. | .addrOfField id .. | .addrOfEnumPayload id ..
  | .addrOfIndex id .. | .staticDataAddress id .. | .constructSlice id .. | .sliceLen id ..
  | .sliceData id .. | .vecNew id .. | .vecPush id .. | .vecGet id .. | .vecLen id ..
  | .stringNew id .. | .stringLen id .. | .stringWithCapacity id .. | .stringPush id ..
  | .stringGet id .. | .stringSet id .. | .argCount id .. | .argLen id .. | .argByte id ..
  | .boundsCheck id .. | .sliceRangeCheck id .. | .loadEnumTag id .. | .load id ..
  | .copy id .. | .move id .. => some id
  | .store .. | .storeEnumTag .. | .drop .. | .freeBoxShell .. | .borrowDebug .. | .return_ ..
  | .earlyReturn .. => none

end LoweredOp

def pushValueId (ids : List String) (id : String) : Except Error (List String) :=
  if id ∈ ids then .error ("duplicate lowered value id " ++ id) else .ok (ids ++ [id])

/-- The name that an operation defines, if it defines one. -/
def pushDefined (ids : List String) : Option String → Except Error (List String)
  | some id => pushValueId ids id
  | none => .ok ids

mutual

/-- The names that operations define, after those that there are. -/
def collectValueIds (ids : List String) : List LoweredOp → Except Error (List String)
  | [] => .ok ids
  | op :: operations => do
    let ids ← pushDefined ids op.valueId?
    let ids ← collectBlockIds ids op
    collectValueIds ids operations

def collectBlockIds (ids : List String) : LoweredOp → Except Error (List String)
  | .if_ _ _ (.mk thenOps _) (.mk elseOps _) _ => do
    let ids ← collectValueIds ids thenOps
    collectValueIds ids elseOps
  | .case _ _ _ arms _ => collectArmIds ids arms
  | .fold _ _ _ _ _ _ _ _ (.mk bodyOps _) _ _ _ => collectValueIds ids bodyOps
  | .loop _ _ _ (.mk condOps _) (.mk bodyOps _) _ _ => do
    let ids ← collectValueIds ids condOps
    collectValueIds ids bodyOps
  | _ => .ok ids

def collectArmIds (ids : List String) : List LoweredCaseArm → Except Error (List String)
  | [] => .ok ids
  | .mk _ _ _ _ _ (.mk operations _) :: arms => do
    let ids ← collectValueIds ids operations
    collectArmIds ids arms

end

/-! ### Targets -/

abbrev Word32 := BitVec 32

inductive NativeTarget where
  | x86_64
  | arm64
  deriving DecidableEq

namespace NativeTarget

def nativeMaxMachineParams : NativeTarget → Nat
  | x86_64 => 6
  | arm64 => 8

/-- The sizes that offsets are calculated with are less than this. -/
def sizeLimit : NativeTarget → Nat
  | x86_64 => 2 ^ 31
  | arm64 => 2 ^ 32

/-- A size as an `i32` or a `u32`. -/
def sizeFrom (target : NativeTarget) (size : UInt64) : Except Error Word32 :=
  if size.toNat < target.sizeLimit then .ok (.ofNat 32 size.toNat)
  else .error "out of range integral type conversion attempted"

/-- The size of a local, rounded up to eights. -/
def roundLocal : NativeTarget → Word32 → Word32
  | x86_64, size => (size + 7).sdiv 8 * 8
  | arm64, size => (size / 8 + if 0 < size % 8 then 1 else 0) * 8

/-- The offset of a slot of some size after what there is. -/
def offset : NativeTarget → Word32 → Word32 → Word32
  | x86_64, nextOffset, size => -(nextOffset + size)
  | arm64, nextOffset, _ => nextOffset

/-- The offset of the hidden return slot. -/
def hiddenOffset : NativeTarget → Word32
  | x86_64 => -8
  | arm64 => 0

/-- The offset of the parameter that comes at a place. -/
def paramOffset : NativeTarget → Nat → Word32
  | x86_64, idx => -8 * (.ofNat 32 idx + 1)
  | arm64, idx => 8 * .ofNat 32 idx

/-- The size of a frame, rounded up to sixteens. -/
def roundFrame : NativeTarget → Word32 → Word32
  | x86_64, rawSize => if rawSize = 0 then 0 else (rawSize + 15).sdiv 16 * 16
  | arm64, rawSize =>
    if rawSize = 0 then 0 else (rawSize / 16 + if 0 < rawSize % 16 then 1 else 0) * 16

/-- The number that an offset or a size stands for. -/
def number : NativeTarget → Word32 → Int
  | x86_64, word => word.toInt
  | arm64, word => word.toNat

end NativeTarget

/-! ### Frames -/

structure StackParamCopy where
  slot : Nat
  offset : Word32
  typeHash : Hash

/-- Where things are in a frame. Locals are listed by their slots. -/
structure StackLayout where
  hiddenReturnOffset : Option Word32
  paramOffsets : List Word32
  paramCopies : List StackParamCopy
  localOffsets : List Word32
  valueOffsets : List (String × Word32)
  stackSize : Word32

section Slots

variable (target : NativeTarget) (layouts : List LoweredTypeLayout)

/-- The copies of parameters after what there is, and where they end. -/
def placeParamCopies :
    List LoweredParamSlot → Word32 → Except Error (List StackParamCopy × Word32)
  | [], nextOffset => .ok ([], nextOffset)
  | param :: params, nextOffset => do
    if ← nativePassesIndirect layouts param.typeHash then
      let size ← target.sizeFrom
        (nativeStackSlotSizeBytes (← nativeTypeSize layouts param.typeHash))
      let (copies, last) ← placeParamCopies params (nextOffset + size)
      return (⟨param.slot, target.offset nextOffset size, param.typeHash⟩ :: copies, last)
    else placeParamCopies params nextOffset

/-- The locals from a slot on after what there is, and where they end. -/
def placeLocals : Nat → List LoweredLocalSlot → Word32 → Except Error (List Word32 × Word32)
  | _, [], nextOffset => .ok ([], nextOffset)
  | slot, l :: locals, nextOffset =>
    if l.slot ≠ slot then .error "lowered local slots must be sequential"
    else do
      let size := target.roundLocal (← target.sizeFrom l.sizeBytes)
      let (offsets, last) ← placeLocals (slot + 1) locals (nextOffset + size)
      return (target.offset nextOffset size :: offsets, last)

/-- The values after what there is, and where they end. -/
def placeValues : List String → Word32 → List (String × Word32) × Word32
  | [], nextOffset => ([], nextOffset)
  | id :: ids, nextOffset =>
    let (offsets, last) := placeValues ids (nextOffset + 8)
    ((id, target.offset nextOffset 8) :: offsets, last)

end Slots

/-- The frame of a function on a target. -/
def stackLayout (target : NativeTarget) (ir : LoweredFunctionIr) : Except Error StackLayout := do
  let layouts ← nativeTypeLayouts ir
  let hiddenReturnCount := (← nativeReturnsIndirect layouts ir.returnTypeHash).toNat
  let ids ← collectValueIds [] ir.operations
  let nextOffset : Word32 := .ofNat 32 (ir.params.length + hiddenReturnCount) * 8
  let (paramCopies, nextOffset) ← placeParamCopies target layouts ir.params nextOffset
  let (localOffsets, nextOffset) ← placeLocals target 0 ir.locals nextOffset
  let (valueOffsets, rawSize) := placeValues target ids nextOffset
  return {
    hiddenReturnOffset := if hiddenReturnCount = 1 then some target.hiddenOffset else none
    paramOffsets := (List.range ir.params.length).map fun idx =>
      target.paramOffset (idx + hiddenReturnCount)
    paramCopies, localOffsets, valueOffsets
    stackSize := target.roundFrame rawSize }

def StackLayout.new (ir : LoweredFunctionIr) : Except Error StackLayout := stackLayout .x86_64 ir

def Arm64StackLayout.new (ir : LoweredFunctionIr) : Except Error StackLayout :=
  stackLayout .arm64 ir

def arm64MaxStackFrameBytes : Nat := 4095

/-- The frame that code is emitted for. Only arm64 has a limit on it. -/
def compileStackLayout (ir : LoweredFunctionIr) : NativeTarget → Except Error StackLayout
  | .x86_64 => StackLayout.new ir
  | .arm64 => do
    let layout ← Arm64StackLayout.new ir
    bailIf (arm64MaxStackFrameBytes < layout.stackSize.toNat)
      "native arm64 backend v0 stack frame is too large"
    return layout

end CodeDb

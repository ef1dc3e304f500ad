import CodeDb.Backend.TypeLayouts
import CodeDb.Cir.Encode

/-!
# Validation in the backend

Before it emits code for a function, the backend goes through its operations once. It keeps
the types of the values and of the addresses that there are, by their names. An operation only
uses what is there, and adds what it defines. A block starts with what there is outside of it,
and what it adds is gone after it.

## Main definitions

* `NativeFlow` — the values and the addresses that there are
* `validateNativeOpFlow` — an operation by itself
* `validateNativeOps`, `validateNativeIr` — operations with their blocks, and a function
-/

namespace CodeDb

/-- The types of values and of addresses, by name. -/
structure NativeFlow where
  values : List (String × Hash)
  addresses : List (String × Hash)

abbrev NativeCheck := StateT NativeFlow (Except Error)

def nativeInsertValue (id : String) (typeHash : Hash) : NativeCheck Unit := fun flow =>
  if (flow.values.lookup id).isSome then .error ("duplicate native lowered value id " ++ id)
  else .ok ((), { flow with values := (id, typeHash) :: flow.values })

def nativeInsertAddress (id : String) (typeHash : Hash) : NativeCheck Unit := fun flow =>
  if (flow.addresses.lookup id).isSome then .error ("duplicate native lowered address id " ++ id)
  else .ok ((), { flow with addresses := (id, typeHash) :: flow.addresses })

def nativeValueType (id : String) : NativeCheck Hash := fun flow =>
  match flow.values.lookup id with
  | some typeHash => .ok (typeHash, flow)
  | none => .error ("unknown native lowered value id " ++ id)

def nativeAddressType (id : String) : NativeCheck Hash := fun flow =>
  match flow.addresses.lookup id with
  | some typeHash => .ok (typeHash, flow)
  | none => .error ("unknown native lowered address id " ++ id)

/-- A check of a block: what it adds is gone after it. -/
def inBlock {α : Type} (check : NativeCheck α) : NativeCheck α := fun flow => do
  let (a, _) ← check flow
  return (a, flow)

section Function

variable (P : Primitives) (params : List LoweredParamSlot) (locals : List LoweredLocalSlot)
  (layouts : List LoweredTypeLayout)

/-- No parameter is in a slot with a type. -/
def invalidParam (slot : Nat) (typeHash : Hash) : Bool :=
  params[slot]?.all fun param => param.slot != slot || param.typeHash != typeHash

/-- No local is in a slot with a type. -/
def invalidLocal (slot : Nat) (typeHash : Hash) : Bool :=
  locals[slot]?.all fun l => l.slot != slot || l.typeHash != typeHash

/-- No local at a place has a type. -/
def invalidLocalType (slot : Nat) (typeHash : Hash) : Bool :=
  locals[slot]?.all fun l => l.typeHash != typeHash

/-- The pointee of a pointer that may be cast to a raw pointer, and whether it is mutable. -/
def ptrCastSource (source : LoweredTypeLayout) (targetPointee : String) : Except Error Bool := do
  if source.kind = "reference" then do
    bailIf ((← nativeLayoutString source "referent_type_hash") != targetPointee)
      "native object backend saw ptr_cast reference pointee mismatch"
    nativeLayoutMutable source "native reference layout missing mutable"
  else if source.kind = "raw_pointer" then do
    bailIf ((← nativeLayoutString source "pointee_type_hash") != targetPointee)
      "native object backend saw ptr_cast raw pointee mismatch"
    nativeLayoutMutable source "native raw pointer layout missing mutable"
  else .error ("native object backend saw ptr_cast source kind " ++ source.kind)

/-- A type is laid out as a kind, with an element of a type. -/
def nativeElementLayout (typeHash kind elementTypeHash : String) (mismatch : Error) :
    Except Error Unit := do
  let layout ← nativeTypeLayout layouts typeHash
  if layout.kind != kind then .error mismatch
  else bailIf ((← nativeLayoutString layout "element_type_hash") != elementTypeHash) mismatch

/-- The tags of the arms of a case are distinct, and their payloads lie in the enum. -/
def nativeCaseArms (enumTypeHash : Hash) : List UInt64 → List LoweredCaseArm → Except Error Unit
  | _, [] => .ok ()
  | seenTags, .mk variant variantSymbol tagValue payloadTypeHash payloadOffsetBytes block :: arms =>
    do
    nativeCaseArmLayout layouts enumTypeHash
      (.mk variant variantSymbol tagValue payloadTypeHash payloadOffsetBytes block)
    bailIf (seenTags.contains tagValue)
      ("native object backend saw duplicate case tag " ++ toString tagValue)
    nativeCaseArms enumTypeHash (tagValue :: seenTags) arms

def nativeStaticData (bytesHex : String) (len : UInt64) (mismatch : Error) : Except Error Unit := do
  bailIf ((← Cir.hexToBytes bytesHex).length != len.toNat) mismatch

/-- A value has a type. -/
def expectValue (id : String) (typeHash : Hash) (mismatch : Error) : NativeCheck Unit := do
  bailIf ((← nativeValueType id) != typeHash) mismatch

/-- An address has a type. -/
def expectAddress (id : String) (typeHash : Hash) (mismatch : Error) : NativeCheck Unit := do
  bailIf ((← nativeAddressType id) != typeHash) mismatch

/-- A type is laid out as a kind. -/
def expectKind (typeHash kind : String) (mismatch : Error) : Except Error Unit := do
  bailIf ((← nativeTypeLayout layouts typeHash).kind != kind) mismatch

/-- What is passed in memory has an address, too. -/
def insertIndirect (id : String) (typeHash : Hash) : NativeCheck Unit := do
  if ← nativePassesIndirect layouts typeHash then nativeInsertAddress id typeHash

/-- What is there already as a value and as an address. -/
def insertPlace (id : String) (typeHash : Hash) : NativeCheck Unit := do
  nativeInsertAddress id typeHash
  nativeInsertValue id typeHash

/-- A value of a type, or of one that is laid out like it. -/
def expectCompatible (id : String) (typeHash : Hash) (mismatch : Error) : NativeCheck Unit := do
  let actual ← nativeValueType id
  if actual != typeHash then
    bailIf (!(← nativeLayoutCompatible layouts actual typeHash)) mismatch

def validateNativeOpFlow : LoweredOp → NativeCheck Unit
  | .param id slot typeHash => do
    bailIf (invalidParam params slot typeHash) "native object backend saw invalid param op"
    nativeInsertValue id typeHash
  | .constI64 id _ typeHash | .constBool id _ typeHash | .constUnit id typeHash =>
    nativeInsertValue id typeHash
  | .unary id _ value typeHash | .intCast id value typeHash => do
    let _ ← nativeValueType value
    nativeInsertValue id typeHash
  | .binary id _ left right typeHash _ => do
    let _ ← nativeValueType left
    let _ ← nativeValueType right
    nativeInsertValue id typeHash
  | .call id _ _ args returnAddress typeHash => do
    args.forM fun arg => discard (nativeValueType arg)
    if ← nativeReturnsIndirect layouts typeHash then
      match returnAddress with
      | none => throw "native object backend saw aggregate call without return address"
      | some returnAddress => do
        expectAddress returnAddress typeHash
          "native object backend saw aggregate call return address mismatch"
        nativeInsertAddress id typeHash
        nativeInsertValue id typeHash
    else do
      bailIf returnAddress.isSome "native object backend saw scalar call with return address"
      nativeInsertValue id typeHash
  | .if_ id cond _ _ typeHash => do
    let _ ← nativeValueType cond
    nativeInsertValue id typeHash
  | .case id scrutinee enumTypeHash arms typeHash => do
    expectValue scrutinee enumTypeHash "native object backend saw case scrutinee type mismatch"
    if ← nativePassesIndirect layouts enumTypeHash then
      expectAddress scrutinee enumTypeHash
        "native object backend saw case scrutinee address mismatch"
    expectKind layouts enumTypeHash "enum" "native object backend saw case over non-enum type"
    bailIf arms.isEmpty "native object backend saw case without arms"
    nativeCaseArms layouts enumTypeHash [] arms
    nativeInsertValue id typeHash
    insertIndirect layouts id typeHash
  | .fold id targetAddress targetTypeHash len init indexSlot accSlot itemSlot _ elementTypeHash
      accTypeHash typeHash => do
    bailIf (typeHash != accTypeHash)
      "native object backend saw fold result/accumulator type mismatch"
    expectAddress targetAddress targetTypeHash
      "native object backend saw fold target address mismatch"
    expectValue len (typeHashFor P "I64") "native object backend saw fold value type mismatch"
    expectValue init accTypeHash "native object backend saw fold value type mismatch"
    bailIf (invalidLocalType locals indexSlot (typeHashFor P "I64") ||
        invalidLocalType locals accSlot accTypeHash ||
        invalidLocalType locals itemSlot elementTypeHash)
      "native object backend saw fold local slot type mismatch"
    let target ← nativeTypeLayout layouts targetTypeHash
    bailIf (!(["fixed_array", "slice"].contains target.kind))
      ("native object backend saw fold over " ++ target.kind)
    let _ ← nativeTypeLayout layouts elementTypeHash
    nativeInsertValue id typeHash
    insertIndirect layouts id typeHash
  | .loop id accSlot init _ _ accTypeHash typeHash => do
    bailIf (typeHash != accTypeHash)
      "native object backend saw loop result/accumulator type mismatch"
    expectValue init accTypeHash "native object backend saw loop init type mismatch"
    bailIf (invalidLocalType locals accSlot accTypeHash)
      "native object backend saw loop accumulator slot type mismatch"
    nativeInsertValue id typeHash
    insertIndirect layouts id typeHash
  | .borrowShared id address _ referentTypeHash typeHash
  | .borrowMut id address _ referentTypeHash typeHash => do
    expectAddress address referentTypeHash "native object backend saw borrow referent mismatch"
    nativeInsertValue id typeHash
  | .derefShared id reference referentTypeHash | .derefMut id reference referentTypeHash => do
    let _ ← nativeValueType reference
    insertPlace id referentTypeHash
  | .derefBox id boxValue boxTypeHash elementTypeHash => do
    expectValue boxValue boxTypeHash "native object backend saw deref_box value type mismatch"
    nativeElementLayout layouts boxTypeHash "box" elementTypeHash
      "native object backend saw deref_box layout mismatch"
    let _ ← nativeTypeLayout layouts elementTypeHash
    insertPlace id elementTypeHash
  | .unboxMove id boxValue boxTypeHash elementTypeHash _ => do
    expectValue boxValue boxTypeHash "native object backend saw unbox_move value type mismatch"
    nativeElementLayout layouts boxTypeHash "box" elementTypeHash
      "native object backend saw unbox_move layout mismatch"
    let _ ← nativeTypeLayout layouts elementTypeHash
    nativeInsertValue id elementTypeHash
    insertIndirect layouts id elementTypeHash
  | .heapAlloc id sizeBytes alignBytes elementTypeHash typeHash => do
    bailIf (sizeBytes == 0 || alignBytes == 0)
      "native object backend saw heap_alloc with zero layout"
    nativeElementLayout layouts typeHash "box" elementTypeHash
      "native object backend saw heap_alloc non-box result"
    let element ← nativeTypeLayout layouts elementTypeHash
    bailIf (element.sizeBytes != sizeBytes || element.alignBytes != alignBytes)
      "native object backend saw heap_alloc element layout mismatch"
    nativeInsertValue id typeHash
    nativeInsertAddress id elementTypeHash
  | .ptrCast id value sourceTypeHash typeHash => do
    expectValue value sourceTypeHash "native object backend saw ptr_cast source type mismatch"
    let target ← nativeTypeLayout layouts typeHash
    bailIf (target.kind != "raw_pointer")
      "native object backend saw ptr_cast to non-raw-pointer"
    let targetPointee ← nativeLayoutString target "pointee_type_hash"
    let source ← nativeTypeLayout layouts sourceTypeHash
    let sourceMutable ← ptrCastSource source targetPointee
    let targetMutable ← nativeLayoutMutable target "native raw pointer layout missing mutable"
    bailIf (targetMutable && !sourceMutable)
      "native object backend saw ptr_cast mutability upgrade"
    nativeInsertValue id typeHash
  | .derefRaw id pointer pointerTypeHash pointeeTypeHash mutable => do
    expectValue pointer pointerTypeHash "native object backend saw deref_raw pointer type mismatch"
    let layout ← nativeTypeLayout layouts pointerTypeHash
    bailIf (layout.kind != "raw_pointer") "native object backend saw deref_raw layout mismatch"
    bailIf ((← nativeLayoutString layout "pointee_type_hash") != pointeeTypeHash)
      "native object backend saw deref_raw layout mismatch"
    let pointerMutable ← nativeLayoutMutable layout "native raw pointer layout missing mutable"
    bailIf (mutable && !pointerMutable)
      "native object backend saw mutable deref_raw from shared raw pointer"
    let _ ← nativeTypeLayout layouts pointeeTypeHash
    insertPlace id pointeeTypeHash
  | .addrOfParam id place =>
    match place with
    | .param slot typeHash _ => do
      bailIf (invalidParam params slot typeHash) "native object backend saw invalid addr_of_param"
      insertPlace id typeHash
    | _ => throw "addr_of_param must contain a param place"
  | .addrOfLocal id place =>
    match place with
    | .local_ slot typeHash => do
      bailIf (invalidLocal locals slot typeHash) "native object backend saw invalid addr_of_local"
      insertPlace id typeHash
    | _ => throw "addr_of_local must contain a local place"
  | .addrOfField id place =>
    match place with
    | .field base _ _ ownerTypeHash _ typeHash => do
      expectAddress base ownerTypeHash "native object backend saw addr_of_field owner mismatch"
      insertPlace id typeHash
    | _ => throw "addr_of_field must contain a field place"
  | .addrOfEnumPayload id place =>
    match place with
    | .enumPayload base variant _ ownerTypeHash tagValue payloadOffsetBytes typeHash => do
      expectAddress base ownerTypeHash
        "native object backend saw addr_of_enum_payload owner mismatch"
      nativeCaseArmLayout layouts ownerTypeHash
        (.mk variant none tagValue typeHash payloadOffsetBytes (.mk [] ""))
      insertPlace id typeHash
    | _ => throw "addr_of_enum_payload must contain an enum payload place"
  | .addrOfIndex id place =>
    match place with
    | .index base index elementTypeHash typeHash => do
      let baseType ← nativeAddressType base
      -- indexing a slice passes the address of its first element, which is loaded already
      if baseType != elementTypeHash then
        expectKind layouts baseType "fixed_array"
          "native object backend saw addr_of_index for non-array base"
      expectValue index (typeHashFor P "I64")
        "native object backend saw addr_of_index with non-i64 index"
      bailIf (elementTypeHash != typeHash)
        "native object backend saw addr_of_index element type mismatch"
      let _ ← nativeTypeLayout layouts elementTypeHash
      nativeInsertAddress id typeHash
      let layout ← nativeTypeLayout layouts typeHash
      if ["record", "enum", "fixed_array"].contains layout.kind then nativeInsertValue id typeHash
    | _ => throw "addr_of_index must contain an index place"
  | .staticDataAddress id _ bytesHex len elementTypeHash => do
    nativeStaticData bytesHex len "native object backend saw static_data_address len mismatch"
    let _ ← nativeTypeLayout layouts elementTypeHash
    insertPlace id elementTypeHash
  | .constructSlice id address dataAddress len elementTypeHash typeHash => do
    expectAddress address typeHash "native object backend saw construct_slice address mismatch"
    let dataType ← nativeAddressType dataAddress
    if dataType != elementTypeHash then
      expectKind layouts dataType "fixed_array"
        "native object backend saw construct_slice data mismatch"
    expectValue len (typeHashFor P "I64")
      "native object backend saw construct_slice with non-i64 len"
    expectKind layouts typeHash "slice"
      "native object backend saw construct_slice for non-slice type"
    let _ ← nativeTypeLayout layouts elementTypeHash
    nativeInsertValue id typeHash
    nativeInsertAddress id typeHash
  | .sliceLen id slice sliceTypeHash typeHash => do
    expectAddress slice sliceTypeHash "native object backend saw slice_len address mismatch"
    expectKind layouts sliceTypeHash "slice"
      "native object backend saw slice_len for non-slice type"
    bailIf (typeHash != typeHashFor P "I64") "native object backend saw slice_len non-i64 result"
    nativeInsertValue id typeHash
  | .sliceData id slice sliceTypeHash elementTypeHash => do
    expectAddress slice sliceTypeHash "native object backend saw slice_data address mismatch"
    expectKind layouts sliceTypeHash "slice"
      "native object backend saw slice_data for non-slice type"
    let _ ← nativeTypeLayout layouts elementTypeHash
    nativeInsertAddress id elementTypeHash
  | .vecNew id address _ elementTypeHash typeHash => do
    expectAddress address typeHash "native object backend saw vec_new address mismatch"
    nativeElementLayout layouts typeHash "vec" elementTypeHash
      "native object backend saw vec_new layout mismatch"
    let _ ← nativeTypeLayout layouts elementTypeHash
    nativeInsertValue id typeHash
    nativeInsertAddress id typeHash
  | .vecPush id vecAddress value vecTypeHash elementTypeHash typeHash => do
    expectAddress vecAddress vecTypeHash "native object backend saw vec_push address mismatch"
    nativeElementLayout layouts vecTypeHash "vec" elementTypeHash
      "native object backend saw vec_push layout mismatch"
    expectValue value elementTypeHash "native object backend saw vec_push value mismatch"
    bailIf (typeHash != typeHashFor P "Unit") "native object backend saw vec_push non-unit result"
    nativeInsertValue id typeHash
  | .vecGet id vecAddress index vecTypeHash elementTypeHash typeHash => do
    expectAddress vecAddress vecTypeHash "native object backend saw vec_get address mismatch"
    nativeElementLayout layouts vecTypeHash "vec" elementTypeHash
      "native object backend saw vec_get layout mismatch"
    expectValue index (typeHashFor P "I64") "native object backend saw vec_get non-i64 index"
    bailIf (typeHash != elementTypeHash) "native object backend saw vec_get result mismatch"
    nativeInsertValue id typeHash
  | .vecLen id vecAddress vecTypeHash typeHash => do
    expectAddress vecAddress vecTypeHash "native object backend saw vec_len address mismatch"
    expectKind layouts vecTypeHash "vec" "native object backend saw vec_len for non-vec"
    bailIf (typeHash != typeHashFor P "I64") "native object backend saw vec_len non-i64 result"
    nativeInsertValue id typeHash
  | .stringNew id address _ bytesHex len typeHash => do
    expectAddress address typeHash "native object backend saw string_new address mismatch"
    expectKind layouts typeHash "string" "native object backend saw string_new for non-string"
    nativeStaticData bytesHex len "native object backend saw string_new len mismatch"
    nativeInsertValue id typeHash
    nativeInsertAddress id typeHash
  | .stringLen id stringAddress stringTypeHash typeHash => do
    expectAddress stringAddress stringTypeHash
      "native object backend saw string_len address mismatch"
    expectKind layouts stringTypeHash "string"
      "native object backend saw string_len for non-string"
    bailIf (typeHash != typeHashFor P "I64") "native object backend saw string_len non-i64 result"
    nativeInsertValue id typeHash
  | .argCount id typeHash => do
    bailIf (typeHash != typeHashFor P "I64") "native object backend saw arg_count non-i64 result"
    nativeInsertValue id typeHash
  | .argLen id index typeHash => do
    expectValue index (typeHashFor P "I64") "native object backend saw arg_len non-i64 index"
    bailIf (typeHash != typeHashFor P "I64") "native object backend saw arg_len non-i64 result"
    nativeInsertValue id typeHash
  | .argByte id index byte typeHash => do
    expectValue index (typeHashFor P "I64") "native object backend saw arg_byte non-i64 operand"
    expectValue byte (typeHashFor P "I64") "native object backend saw arg_byte non-i64 operand"
    bailIf (typeHash != typeHashFor P "U8") "native object backend saw arg_byte non-u8 result"
    nativeInsertValue id typeHash
  | .stringWithCapacity id address capacity typeHash => do
    expectAddress address typeHash
      "native object backend saw string_with_capacity address mismatch"
    expectKind layouts typeHash "string"
      "native object backend saw string_with_capacity for non-string"
    expectValue capacity (typeHashFor P "I64")
      "native object backend saw string_with_capacity non-i64 capacity"
    nativeInsertValue id typeHash
    nativeInsertAddress id typeHash
  | .stringPush id stringAddress value stringTypeHash typeHash => do
    expectAddress stringAddress stringTypeHash
      "native object backend saw string_push address mismatch"
    expectKind layouts stringTypeHash "string"
      "native object backend saw string_push for non-string"
    expectValue value (typeHashFor P "U8") "native object backend saw string_push non-u8 value"
    bailIf (typeHash != typeHashFor P "Unit")
      "native object backend saw string_push non-unit result"
    nativeInsertValue id typeHash
  | .stringGet id stringAddress index stringTypeHash typeHash => do
    expectAddress stringAddress stringTypeHash
      "native object backend saw string_get address mismatch"
    expectKind layouts stringTypeHash "string"
      "native object backend saw string_get for non-string"
    expectValue index (typeHashFor P "I64") "native object backend saw string_get non-i64 index"
    bailIf (typeHash != typeHashFor P "U8") "native object backend saw string_get non-u8 result"
    nativeInsertValue id typeHash
  | .stringSet id stringAddress index value stringTypeHash typeHash => do
    expectAddress stringAddress stringTypeHash
      "native object backend saw string_set address mismatch"
    expectKind layouts stringTypeHash "string"
      "native object backend saw string_set for non-string"
    expectValue index (typeHashFor P "I64") "native object backend saw string_set non-i64 index"
    expectValue value (typeHashFor P "U8") "native object backend saw string_set non-u8 value"
    bailIf (typeHash != typeHashFor P "Unit")
      "native object backend saw string_set non-unit result"
    nativeInsertValue id typeHash
  | .boundsCheck id index _ lenValue typeHash => do
    expectValue index (typeHashFor P "I64")
      "native object backend saw bounds_check with non-i64 index"
    lenValue.toList.forM fun lenValue => expectValue lenValue (typeHashFor P "I64")
      "native object backend saw bounds_check with non-i64 len_value"
    bailIf (typeHash != typeHashFor P "Unit")
      "native object backend saw bounds_check with non-unit type"
    nativeInsertValue id typeHash
  | .sliceRangeCheck id start len sourceLen typeHash => do
    expectValue start (typeHashFor P "I64")
      "native object backend saw slice_range_check with non-i64 value"
    expectValue len (typeHashFor P "I64")
      "native object backend saw slice_range_check with non-i64 value"
    expectValue sourceLen (typeHashFor P "I64")
      "native object backend saw slice_range_check with non-i64 value"
    bailIf (typeHash != typeHashFor P "Unit")
      "native object backend saw slice_range_check with non-unit type"
    nativeInsertValue id typeHash
  | .loadEnumTag id address typeHash => do
    expectAddress address typeHash "native object backend saw load_enum_tag address mismatch"
    expectKind layouts typeHash "enum" "native object backend saw load_enum_tag for non-enum"
    nativeInsertValue id (typeHashFor P "I64")
  | .load id address typeHash => do
    expectAddress address typeHash "native object backend saw load type mismatch"
    nativeInsertValue id typeHash
  | .store address value typeHash => do
    expectAddress address typeHash "native object backend saw store address type mismatch"
    expectCompatible layouts value typeHash "native object backend saw store value type mismatch"
  | .storeEnumTag address typeHash _ _ tagValue => do
    expectAddress address typeHash "native object backend saw store_enum_tag address mismatch"
    expectKind layouts typeHash "enum" "native object backend saw store_enum_tag for non-enum"
    bailIf (2147483647 < tagValue)
      ("native object backend saw unencodable enum tag " ++ toString tagValue)
  | .copy id value typeHash => do
    expectValue value typeHash "native object backend saw copy type mismatch"
    nativeInsertValue id typeHash
    insertIndirect layouts id typeHash
  | .move id address typeHash => do
    expectAddress address typeHash "native object backend saw move type mismatch"
    nativeInsertValue id typeHash
    insertIndirect layouts id typeHash
  | .drop address typeHash | .borrowDebug address _ _ typeHash =>
    expectAddress address typeHash "native object backend saw metadata/drop type mismatch"
  | .freeBoxShell address boxTypeHash =>
    expectAddress address boxTypeHash "native object backend saw free_box_shell type mismatch"
  | .return_ value typeHash | .earlyReturn value typeHash =>
    expectCompatible layouts value typeHash "native object backend saw return type mismatch"

/-- The type of an operation by itself. -/
def validateNativeOpType : LoweredOp → Except Error Unit
  | .param _ _ typeHash | .constI64 _ _ typeHash | .constBool _ _ typeHash
  | .constUnit _ typeHash | .unary _ _ _ typeHash | .intCast _ _ typeHash
  | .binary _ _ _ _ typeHash _ | .call _ _ _ _ _ typeHash | .if_ _ _ _ _ typeHash
  | .case _ _ _ _ typeHash | .fold _ _ _ _ _ _ _ _ _ _ _ typeHash
  | .loop _ _ _ _ _ _ typeHash | .heapAlloc _ _ _ _ typeHash | .ptrCast _ _ _ typeHash
  | .return_ _ typeHash | .earlyReturn _ typeHash => nativeSupportedType layouts P typeHash
  | .addrOfParam _ place =>
    match place with
    | .param slot typeHash _ =>
      bailIf (invalidParam params slot typeHash) "native object backend saw invalid addr_of_param"
    | _ => .error "addr_of_param must contain a param place"
  | .addrOfLocal _ place =>
    match place with
    | .local_ slot typeHash =>
      bailIf (invalidLocal locals slot typeHash) "native object backend saw invalid addr_of_local"
    | _ => .error "addr_of_local must contain a local place"
  | .staticDataAddress _ _ bytesHex len elementTypeHash => do
    nativeStaticData bytesHex len "native object backend saw static_data_address len mismatch"
    let _ ← nativeTypeLayout layouts elementTypeHash
  | .boundsCheck _ _ _ _ typeHash =>
    bailIf (typeHash != typeHashFor P "Unit")
      "native object backend saw bounds_check with non-unit type"
  | .sliceRangeCheck _ _ _ _ typeHash =>
    bailIf (typeHash != typeHashFor P "Unit")
      "native object backend saw slice_range_check with non-unit type"
  | .loadEnumTag _ _ typeHash =>
    expectKind layouts typeHash "enum" "native object backend saw load_enum_tag for non-enum type"
  | .freeBoxShell _ boxTypeHash =>
    expectKind layouts boxTypeHash "box" "native object backend saw free_box_shell for non-box type"
  | _ => .ok ()

mutual

def validateNativeOps : List LoweredOp → NativeCheck Unit
  | [] => pure ()
  | op :: operations => do
    validateNativeOpType P params locals layouts op
    validateNativeOpFlow P params locals layouts op
    validateNativeBlocks op
    validateNativeOps operations

/-- The blocks of an operation. The result of a block is only looked up where it has to be of
some type. -/
def validateNativeBlocks : LoweredOp → NativeCheck Unit
  | .if_ _ _ (.mk thenOps _) (.mk elseOps _) _ => do
    inBlock (validateNativeOps thenOps)
    inBlock (validateNativeOps elseOps)
  | .case _ _ _ arms _ => validateNativeArms arms
  | .fold _ _ _ _ _ _ _ _ (.mk bodyOps result) _ accTypeHash _ =>
    inBlock do
      validateNativeOps bodyOps
      expectValue result accTypeHash "native object backend saw fold body result type mismatch"
  | .loop _ _ _ (.mk condOps condResult) (.mk bodyOps bodyResult) accTypeHash _ => do
    inBlock do
      validateNativeOps condOps
      expectValue condResult (typeHashFor P "Bool")
        "native object backend saw loop condition type mismatch"
    inBlock do
      validateNativeOps bodyOps
      expectValue bodyResult accTypeHash "native object backend saw loop body result type mismatch"
  | _ => pure ()

def validateNativeArms : List LoweredCaseArm → NativeCheck Unit
  | [] => pure ()
  | .mk _ _ _ _ _ (.mk operations _) :: arms => do
    inBlock (validateNativeOps operations)
    validateNativeArms arms

end

end Function

/-- What the backend checks of a function, for a number of registers that take parameters. -/
def validateNativeIr (P : Primitives) (ir : LoweredFunctionIr) (maxMachineParams : Nat) :
    Except Error Unit := do
  let layouts ← nativeTypeLayouts ir
  nativeSupportedType layouts P ir.returnTypeHash
  let hiddenReturnCount := (← nativeReturnsIndirect layouts ir.returnTypeHash).toNat
  bailIf (maxMachineParams < ir.params.length + hiddenReturnCount)
    ("native object backend v0 supports at most " ++ toString maxMachineParams ++
      " machine parameters")
  ir.params.forM fun param => nativeSupportedType layouts P param.typeHash
  ir.locals.forM fun l => bailIf (l.sizeBytes == 0 || l.sizeBytes % 8 != 0)
    "native object backend v0 local slots must be nonzero multiples of 8 bytes"
  let _ ← (validateNativeOps P ir.params ir.locals layouts ir.operations).run ⟨[], []⟩

end CodeDb

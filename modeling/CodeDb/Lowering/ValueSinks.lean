import CodeDb.Lowering.BlindCopy
import CodeDb.Lowering.Ir
import CodeDb.Lowering.MovedPlaces

/-!
# Where values are put

What an operand is lowered to where a type is expected of it: as an argument, a return value, a
field, an element, the value that is stored, or the value that a local is initialized with. What
constructs a record, an enum, an array or a box is built at the type that is expected. Any other
value keeps its type, and its bytes are read at the type that is expected.

## Main definitions

* `PartLowering` — how the parts of an operand are lowered
* `lowerExprAs` — an operand where a type is expected
* `lowerValueIntoAddress` — the value that a local is initialized with
* `verifyStore`, `verifyFieldPlace` — what is checked again of the operations
-/

namespace CodeDb

/-! ### The context of a lowering -/

/-- What is known of a function while it is lowered. -/
structure LowerCtx where
  nextValue : Nat
  nextLocal : Nat
  localSlots : List LoweredLocalSlot
  debugOperations : List LoweredDebugOp
  moved : Finset MovedPlace

abbrev LowerM (α : Type) : Type := StateT LowerCtx (Except Error) α

namespace LowerCtx

def new : LowerCtx where
  nextValue := 0
  nextLocal := 0
  localSlots := []
  debugOperations := []
  moved := ∅

/-- A name for the next value. -/
def value : LowerM String := do
  let ctx ← get
  set { ctx with nextValue := ctx.nextValue + 1 }
  return "v" ++ toString ctx.nextValue

def localSlot (typeHash : Hash) (sizeBytes : UInt64) : LowerM Nat := do
  let ctx ← get
  set { ctx with
    nextLocal := ctx.nextLocal + 1
    localSlots := ctx.localSlots ++ [LoweredLocalSlot.mk ctx.nextLocal typeHash sizeBytes] }
  return ctx.nextLocal

def pushDebugOp (exprHash : Hash) (loweredOpKind valueId : String) : LowerM Unit :=
  let op : LoweredDebugOp := ⟨"op:" ++ valueId, valueId, loweredOpKind, exprHash⟩
  modify fun ctx => { ctx with debugOperations := ctx.debugOperations ++ [op] }

/-- A name for the value of an operation that is lowered for an expression. -/
def valueFor (exprHash : Hash) (loweredOpKind : String) : LowerM String := do
  let id ← value
  pushDebugOp exprHash loweredOpKind id
  return id

def markMovedPlace (place : MovedPlace) : LowerM Unit :=
  modify fun ctx => { ctx with moved := insertMovedPlace ctx.moved place }

end LowerCtx

/-! ### What is lowered -/

/-- An expression that is lowered to operations and the value they leave. -/
structure LoweredExpr where
  operations : List LoweredOp
  value : String
  typeHash : Hash

structure LoweredAddress where
  operations : List LoweredOp
  address : String
  typeHash : Hash

structure LoweredFieldInfo where
  typeHash : Hash
  fieldSymbol : Option Hash
  offsetBytes : Nat

/-- How the parts of an operand are lowered. -/
structure PartLowering where
  lowerExpr : Hash → LowerM LoweredExpr
  lowerExprAs : Hash → Hash → LowerM LoweredExpr
  lowerPlace : Hash → LowerM LoweredAddress
  lowerRecordInitToAddress : Hash → Hash → String → LowerM (List LoweredOp)
  lowerEnumInitToAddress : Hash → Hash → String → LowerM (List LoweredOp)
  lowerArrayInitToAddress : Hash → Hash → String → LowerM (List LoweredOp)
  lowerCase : Hash → Hash → LowerM LoweredExpr
  lowerIf : Hash → Hash → LowerM LoweredExpr
  placeMovedPath : Hash → Except Error (Option MovedPlace)

def exprKind (payload : JsonValue) : Option String :=
  JsonValue.asStr? (payload.get? "expr_kind")

def exprType (payload : JsonValue) (exprHash : Hash) : Except Error Hash :=
  payload.getStr "type" ("expression missing type " ++ exprHash)

/-- What a slot takes up in a frame, which is made of words. -/
def stackSlotSizeBytes (layoutSizeBytes : Nat) : UInt64 :=
  .ofNat ((max layoutSizeBytes 1 + 7) / 8 * 8)

section Lowering

variable (P : Primitives) (objects : Objects) (root : ProgramRootPayload)

/-- The source of a type that is read already. -/
def TypeSpec.toSource (spec : TypeSpec) : Except Error String := do
  let mutable (isMut : Bool) (plain marked : String) : String := if isMut then marked else plain
  let members (kind : String) (members : List TypeFieldSpec) : Except Error String := do
    let rendered ← members.mapM fun m => do
      return m.name ++ ": " ++ (← typeName P objects m.typeHash)
    return kind ++ " \x7b" ++ String.intercalate ", " rendered ++ "\x7d"
  match spec with
  | .builtin kind => return kind.toLower
  | .typeParam index => return "typeparam<" ++ toString index ++ ">"
  | .named typeSymbol regionArgs typeArgs =>
    let args := regionArgs ++ typeArgs.map fun arg => "type<" ++ arg ++ ">"
    return if args.isEmpty then "type<" ++ typeSymbol ++ ">"
      else "type<" ++ typeSymbol ++ "<" ++ String.intercalate ", " args ++ ">>"
  | .reference region isMut referent => do
    return "&'" ++ region ++ mutable isMut " " " mut " ++ (← typeName P objects referent)
  | .rawPointer isMut pointee => do
    return mutable isMut "raw_ptr<" "raw_mut_ptr<" ++ (← typeName P objects pointee) ++ ">"
  | .box element => do return "box<" ++ (← typeName P objects element) ++ ">"
  | .vec element => do return "vec<" ++ (← typeName P objects element) ++ ">"
  | .string => return "string"
  | .slice region isMut element => do
    return mutable isMut "slice<'" "mut_slice<'" ++ region ++ ", " ++
      (← typeName P objects element) ++ ">"
  | .fixedArray element len => do
    return "array<" ++ (← typeName P objects element) ++ ", " ++ toString len ++ ">"
  | .record fields => members "record" fields
  | .enum variants => members "enum" variants

/-! ### Types -/

def typeIsRecord (typeHash : Hash) : Except Error Bool := do
  match ← typeSpecInRoot P objects root typeHash with
  | .record _ => return true
  | _ => return false

def typeIsFixedArray (typeHash : Hash) : Except Error Bool := do
  match ← typeSpecInRoot P objects root typeHash with
  | .fixedArray .. => return true
  | _ => return false

def typeIsEnum (typeHash : Hash) : Except Error Bool := do
  match ← typeSpecInRoot P objects root typeHash with
  | .enum _ => return true
  | _ => return false

def typeIsBox (typeHash : Hash) : Except Error Bool := do
  match ← typeSpecInRoot P objects root typeHash with
  | .box _ => return true
  | _ => return false

variable (stack : Nat) (targetTriple : String)

def typePassesIndirect (typeHash : Hash) : Except Error Bool := do
  let layout ← typeLayout P objects root stack targetTriple typeHash
  let abi := abiMetadata layout.details.kind layout.size
  return JsonValue.asStr? (abi.get? "pass") = some "by_indirect"

def typeIsMoveOnly (typeHash : Hash) : Except Error Bool := do
  let layout ← typeLayout P objects root stack targetTriple typeHash
  return layout.layoutClass.copyKind = .moveOnly

def typeRequiresCopyScaffold (typeHash : Hash) : Except Error Bool := do
  let layout ← typeLayout P objects root stack targetTriple typeHash
  return layout.layoutClass.copyKind = .copy ∧ layout.layoutClass.containsReference

def loweredRecordField (typeHash : Hash) (field : String) : Except Error LoweredFieldInfo := do
  let offsetBytes ← layoutFieldOffsetBytes P objects root stack targetTriple typeHash field
  let fieldSymbol ← match ← typeSpec P objects typeHash with
    | .named typeSymbol _ _ => do
      let entry ← JsonValue.require ("named record missing from root " ++ typeSymbol)
        (rootType root typeSymbol)
      match ← typeDefinition P objects entry.typeDef with
      | .record body =>
        pure ((body.members.find? (·.name == field)).map (·.memberSymbol))
      | .enum _ => throw "field access requires record type"
    | _ => pure none
  match ← typeSpecInRoot P objects root typeHash with
  | .record fields =>
    match fields.find? (·.name == field) with
    | some candidate => return ⟨candidate.typeHash, fieldSymbol, offsetBytes⟩
    | none => throw ("record has no field " ++ field)
  | other => throw ("field access requires record type, got " ++ (← other.toSource P objects))

def aggregateRecordFields (typeHash : Hash) : Except Error (List TypeFieldSpec) := do
  match ← typeSpecInRoot P objects root typeHash with
  | .record fields => return fields
  | other =>
    throw ("aggregate place initializer requires record type, got " ++
      (← other.toSource P objects))

/-- One of the types is an aggregate or a box. -/
def isAggregatePair (src dst : Hash) : Except Error Bool :=
  typeIsRecord P objects root src <||> typeIsRecord P objects root dst <||>
  typeIsEnum P objects root src <||> typeIsEnum P objects root dst <||>
  typeIsFixedArray P objects root src <||> typeIsFixedArray P objects root dst <||>
  typeIsBox P objects root src <||> typeIsBox P objects root dst

/-- A value of one type passes as one of the other type: of aggregates and boxes it is checked that
the bytes can be copied. -/
def passesAs (src dst : Hash) : Except Error Bool :=
  if src = dst then return true
  else do
    if ← isAggregatePair P objects root src dst then
      layoutsBlindCopyCompatible P objects root stack targetTriple stack src dst
    else return true

/-! ### Built at the type that is expected -/

variable (parts : PartLowering)

/-- What is built in a slot of its own, at the type of the slot. -/
def lowerIntoSlot (init : Hash → Hash → String → LowerM (List LoweredOp))
    (exprHash slotType : Hash) : LowerM LoweredExpr := do
  let size ← layoutSizeBytes P objects root stack targetTriple slotType
  let slot ← LowerCtx.localSlot slotType (stackSlotSizeBytes size)
  let address ← LowerCtx.valueFor exprHash "addr_of_local"
  let stores ← init exprHash slotType address
  let operations := .addrOfLocal address (.local_ slot slotType) :: stores
  if ← typePassesIndirect P objects root stack targetTriple slotType then
    return ⟨operations, address, slotType⟩
  else do
    let id ← LowerCtx.valueFor exprHash "load"
    return ⟨operations ++ [.load id address slotType], id, slotType⟩

def lowerRecordLiteralIntoSlot : Hash → Hash → LowerM LoweredExpr :=
  lowerIntoSlot P objects root stack targetTriple parts.lowerRecordInitToAddress

def lowerEnumConstructIntoSlot : Hash → Hash → LowerM LoweredExpr :=
  lowerIntoSlot P objects root stack targetTriple parts.lowerEnumInitToAddress

def lowerArrayLiteralIntoSlot : Hash → Hash → LowerM LoweredExpr :=
  lowerIntoSlot P objects root stack targetTriple parts.lowerArrayInitToAddress

def lowerBoxNewAs (exprHash resultBoxType : Hash) : LowerM LoweredExpr := do
  let payload ← getPayload P objects exprHash
  let valueHash ← payload.getStr "value" "box_new missing value"
  let declaredElementType ← payload.getStr "element_type" "box_new missing element_type"
  match ← typeSpec P objects resultBoxType with
  | .box elementTypeHash => do
    if !(← typeAssignableInRoot P objects root stack declaredElementType elementTypeHash) then
      throw "box_new value type mismatch while lowering"
    let elementLayout ← typeLayout P objects root stack targetTriple elementTypeHash
    let id ← LowerCtx.valueFor exprHash "heap_alloc"
    let value ← parts.lowerExprAs valueHash elementTypeHash
    if !(← typeAssignableInRoot P objects root stack value.typeHash elementTypeHash) then
      throw "box_new value type mismatch while lowering"
    return ⟨.heapAlloc id (.ofNat elementLayout.size) (.ofNat elementLayout.align) elementTypeHash
      resultBoxType :: value.operations ++ [.store id value.value elementTypeHash], id,
      resultBoxType⟩
  | _ => throw "box_new lowered type mismatch"

/-! ### An operand where a type is expected -/

/-- An expression of one of some kinds builds a type of one kind. -/
def buildsAt (kinds : List String) (kind : Option String) (isKind : Hash → Except Error Bool)
    (expectedType : Hash) : Except Error Bool :=
  if kind.any (· ∈ kinds) then isKind expectedType else return false

/-- The type that a choice is built at: the type that is expected, where the bytes of its own type
cannot be copied. -/
def buildAs (ownType expectedType : Hash) : Except Error Hash :=
  if ownType = expectedType then return ownType
  else do
    if !(← typeAssignableInRoot P objects root stack ownType expectedType) then return ownType
    else if ← layoutsBlindCopyCompatible P objects root stack targetTriple stack ownType
      expectedType then return ownType
    else return expectedType

/-- A value that is not built at the type that is expected has to pass as one of that type. -/
def requirePassesAs (typeHash expectedType : Hash) : Except Error Unit := do
  if ← passesAs P objects root stack targetTriple typeHash expectedType then return ()
  else
    throw ("unsupported_aggregate_layout: a value of type " ++ typeHash ++
      " cannot be used where " ++ expectedType ++
      " is expected because their native layouts differ; bind aggregate literals with an " ++
      "explicit `let x: <Type> = <literal>` so they are built in the destination layout")

/-- Lower a choice where a type is expected: its branches are built at one type. -/
def lowerChoiceAs (lowerChoice : Hash → Hash → LowerM LoweredExpr) (payload : JsonValue)
    (exprHash expectedType : Hash) : LowerM LoweredExpr := do
  let ownType ← exprType payload exprHash
  let resultType ← buildAs P objects root stack targetTriple ownType expectedType
  let lowered ← lowerChoice exprHash resultType
  requirePassesAs P objects root stack targetTriple lowered.typeHash expectedType
  return lowered

/-- Lower an operand where a type is expected. -/
def lowerExprAs (exprHash expectedType : Hash) : LowerM LoweredExpr := do
  let payload ← getPayload P objects exprHash
  let kind := exprKind payload
  if ← buildsAt ["record_literal"] kind (typeIsRecord P objects root) expectedType then
    lowerRecordLiteralIntoSlot P objects root stack targetTriple parts exprHash expectedType
  else if ← buildsAt ["enum_construct"] kind (typeIsEnum P objects root) expectedType then
    lowerEnumConstructIntoSlot P objects root stack targetTriple parts exprHash expectedType
  else if ← buildsAt ["array_literal", "array_fill", "array_set"] kind
      (typeIsFixedArray P objects root) expectedType then
    lowerArrayLiteralIntoSlot P objects root stack targetTriple parts exprHash expectedType
  else if ← buildsAt ["box_new"] kind (typeIsBox P objects root) expectedType then
    lowerBoxNewAs P objects root stack targetTriple parts exprHash expectedType
  else if kind = some "case" then
    lowerChoiceAs P objects root stack targetTriple parts.lowerCase payload exprHash expectedType
  else if kind = some "if" then
    lowerChoiceAs P objects root stack targetTriple parts.lowerIf payload exprHash expectedType
  else do
    let value ← parts.lowerExpr exprHash
    requirePassesAs P objects root stack targetTriple value.typeHash expectedType
    return value

/-! ### What a local is initialized with -/

def exprIsPlace (exprHash : Hash) : Except Error Bool := do
  let payload ← getPayload P objects exprHash
  return exprKind payload ∈
    [some "param_ref", some "local_ref", some "field_access", some "array_index"]

/-- What is moved out of a place must be tracked. -/
def markMovedSource (exprHash : Hash) : LowerM Unit := do
  match ← parts.placeMovedPath exprHash with
  | some place => LowerCtx.markMovedPlace place
  | none =>
    throw ("unsupported_move: lowering does not support moving a move-only value out of a " ++
      "dynamic array index or pointer projection (partial move of an owned aggregate); granular " ++
      "drop glue covers record fields and constant-index array elements only (SPEC_V3 §7)")

/-- Copy or move what lies at an address. -/
def copyOrMove (exprHash sourceType : Hash) (address : String) : LowerM (String × LoweredOp) := do
  let scaffoldId ← LowerCtx.value
  if ← typeIsMoveOnly P objects root stack targetTriple sourceType then
    markMovedSource parts exprHash
    LowerCtx.pushDebugOp exprHash "move" scaffoldId
    return (scaffoldId, .move scaffoldId address sourceType)
  else do
    LowerCtx.pushDebugOp exprHash "copy" scaffoldId
    return (scaffoldId, .copy scaffoldId address sourceType)

/-- The value that lies at a place: moved, copied or loaded. -/
def lowerPlaceValue (exprHash typeHash : Hash) : LowerM LoweredExpr := do
  let lowered ← parts.lowerPlace exprHash
  let finish (operations : List LoweredOp) (id : String) : LoweredExpr :=
    ⟨lowered.operations ++ operations, id, typeHash⟩
  if ← typeIsMoveOnly P objects root stack targetTriple typeHash then
    markMovedSource parts exprHash
    let id ← LowerCtx.valueFor exprHash "move"
    return finish [.move id lowered.address typeHash] id
  else if ← typePassesIndirect P objects root stack targetTriple typeHash then
    let id ← LowerCtx.valueFor exprHash "copy"
    return finish [.copy id lowered.address typeHash] id
  else if ← typeRequiresCopyScaffold P objects root stack targetTriple typeHash then
    let loadedId ← LowerCtx.valueFor exprHash "load"
    let copyId ← LowerCtx.valueFor exprHash "copy"
    return finish [.load loadedId lowered.address typeHash, .copy copyId loadedId typeHash] copyId
  else do
    let id ← LowerCtx.valueFor exprHash "load"
    return finish [.load id lowered.address typeHash] id

/-- The place of a parameter. -/
def lowerParamPlace (paramTypes : List Hash) (exprHash : Hash) : LowerM LoweredAddress := do
  let payload ← getPayload P objects exprHash
  let typeHash ← exprType payload exprHash
  let slot ← JsonValue.require "param_ref missing index" (JsonValue.asU64? (payload.get? "index"))
  let expected ← JsonValue.require ("parameter slot out of bounds " ++ toString slot)
    paramTypes[slot]?
  if expected ≠ typeHash then
    throw ("parameter slot " ++ toString slot ++ " type mismatch")
  let id ← LowerCtx.valueFor exprHash "addr_of_param"
  let indirect ← typePassesIndirect P objects root stack targetTriple typeHash
  return ⟨[.addrOfParam id (.param slot typeHash indirect)], id, typeHash⟩

/-- How the parts of an operand are lowered that is a parameter. -/
def parameterLowering (paramTypes : List Hash) : PartLowering :=
  let other : Error := "not a parameter"
  let place := lowerParamPlace P objects root stack targetTriple paramTypes
  let places : PartLowering := {
    lowerExpr := fun _ => throw other
    lowerExprAs := fun _ _ => throw other
    lowerPlace := place
    lowerRecordInitToAddress := fun _ _ _ => throw other
    lowerEnumInitToAddress := fun _ _ _ => throw other
    lowerArrayInitToAddress := fun _ _ _ => throw other
    lowerCase := fun _ _ => throw other
    lowerIf := fun _ _ => throw other
    placeMovedPath := fun exprHash => do
      let payload ← getPayload P objects exprHash
      let slot ← JsonValue.require "param_ref missing index"
        (JsonValue.asU64? (payload.get? "index"))
      return some (.whole (.param slot)) }
  { places with
    lowerExpr := fun exprHash => do
      let payload ← getPayload P objects exprHash
      let typeHash ← exprType payload exprHash
      lowerPlaceValue P objects root stack targetTriple places exprHash typeHash }

/-- Copy a field of one record to the field of that name of another record. -/
def copyField (exprHash : Hash) (source : LoweredAddress) (targetType : Hash)
    (targetAddress : String) (field : TypeFieldSpec) : LowerM (List LoweredOp) := do
  let sourceInfo ←
    loweredRecordField P objects root stack targetTriple source.typeHash field.name
  if !(← typeAssignableInRoot P objects root stack sourceInfo.typeHash field.typeHash) then
    throw ("aggregate initializer field " ++ field.name ++ " type mismatch while lowering")
  let sourceFieldAddress ← LowerCtx.valueFor exprHash "addr_of_field"
  let fieldValue ← LowerCtx.valueFor exprHash "load"
  let targetInfo ← loweredRecordField P objects root stack targetTriple targetType field.name
  -- The place of the target is given the type of what is stored, not that of the field.
  let storeType :=
    if sourceInfo.typeHash = targetInfo.typeHash then targetInfo.typeHash else sourceInfo.typeHash
  let targetFieldAddress ← LowerCtx.valueFor exprHash "addr_of_field"
  return [
    .addrOfField sourceFieldAddress (.field source.address field.name sourceInfo.fieldSymbol
      source.typeHash (.ofNat sourceInfo.offsetBytes) sourceInfo.typeHash),
    .load fieldValue sourceFieldAddress sourceInfo.typeHash,
    .addrOfField targetFieldAddress (.field targetAddress field.name targetInfo.fieldSymbol
      targetType (.ofNat targetInfo.offsetBytes) storeType),
    .store targetFieldAddress fieldValue storeType]

/-- Initialize with an aggregate that has no fields: it is copied as a whole. -/
def copyWhole (exprHash sourceType targetType : Hash) (targetAddress : String) :
    LowerM (List LoweredOp) := do
  if !(← layoutsBlindCopyCompatible P objects root stack targetTriple stack sourceType targetType)
  then throw "unsupported_aggregate_layout: aggregate initializer layout mismatch"
  let source ← parts.lowerPlace exprHash
  let (scaffoldId, scaffold) ←
    copyOrMove P objects root stack targetTriple parts exprHash sourceType source.address
  return source.operations ++ [scaffold, .store targetAddress scaffoldId targetType]

/-- Initialize with a record: it is copied field by field. -/
def copyFields (exprHash sourceType targetType : Hash) (targetAddress : String) :
    LowerM (List LoweredOp) := do
  let source ← parts.lowerPlace exprHash
  let (_, scaffold) ←
    copyOrMove P objects root stack targetTriple parts exprHash sourceType source.address
  let fields ← aggregateRecordFields P objects root targetType
  let copies ← fields.mapM
    (copyField P objects root stack targetTriple exprHash source targetType targetAddress)
  return source.operations ++ [scaffold] ++ copies.flatten

/-- Initialize what lies at an address with an aggregate that lies somewhere already. -/
def lowerAggregatePlaceInitToAddress (exprHash targetType : Hash) (targetAddress : String) :
    LowerM (List LoweredOp) := do
  let sourcePayload ← getPayload P objects exprHash
  let sourceType ← exprType sourcePayload exprHash
  if !(← typeAssignableInRoot P objects root stack sourceType targetType) then
    throw "aggregate initializer type mismatch while lowering"
  let isBuffer : Except Error Bool := do
    match ← typeSpecInRoot P objects root targetType with
    | .vec _ | .string => return true
    | _ => return false
  let whole : Except Error Bool :=
    typeIsEnum P objects root targetType <||> typeIsFixedArray P objects root targetType <||>
    isBuffer
  if ← whole then
    copyWhole P objects root stack targetTriple parts exprHash sourceType targetType targetAddress
  else
    copyFields P objects root stack targetTriple parts exprHash sourceType targetType targetAddress

/-- Initialize what lies at an address with a value. -/
def lowerValueIntoAddress (valueHash targetType : Hash) (targetAddress : String) :
    LowerM (List LoweredOp) := do
  let payload ← getPayload P objects valueHash
  let kind := exprKind payload
  let copiesPlace : Except Error Bool :=
    typePassesIndirect P objects root stack targetTriple targetType <&&>
    exprIsPlace P objects valueHash
  if kind = some "record_literal" then
    parts.lowerRecordInitToAddress valueHash targetType targetAddress
  else if kind = some "enum_construct" then
    parts.lowerEnumInitToAddress valueHash targetType targetAddress
  else if kind.any (· ∈ ["array_literal", "array_fill", "array_set"]) then
    parts.lowerArrayInitToAddress valueHash targetType targetAddress
  else if ← copiesPlace then
    lowerAggregatePlaceInitToAddress P objects root stack targetTriple parts valueHash targetType
      targetAddress
  else do
    let value ← lowerExprAs P objects root stack targetTriple parts valueHash targetType
    if !(← typeAssignableInRoot P objects root stack value.typeHash targetType) then
      throw "let binding type mismatch while lowering"
    return value.operations ++ [.store targetAddress value.value targetType]

/-! ### What is checked again -/

/-- What is checked of a value that is stored at an address of some type. -/
def verifyStore (addressType valueType typeHash : Hash) : Except Error Unit := do
  if addressType ≠ typeHash then throw "lowered store address type mismatch"
  if !(← typeAssignableInRoot P objects root stack valueType typeHash) then
    throw "lowered store value type mismatch"
  if !(← passesAs P objects root stack targetTriple valueType typeHash) then
    throw ("lowered store reinterprets an aggregate value of type " ++ valueType ++
      " under incompatible destination layout " ++ typeHash)

/-- What is checked of the place of a field: its type may be another one that can be used as that of
the field. -/
def verifyFieldPlace (baseType : Hash) : LoweredPlace → Except Error Unit
  | .field _ field fieldSymbol ownerTypeHash offsetBytes typeHash => do
    if baseType ≠ ownerTypeHash then throw "lowered addr_of_field owner type mismatch"
    let info ← loweredRecordField P objects root stack targetTriple ownerTypeHash field
    if info.typeHash ≠ typeHash then
      if !(← typeAssignableInRoot P objects root stack typeHash info.typeHash) then
        throw "lowered addr_of_field type mismatch"
    if info.fieldSymbol ≠ fieldSymbol then throw "lowered addr_of_field symbol mismatch"
    if .ofNat info.offsetBytes ≠ offsetBytes then throw "lowered addr_of_field offset mismatch"
  | _ => throw "addr_of_field must contain a field place"

end Lowering

end CodeDb

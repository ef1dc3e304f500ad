import CodeDb.Model.Json
import CodeDb.Model.ProgramRoot

/-!
# The lowered form of functions

A function is lowered to operations on values with names, over places in memory. Operations
that choose or repeat hold blocks of operations.

## Main definitions

* `LoweredPlace`, `LoweredOp`, `LoweredBlock` — places, operations and blocks
* `LoweredFunctionIr` — a function
-/

namespace CodeDb

structure LoweredTrap where
  condition : String
  code : String

inductive LoweredPlace where
  | param (slot : Nat) (typeHash : Hash) (indirect : Bool)
  | local_ (slot : Nat) (typeHash : Hash)
  | field (base field : String) (fieldSymbol : Option Hash) (ownerTypeHash : Hash)
    (offsetBytes : UInt64) (typeHash : Hash)
  | enumPayload (base variant : String) (variantSymbol : Option Hash) (ownerTypeHash : Hash)
    (tagValue payloadOffsetBytes : UInt64) (typeHash : Hash)
  | index (base index : String) (elementTypeHash typeHash : Hash)

mutual

/-- The operations. Values are named by strings, and types by their hashes. -/
inductive LoweredOp where
  | param (id : String) (slot : Nat) (typeHash : Hash)
  | constI64 (id value : String) (typeHash : Hash)
  | constBool (id : String) (value : Bool) (typeHash : Hash)
  | constUnit (id : String) (typeHash : Hash)
  | unary (id kind value : String) (typeHash : Hash)
  | intCast (id value : String) (typeHash : Hash)
  | binary (id kind left right : String) (typeHash : Hash) (trap : Option LoweredTrap)
  | call (id : String) (targetSymbolHash : Hash) (targetAbiSymbol : Option String)
    (args : List String) (returnAddress : Option String) (typeHash : Hash)
  | if_ (id cond : String) (thenBlock elseBlock : LoweredBlock) (typeHash : Hash)
  | case (id scrutinee : String) (enumTypeHash : Hash) (arms : List LoweredCaseArm)
    (typeHash : Hash)
  | fold (id targetAddress : String) (targetTypeHash : Hash) (len init : String)
    (indexSlot accSlot itemSlot : Nat) (body : LoweredBlock)
    (elementTypeHash accTypeHash typeHash : Hash)
  | loop (id : String) (accSlot : Nat) (init : String) (cond body : LoweredBlock)
    (accTypeHash typeHash : Hash)
  | borrowShared (id address region : String) (referentTypeHash typeHash : Hash)
  | borrowMut (id address region : String) (referentTypeHash typeHash : Hash)
  | derefShared (id reference : String) (referentTypeHash : Hash)
  | derefMut (id reference : String) (referentTypeHash : Hash)
  | derefBox (id boxValue : String) (boxTypeHash elementTypeHash : Hash)
  | unboxMove (id boxValue : String) (boxTypeHash elementTypeHash : Hash) (destSlot : Nat)
  | heapAlloc (id : String) (sizeBytes alignBytes : UInt64) (elementTypeHash typeHash : Hash)
  | ptrCast (id value : String) (sourceTypeHash typeHash : Hash)
  | derefRaw (id pointer : String) (pointerTypeHash pointeeTypeHash : Hash) (mutable : Bool)
  | addrOfParam (id : String) (place : LoweredPlace)
  | addrOfLocal (id : String) (place : LoweredPlace)
  | addrOfField (id : String) (place : LoweredPlace)
  | addrOfEnumPayload (id : String) (place : LoweredPlace)
  | addrOfIndex (id : String) (place : LoweredPlace)
  | staticDataAddress (id : String) (staticDataHash : Hash) (bytesHex : String) (len : UInt64)
    (elementTypeHash : Hash)
  | constructSlice (id address dataAddress len : String) (elementTypeHash typeHash : Hash)
  | sliceLen (id slice : String) (sliceTypeHash typeHash : Hash)
  | sliceData (id slice : String) (sliceTypeHash elementTypeHash : Hash)
  | vecNew (id address : String) (capacity : UInt64) (elementTypeHash typeHash : Hash)
  | vecPush (id vecAddress value : String) (vecTypeHash elementTypeHash typeHash : Hash)
  | vecGet (id vecAddress index : String) (vecTypeHash elementTypeHash typeHash : Hash)
  | vecLen (id vecAddress : String) (vecTypeHash typeHash : Hash)
  | stringNew (id address : String) (staticDataHash : Hash) (bytesHex : String) (len : UInt64)
    (typeHash : Hash)
  | stringLen (id stringAddress : String) (stringTypeHash typeHash : Hash)
  | stringWithCapacity (id address capacity : String) (typeHash : Hash)
  | stringPush (id stringAddress value : String) (stringTypeHash typeHash : Hash)
  | stringGet (id stringAddress index : String) (stringTypeHash typeHash : Hash)
  | stringSet (id stringAddress index value : String) (stringTypeHash typeHash : Hash)
  | argCount (id : String) (typeHash : Hash)
  | argLen (id index : String) (typeHash : Hash)
  | argByte (id index byte : String) (typeHash : Hash)
  | boundsCheck (id index : String) (len : UInt64) (lenValue : Option String) (typeHash : Hash)
  | sliceRangeCheck (id start len sourceLen : String) (typeHash : Hash)
  | loadEnumTag (id address : String) (typeHash : Hash)
  | storeEnumTag (address : String) (typeHash : Hash) (variant : String)
    (variantSymbol : Option Hash) (tagValue : UInt64)
  | load (id address : String) (typeHash : Hash)
  | store (address value : String) (typeHash : Hash)
  | copy (id value : String) (typeHash : Hash)
  | move (id address : String) (typeHash : Hash)
  | drop (address : String) (typeHash : Hash)
  | freeBoxShell (address : String) (boxTypeHash : Hash)
  | borrowDebug (address : String) (mutable : Bool) (region : Option String) (typeHash : Hash)
  | return_ (value : String) (typeHash : Hash)
  | earlyReturn (value : String) (typeHash : Hash)

inductive LoweredBlock where
  | mk (operations : List LoweredOp) (result : String)

inductive LoweredCaseArm where
  | mk (variant : String) (variantSymbol : Option Hash) (tagValue : UInt64)
    (payloadTypeHash : Hash) (payloadOffsetBytes : UInt64) (block : LoweredBlock)

end

structure LoweredParamSlot where
  slot : Nat
  typeHash : Hash

structure LoweredLocalSlot where
  slot : Nat
  typeHash : Hash
  sizeBytes : UInt64

structure LoweredTypeAbi where
  pass : String
  return_ : String

structure LoweredTypeLayout where
  typeHash : Hash
  kind : String
  sizeBytes : UInt64
  alignBytes : UInt64
  abi : LoweredTypeAbi
  metadata : JsonValue

structure LoweredDebugOp where
  loweredOpId : String
  valueId : String
  loweredOpKind : String
  exprHash : Hash

structure LoweredExprOpMap where
  exprHash : Hash
  loweredOpIds : List String

structure LoweredDebugMap where
  schema : String
  operations : List LoweredDebugOp
  exprToOps : List LoweredExprOpMap

structure LoweredFunctionIr where
  schema : String
  symbolHash : Hash
  functionDefHash : Hash
  functionSigHash : Hash
  typedBodyExprHash : Hash
  params : List LoweredParamSlot
  locals : List LoweredLocalSlot
  returnTypeHash : Hash
  typeLayouts : List LoweredTypeLayout
  operations : List LoweredOp
  debugMap : LoweredDebugMap

end CodeDb

import CodeDb.Cir.Format
import CodeDb.Language.Evaluator
import CodeDb.Store.Hashing

/-!
# The encoder

The encoder goes over a function once and writes its operations, its tables and pools growing as
it meets strings, values and types. The tables of a function stand before what refers to them, so
the operations are written first and put behind the tables.

## Main definitions

* `Encode` — computations that write bytes and grow tables
* `encodeOp`, `encodeBlock`, `encodePlace` — operations, blocks and places
* `encodeFunction`, `encodeCir` — a function, and a whole program
-/

namespace CodeDb

namespace Cir

/-- The pools of a program. -/
structure Pools where
  strings : Table String
  data : Table (List UInt8)

/-- The tables of a function. -/
structure FnTables where
  values : Table String
  types : Table Hash

/-- What the encoder has at hand: the pools, the tables of the function it is in, and what is
written so far. -/
structure Coder where
  pools : Pools
  tables : FnTables
  out : List UInt8

abbrev Encode (α : Type) := StateT Coder (Except Error) α

/-! ### Fields -/

def write (bytes : List UInt8) : Encode Unit :=
  modify fun coder => { coder with out := coder.out ++ bytes }

def writeU8 (value : UInt8) : Encode Unit := write [value]

def writeU32 (value : UInt32) : Encode Unit := write (Binary.leBytes 4 value.toNat)

def writeU64 (value : UInt64) : Encode Unit := write (Binary.leBytes 8 value.toNat)

def writeI64 (value : Int) : Encode Unit :=
  write (Binary.leBytes 8 (BitVec.ofInt 64 value).toNat)

def writeBool (value : Bool) : Encode Unit := writeU8 (if value then 1 else 0)

def writeUsizeU32 (value : Nat) (what : String) : Encode Unit :=
  if value < 2 ^ 32 then writeU32 (UInt32.ofNat value)
  else throw ("CIR " ++ what ++ " exceeds u32 range")

/-- Write the index of a string of the pool. -/
def writeStr (value : String) : Encode Unit := do
  let coder ← get
  let (index, strings) ← liftM (coder.pools.strings.intern value "string pool fits u32")
  set { coder with pools := { coder.pools with strings } }
  writeU32 index

/-- Write the index of a blob of the pool. -/
def writeData (value : List UInt8) : Encode Unit := do
  let coder ← get
  let (index, data) ← liftM (coder.pools.data.intern value "data pool fits u32")
  set { coder with pools := { coder.pools with data } }
  writeU32 index

/-- Write the index of a value of the function. -/
def writeVref (id : String) : Encode Unit := do
  let coder ← get
  let (index, values) ← liftM (coder.tables.values.intern id "value table fits u32")
  set { coder with tables := { coder.tables with values } }
  writeU32 index

/-- Write the index of a type of the function. -/
def writeTref (typeHash : Hash) : Encode Unit := do
  let coder ← get
  let (index, types) ← liftM (coder.tables.types.intern typeHash "type table fits u32")
  set { coder with tables := { coder.tables with types } }
  writeU32 index

/-- Write whether there is something, and what it is. -/
def writeOption {α : Type} (writeSome : α → Encode Unit) : Option α → Encode Unit
  | some value => do
    writeU8 1
    writeSome value
  | none => writeU8 0

def ostr : Option String → Encode Unit := writeOption writeStr

def ovref : Option String → Encode Unit := writeOption writeVref

def encodeTrap : Option LoweredTrap → Encode Unit :=
  writeOption fun trap => do
    writeStr trap.condition
    writeStr trap.code

/-- Write some things one after the other. -/
def writeAll {α : Type} (writeOne : α → Encode Unit) : List α → Encode Unit
  | [] => pure ()
  | a :: l => do
    writeOne a
    writeAll writeOne l

def writeSemColumns (kind : String) : Encode Unit := do
  let (verb, width, signed) ← liftM (semColumns kind)
  writeU8 verb
  writeU8 width
  writeU8 signed

/-- The value of a hexadecimal digit in lower case. -/
def hexValue (c : Char) : Option UInt8 :=
  if '0' ≤ c ∧ c ≤ '9' then some (UInt8.ofNat (c.toNat - '0'.toNat))
  else if 'a' ≤ c ∧ c ≤ 'f' then some (UInt8.ofNat (c.toNat - 'a'.toNat + 10))
  else none

def hexToBytes (hex : String) : Except Error (List UInt8) :=
  if (utf8 hex).length % 2 ≠ 0 then .error "hex byte string must have even length"
  else pairs hex.toList
where
  pairs : List Char → Except Error (List UInt8)
    | high :: low :: rest =>
      match hexValue high, hexValue low with
      | some h, some l => do return (h <<< 4 ||| l) :: (← pairs rest)
      | _, _ => .error "hex byte string must use lowercase hex digits"
    | [] => .ok []
    | [_] => .error "hex byte string must use lowercase hex digits"

def bytesToHex (bytes : List UInt8) : String := String.ofList (hexEncode bytes)

def encodeStaticData (bytesHex : String) : Encode Unit := do
  let bytes ← liftM (hexToBytes bytesHex)
  if bytesToHex bytes ≠ bytesHex then throw "CIR static data hex is not canonical lowercase"
  else writeData bytes

def encodePlace : LoweredPlace → Encode Unit
  | .param slot typeHash indirect => do
    writeU8 placekind.param
    writeUsizeU32 slot "param slot"
    writeTref typeHash
    writeBool indirect
  | .local_ slot typeHash => do
    writeU8 placekind.local_
    writeUsizeU32 slot "local slot"
    writeTref typeHash
  | .field base field fieldSymbol ownerTypeHash offsetBytes typeHash => do
    writeU8 placekind.field
    writeVref base
    writeStr field
    ostr fieldSymbol
    writeTref ownerTypeHash
    writeU64 offsetBytes
    writeTref typeHash
  | .enumPayload base variant variantSymbol ownerTypeHash tagValue payloadOffsetBytes typeHash => do
    writeU8 placekind.enumPayload
    writeVref base
    writeStr variant
    ostr variantSymbol
    writeTref ownerTypeHash
    writeU64 tagValue
    writeU64 payloadOffsetBytes
    writeTref typeHash
  | .index base index elementTypeHash typeHash => do
    writeU8 placekind.index
    writeVref base
    writeVref index
    writeTref elementTypeHash
    writeTref typeHash

/-! ### Operations -/

section Operations

variable (fnIndex : List Hash)

mutual

def encodeOp : LoweredOp → Encode Unit
  | .param id slot typeHash => do
    writeU8 opcode.param
    writeVref id
    writeUsizeU32 slot "param slot"
    writeTref typeHash
  | .constI64 id value typeHash =>
    match parseI64 value with
    | none => throw ("CIR const_i64 value " ++ value ++ " is not a canonical i64")
    | some parsed =>
      if toString parsed ≠ value then
        throw ("CIR const_i64 value " ++ value ++ " is not in canonical decimal form")
      else do
        writeU8 opcode.constI64
        writeVref id
        writeI64 parsed
        writeTref typeHash
  | .constBool id value typeHash => do
    writeU8 opcode.constBool
    writeVref id
    writeBool value
    writeTref typeHash
  | .constUnit id typeHash => do
    writeU8 opcode.constUnit
    writeVref id
    writeTref typeHash
  | .unary id kind value typeHash => do
    writeU8 opcode.unary
    writeVref id
    writeStr kind
    writeSemColumns kind
    writeVref value
    writeTref typeHash
  | .intCast id value typeHash => do
    writeU8 opcode.intCast
    writeVref id
    writeVref value
    writeTref typeHash
  | .binary id kind left right typeHash trap => do
    writeU8 opcode.binary
    writeVref id
    writeStr kind
    writeSemColumns kind
    writeVref left
    writeVref right
    writeTref typeHash
    encodeTrap trap
  | .call id targetSymbolHash targetAbiSymbol args returnAddress typeHash =>
    -- the target is looked up before anything is written
    match fnIndex.idxOf? targetSymbolHash with
    | none => throw ("CIR call target " ++ targetSymbolHash ++ " is not in the function table")
    | some target => do
      writeU8 opcode.call
      writeVref id
      writeU32 (UInt32.ofNat target)
      ostr targetAbiSymbol
      writeUsizeU32 args.length "call arg count"
      writeAll writeVref args
      ovref returnAddress
      writeTref typeHash
  | .if_ id cond thenBlock elseBlock typeHash => do
    writeU8 opcode.if_
    writeVref id
    writeVref cond
    encodeBlock thenBlock
    encodeBlock elseBlock
    writeTref typeHash
  | .case id scrutinee enumTypeHash arms typeHash => do
    writeU8 opcode.case
    writeVref id
    writeVref scrutinee
    writeTref enumTypeHash
    writeUsizeU32 arms.length "case arm count"
    encodeArms arms
    writeTref typeHash
  | .fold id targetAddress targetTypeHash len init indexSlot accSlot itemSlot body elementTypeHash
      accTypeHash typeHash => do
    writeU8 opcode.fold
    writeVref id
    writeVref targetAddress
    writeTref targetTypeHash
    writeVref len
    writeVref init
    writeUsizeU32 indexSlot "fold index slot"
    writeUsizeU32 accSlot "fold acc slot"
    writeUsizeU32 itemSlot "fold item slot"
    encodeBlock body
    writeTref elementTypeHash
    writeTref accTypeHash
    writeTref typeHash
  | .loop id accSlot init cond body accTypeHash typeHash => do
    writeU8 opcode.loop
    writeVref id
    writeUsizeU32 accSlot "loop acc slot"
    writeVref init
    encodeBlock cond
    encodeBlock body
    writeTref accTypeHash
    writeTref typeHash
  | .borrowShared id address region referentTypeHash typeHash => do
    writeU8 opcode.borrowShared
    writeVref id
    writeVref address
    writeStr region
    writeTref referentTypeHash
    writeTref typeHash
  | .borrowMut id address region referentTypeHash typeHash => do
    writeU8 opcode.borrowMut
    writeVref id
    writeVref address
    writeStr region
    writeTref referentTypeHash
    writeTref typeHash
  | .derefShared id reference referentTypeHash => do
    writeU8 opcode.derefShared
    writeVref id
    writeVref reference
    writeTref referentTypeHash
  | .derefMut id reference referentTypeHash => do
    writeU8 opcode.derefMut
    writeVref id
    writeVref reference
    writeTref referentTypeHash
  | .derefBox id boxValue boxTypeHash elementTypeHash => do
    writeU8 opcode.derefBox
    writeVref id
    writeVref boxValue
    writeTref boxTypeHash
    writeTref elementTypeHash
  | .unboxMove id boxValue boxTypeHash elementTypeHash destSlot => do
    writeU8 opcode.unboxMove
    writeVref id
    writeVref boxValue
    writeTref boxTypeHash
    writeTref elementTypeHash
    writeUsizeU32 destSlot "unbox dest slot"
  | .heapAlloc id sizeBytes alignBytes elementTypeHash typeHash => do
    writeU8 opcode.heapAlloc
    writeVref id
    writeU64 sizeBytes
    writeU64 alignBytes
    writeTref elementTypeHash
    writeTref typeHash
  | .ptrCast id value sourceTypeHash typeHash => do
    writeU8 opcode.ptrCast
    writeVref id
    writeVref value
    writeTref sourceTypeHash
    writeTref typeHash
  | .derefRaw id pointer pointerTypeHash pointeeTypeHash mutable => do
    writeU8 opcode.derefRaw
    writeVref id
    writeVref pointer
    writeTref pointerTypeHash
    writeTref pointeeTypeHash
    writeBool mutable
  | .addrOfParam id place => do
    writeU8 opcode.addrOfParam
    writeVref id
    encodePlace place
  | .addrOfLocal id place => do
    writeU8 opcode.addrOfLocal
    writeVref id
    encodePlace place
  | .addrOfField id place => do
    writeU8 opcode.addrOfField
    writeVref id
    encodePlace place
  | .addrOfEnumPayload id place => do
    writeU8 opcode.addrOfEnumPayload
    writeVref id
    encodePlace place
  | .addrOfIndex id place => do
    writeU8 opcode.addrOfIndex
    writeVref id
    encodePlace place
  | .staticDataAddress id staticDataHash bytesHex len elementTypeHash => do
    writeU8 opcode.staticDataAddress
    writeVref id
    writeStr staticDataHash
    encodeStaticData bytesHex
    writeU64 len
    writeTref elementTypeHash
  | .constructSlice id address dataAddress len elementTypeHash typeHash => do
    writeU8 opcode.constructSlice
    writeVref id
    writeVref address
    writeVref dataAddress
    writeVref len
    writeTref elementTypeHash
    writeTref typeHash
  | .sliceLen id slice sliceTypeHash typeHash => do
    writeU8 opcode.sliceLen
    writeVref id
    writeVref slice
    writeTref sliceTypeHash
    writeTref typeHash
  | .sliceData id slice sliceTypeHash elementTypeHash => do
    writeU8 opcode.sliceData
    writeVref id
    writeVref slice
    writeTref sliceTypeHash
    writeTref elementTypeHash
  | .vecNew id address capacity elementTypeHash typeHash => do
    writeU8 opcode.vecNew
    writeVref id
    writeVref address
    writeU64 capacity
    writeTref elementTypeHash
    writeTref typeHash
  | .vecPush id vecAddress value vecTypeHash elementTypeHash typeHash => do
    writeU8 opcode.vecPush
    writeVref id
    writeVref vecAddress
    writeVref value
    writeTref vecTypeHash
    writeTref elementTypeHash
    writeTref typeHash
  | .vecGet id vecAddress index vecTypeHash elementTypeHash typeHash => do
    writeU8 opcode.vecGet
    writeVref id
    writeVref vecAddress
    writeVref index
    writeTref vecTypeHash
    writeTref elementTypeHash
    writeTref typeHash
  | .vecLen id vecAddress vecTypeHash typeHash => do
    writeU8 opcode.vecLen
    writeVref id
    writeVref vecAddress
    writeTref vecTypeHash
    writeTref typeHash
  | .stringNew id address staticDataHash bytesHex len typeHash => do
    writeU8 opcode.stringNew
    writeVref id
    writeVref address
    writeStr staticDataHash
    encodeStaticData bytesHex
    writeU64 len
    writeTref typeHash
  | .stringLen id stringAddress stringTypeHash typeHash => do
    writeU8 opcode.stringLen
    writeVref id
    writeVref stringAddress
    writeTref stringTypeHash
    writeTref typeHash
  | .stringWithCapacity id address capacity typeHash => do
    writeU8 opcode.stringWithCapacity
    writeVref id
    writeVref address
    writeVref capacity
    writeTref typeHash
  | .stringPush id stringAddress value stringTypeHash typeHash => do
    writeU8 opcode.stringPush
    writeVref id
    writeVref stringAddress
    writeVref value
    writeTref stringTypeHash
    writeTref typeHash
  | .stringGet id stringAddress index stringTypeHash typeHash => do
    writeU8 opcode.stringGet
    writeVref id
    writeVref stringAddress
    writeVref index
    writeTref stringTypeHash
    writeTref typeHash
  | .stringSet id stringAddress index value stringTypeHash typeHash => do
    writeU8 opcode.stringSet
    writeVref id
    writeVref stringAddress
    writeVref index
    writeVref value
    writeTref stringTypeHash
    writeTref typeHash
  | .argCount id typeHash => do
    writeU8 opcode.argCount
    writeVref id
    writeTref typeHash
  | .argLen id index typeHash => do
    writeU8 opcode.argLen
    writeVref id
    writeVref index
    writeTref typeHash
  | .argByte id index byte typeHash => do
    writeU8 opcode.argByte
    writeVref id
    writeVref index
    writeVref byte
    writeTref typeHash
  | .boundsCheck id index len lenValue typeHash => do
    writeU8 opcode.boundsCheck
    writeVref id
    writeVref index
    writeU64 len
    ovref lenValue
    writeTref typeHash
  | .sliceRangeCheck id start len sourceLen typeHash => do
    writeU8 opcode.sliceRangeCheck
    writeVref id
    writeVref start
    writeVref len
    writeVref sourceLen
    writeTref typeHash
  | .loadEnumTag id address typeHash => do
    writeU8 opcode.loadEnumTag
    writeVref id
    writeVref address
    writeTref typeHash
  | .storeEnumTag address typeHash variant variantSymbol tagValue => do
    writeU8 opcode.storeEnumTag
    writeVref address
    writeTref typeHash
    writeStr variant
    ostr variantSymbol
    writeU64 tagValue
  | .load id address typeHash => do
    writeU8 opcode.load
    writeVref id
    writeVref address
    writeTref typeHash
  | .store address value typeHash => do
    writeU8 opcode.store
    writeVref address
    writeVref value
    writeTref typeHash
  | .copy id value typeHash => do
    writeU8 opcode.copy
    writeVref id
    writeVref value
    writeTref typeHash
  | .move id address typeHash => do
    writeU8 opcode.move
    writeVref id
    writeVref address
    writeTref typeHash
  | .drop address typeHash => do
    writeU8 opcode.drop
    writeVref address
    writeTref typeHash
  | .freeBoxShell address boxTypeHash => do
    writeU8 opcode.freeBoxShell
    writeVref address
    writeTref boxTypeHash
  | .borrowDebug address mutable region typeHash => do
    writeU8 opcode.borrowDebug
    writeVref address
    writeBool mutable
    ostr region
    writeTref typeHash
  | .return_ value typeHash => do
    writeU8 opcode.return_
    writeVref value
    writeTref typeHash
  | .earlyReturn value typeHash => do
    writeU8 opcode.earlyReturn
    writeVref value
    writeTref typeHash

def encodeBlock : LoweredBlock → Encode Unit
  | .mk operations result => do
    writeUsizeU32 operations.length "block op count"
    encodeOps operations
    writeVref result

def encodeOps : List LoweredOp → Encode Unit
  | [] => pure ()
  | op :: operations => do
    encodeOp op
    encodeOps operations

def encodeArms : List LoweredCaseArm → Encode Unit
  | [] => pure ()
  | .mk variant variantSymbol tagValue payloadTypeHash payloadOffsetBytes block :: arms => do
    writeStr variant
    ostr variantSymbol
    writeU64 tagValue
    writeTref payloadTypeHash
    writeU64 payloadOffsetBytes
    encodeBlock block
    encodeArms arms

end

/-! ### Functions -/

def encodeDebugMap (debug : LoweredDebugMap) : Encode Unit := do
  writeStr debug.schema
  writeUsizeU32 debug.operations.length "debug op count"
  writeAll (fun op => do
    writeStr op.loweredOpId
    writeStr op.valueId
    writeStr op.loweredOpKind
    writeStr op.exprHash) debug.operations
  writeUsizeU32 debug.exprToOps.length "debug expr map count"
  writeAll (fun entry => do
    writeStr entry.exprHash
    writeUsizeU32 entry.loweredOpIds.length "debug expr op-id count"
    writeAll writeStr entry.loweredOpIds) debug.exprToOps

/-- The slots of rows are their indices. -/
def checkDense (what : String) (slots : List Nat) : Except Error Unit :=
  match slots.zipIdx.find? fun (slot, index) => slot ≠ index with
  | some (slot, index) => .error ("CIR " ++ what ++ " slots must be dense and in order (row " ++
      toString index ++ " has slot " ++ toString slot ++ ")")
  | none => .ok ()

/-- What refers to the tables of a function. -/
def encodeTail (ir : LoweredFunctionIr) : Encode Unit := do
  writeTref ir.returnTypeHash
  writeUsizeU32 ir.params.length "param count"
  writeAll (fun param => do
    writeUsizeU32 param.slot "param slot"
    writeTref param.typeHash) ir.params
  writeUsizeU32 ir.locals.length "local count"
  writeAll (fun slot => do
    writeUsizeU32 slot.slot "local slot"
    writeTref slot.typeHash
    writeU64 slot.sizeBytes) ir.locals
  writeUsizeU32 ir.operations.length "op count"
  encodeOps fnIndex ir.operations
  encodeDebugMap ir.debugMap

end Operations

section Functions

variable (P : Primitives) (fnIndex : List Hash)

def encodeLayout (layout : LoweredTypeLayout) : Encode Unit := do
  writeStr layout.typeHash
  writeStr layout.kind
  writeU64 layout.sizeBytes
  writeU64 layout.alignBytes
  writeStr layout.abi.pass
  writeStr layout.abi.return_
  writeStr (canonicalJson P.floatText layout.metadata)
  let columns ← liftM (bufferColumns layout)
  writeAll writeU64 columns

/-- The index of the layout of a type. The last one counts. -/
def layoutIndex (layouts : List LoweredTypeLayout) (typeHash : Hash) : Option Nat :=
  (layouts.zipIdx.reverse.find? fun (layout, _) => layout.typeHash = typeHash).map (·.2)

def encodeTypeRow (layouts : List LoweredTypeLayout) (typeHash : Hash) : Encode Unit := do
  writeStr typeHash
  let layoutRef : UInt32 := ((layoutIndex layouts typeHash).map UInt32.ofNat).getD noLayout
  writeU32 layoutRef
  let layout := if layoutRef = noLayout then none else layouts[layoutRef.toNat]?
  let (metaKind, metaSize) := typeMetaColumns P typeHash layout
  writeU8 metaKind
  writeU64 metaSize

/-- What stands before what refers to the tables of a function. -/
def encodeHead (ir : LoweredFunctionIr) (tables : FnTables) : Encode Unit := do
  writeStr ir.schema
  writeStr ir.symbolHash
  writeStr ir.functionDefHash
  writeStr ir.functionSigHash
  writeStr ir.typedBodyExprHash
  writeUsizeU32 ir.typeLayouts.length "layout count"
  writeAll (encodeLayout P) ir.typeLayouts
  writeUsizeU32 tables.types.entries.length "type table count"
  writeAll (encodeTypeRow P ir.typeLayouts) tables.types.entries
  writeUsizeU32 tables.values.entries.length "value table count"
  writeAll writeStr tables.values.entries

/-- The section of a function, and the pools as they are then. -/
def encodeFunction (pools : Pools) (ir : LoweredFunctionIr) :
    Except Error (List UInt8 × Pools) := do
  checkDense "param" (ir.params.map (·.slot))
  checkDense "local" (ir.locals.map (·.slot))
  let ((), tail) ← (encodeTail fnIndex ir).run ⟨pools, ⟨.empty, .empty⟩, []⟩
  let ((), head) ← (encodeHead P ir tail.tables).run { tail with out := [] }
  return (head.out ++ tail.out, head.pools)

/-- The sections of functions, the pools growing. -/
def encodeFunctions (pools : Pools) : List LoweredFunctionIr →
    Except Error (List (List UInt8) × Pools)
  | [] => .ok ([], pools)
  | ir :: functions => do
    let (section_, pools) ← encodeFunction P fnIndex pools ir
    let (sections, pools) ← encodeFunctions pools functions
    return (section_ :: sections, pools)

end Functions

/-! ### Programs -/

/-- A length in the format. -/
def lengthField (value : Nat) (what : String) : Except Error (List UInt8) :=
  if value < 2 ^ 32 then .ok (Binary.leBytes 4 value)
  else .error ("CIR " ++ what ++ " exceeds u32 range")

/-- A pool: how many entries there are, how long each is, and all of them. -/
def encodePool (count len : String) (entries : List (List UInt8)) : Except Error (List UInt8) := do
  let total ← lengthField entries.length count
  let lens ← entries.mapM fun entry => lengthField entry.length len
  return total ++ lens.flatten ++ entries.flatten

/-- The rows of the function table: the symbol of each function, and where its section is. -/
def encodeSpans (offset : Nat) : List (UInt32 × List UInt8) → Except Error (List UInt8)
  | [] => .ok []
  | (symbolRef, section_) :: rest => do
    let len ← lengthField section_.length "function section len"
    if offset + section_.length < 2 ^ 32 then
      let rows ← encodeSpans (offset + section_.length) rest
      return Binary.leBytes 4 symbolRef.toNat ++ Binary.leBytes 4 offset ++ len ++ rows
    else .error "CIR section region exceeds u32 range"

/-- The functions are sorted by their symbols, of which none is there twice. -/
def checkSorted : List LoweredFunctionIr → Except Error Unit
  | first :: second :: rest =>
    if second.symbolHash ≤ first.symbolHash then
      .error "CIR function table must be sorted by symbol hash"
    else checkSorted (second :: rest)
  | _ => .ok ()

/-- The strings of the pool that a program starts with. -/
def internAll (strings : Table String) : List String → Except Error (List UInt32 × Table String)
  | [] => .ok ([], strings)
  | value :: rest => do
    let (index, strings) ← strings.intern value "string pool fits u32"
    let (indices, strings) ← internAll strings rest
    return (index :: indices, strings)

/-- A whole program. -/
def encodeCir (P : Primitives) (target : String) (entryIndex : UInt32)
    (functions : List LoweredFunctionIr) : Except Error (List UInt8) := do
  if functions.isEmpty then throw "CIR requires at least one function"
  if functions.length ≤ entryIndex.toNat then
    throw ("CIR entry index " ++ toString entryIndex.toNat ++ " out of range")
  checkSorted functions
  let fnIndex := functions.map (·.symbolHash)
  let (targetRef, strings) ← Table.empty.intern target "string pool fits u32"
  let (symbolRefs, strings) ← internAll strings fnIndex
  let (sections, pools) ← encodeFunctions P fnIndex ⟨strings, .empty⟩ functions
  let stringPool ← encodePool "string pool count" "string byte len" (pools.strings.entries.map utf8)
  let dataPool ← encodePool "data pool count" "data blob len" pools.data.entries
  let functionCount ← lengthField functions.length "function count"
  let spans ← encodeSpans 0 (symbolRefs.zip sections)
  return magic ++ Binary.leBytes 4 version.toNat ++ stringPool ++ dataPool ++
    Binary.leBytes 4 targetRef.toNat ++ Binary.leBytes 4 entryIndex.toNat ++ functionCount ++
    spans ++ sections.flatten

end Cir

end CodeDb

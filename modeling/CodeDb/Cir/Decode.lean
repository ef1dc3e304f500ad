import CodeDb.Cir.Encode

/-!
# The decoder

The decoder reads the pools first, then the table of functions, and then the section of each,
whose tables come before what refers to them. It reads the columns for consumers and compares
them with what they follow from.

Operations are nested as deep as there are bytes: every one takes a byte before it goes into its
blocks.

## Main definitions

* `Decode` — computations that read bytes
* `rop`, `rblock`, `rplace` — operations, blocks and places
* `decodeFunction`, `decodeCir` — a function, and a whole program
-/

namespace CodeDb

namespace Cir

open Binary (ReadM Reader times)

abbrev Decode (α : Type) := ReadM Error α

/-! ### Fields -/

def take (len : Nat) : Decode (List UInt8) :=
  Binary.take (fun pos => "CIR truncated at offset " ++ toString pos) len

def u8 : Decode UInt8 := do return (← take 1).headD 0

def u32 : Decode UInt32 := do return UInt32.ofNat (Binary.ofLe (← take 4))

def u64 : Decode UInt64 := do return UInt64.ofNat (Binary.ofLe (← take 8))

def readI64 : Decode Int := do return (BitVec.ofNat 64 (Binary.ofLe (← take 8))).toInt

def rusize : Decode Nat := do return (← u32).toNat

def rbool : Decode Bool := do return (← u8) != 0

/-- What the decoder of a function has at hand: the pools, the symbols of the functions, and the
tables of the function. -/
structure FnDecoder where
  strings : List String
  data : List (List UInt8)
  fnSymbols : List Hash
  types : List Hash
  values : List String

/-- An entry of a table. -/
def entry {α : Type} (table : List α) (what : String) (index : UInt32) : Except Error α :=
  match table[index.toNat]? with
  | some value => .ok value
  | none => .error ("CIR " ++ what ++ " index " ++ toString index.toNat ++ " out of range")

section Operations

variable (D : FnDecoder)

def rstr : Decode String := do entry D.strings "string" (← u32)

def rtype : Decode Hash := do entry D.types "type" (← u32)

def rvalue : Decode String := do entry D.values "value" (← u32)

def rdataHex : Decode String := do return bytesToHex (← entry D.data "data" (← u32))

/-- Read whether there is something, and what it is. -/
def roption {α : Type} (some_ : Decode α) : Decode (Option α) := do
  match ← u8 with
  | 0 => return none
  | 1 => return some (← some_)
  | other => throw ("CIR invalid option flag " ++ toString other.toNat)

def rostr : Decode (Option String) := roption (rstr D)

def rovalue : Decode (Option String) := roption (rvalue D)

def rtrap : Decode (Option LoweredTrap) :=
  roption do return { condition := ← rstr D, code := ← rstr D }

/-- Read what an operator does, which follows from its kind. -/
def rcheckSemColumns (kind : String) : Decode Unit := do
  let stored := (← u8, ← u8, ← u8)
  if stored ≠ (← liftM (semColumns kind)) then
    throw ("CIR operator consumer columns are inconsistent for kind " ++ kind)

def rblock (rop : Decode LoweredOp) : Decode LoweredBlock := do
  let count ← rusize
  let operations ← times count rop
  let result ← rvalue D
  return .mk operations result

def rarm (rop : Decode LoweredOp) : Decode LoweredCaseArm := do
  let variant ← rstr D
  let variantSymbol ← rostr D
  let tagValue ← u64
  let payloadTypeHash ← rtype D
  let payloadOffsetBytes ← u64
  let block ← rblock D rop
  return .mk variant variantSymbol tagValue payloadTypeHash payloadOffsetBytes block

def rplaceOf : UInt8 → Decode LoweredPlace
  | placekind.param => do
    let slot ← rusize
    let typeHash ← rtype D
    let indirect ← rbool
    return .param slot typeHash indirect
  | placekind.local_ => do
    let slot ← rusize
    let typeHash ← rtype D
    return .local_ slot typeHash
  | placekind.field => do
    let base ← rvalue D
    let field ← rstr D
    let fieldSymbol ← rostr D
    let ownerTypeHash ← rtype D
    let offsetBytes ← u64
    let typeHash ← rtype D
    return .field base field fieldSymbol ownerTypeHash offsetBytes typeHash
  | placekind.enumPayload => do
    let base ← rvalue D
    let variant ← rstr D
    let variantSymbol ← rostr D
    let ownerTypeHash ← rtype D
    let tagValue ← u64
    let payloadOffsetBytes ← u64
    let typeHash ← rtype D
    return .enumPayload base variant variantSymbol ownerTypeHash tagValue payloadOffsetBytes
      typeHash
  | placekind.index => do
    let base ← rvalue D
    let index ← rvalue D
    let elementTypeHash ← rtype D
    let typeHash ← rtype D
    return .index base index elementTypeHash typeHash
  | other => throw ("CIR unknown place kind " ++ toString other.toNat)

def rplace : Decode LoweredPlace := do rplaceOf D (← u8)

/-- The operation of a code, given how the operations in its blocks are read. -/
def ropOf (rop : Decode LoweredOp) : UInt8 → Decode LoweredOp
  | opcode.param => do
    let id ← rvalue D
    let slot ← rusize
    let typeHash ← rtype D
    return .param id slot typeHash
  | opcode.constI64 => do
    let id ← rvalue D
    let value ← readI64
    let typeHash ← rtype D
    return .constI64 id (toString value) typeHash
  | opcode.constBool => do
    let id ← rvalue D
    let value ← rbool
    let typeHash ← rtype D
    return .constBool id value typeHash
  | opcode.constUnit => do
    let id ← rvalue D
    let typeHash ← rtype D
    return .constUnit id typeHash
  | opcode.unary => do
    let id ← rvalue D
    let kind ← rstr D
    rcheckSemColumns kind
    let value ← rvalue D
    let typeHash ← rtype D
    return .unary id kind value typeHash
  | opcode.intCast => do
    let id ← rvalue D
    let value ← rvalue D
    let typeHash ← rtype D
    return .intCast id value typeHash
  | opcode.binary => do
    let id ← rvalue D
    let kind ← rstr D
    rcheckSemColumns kind
    let left ← rvalue D
    let right ← rvalue D
    let typeHash ← rtype D
    let trap ← rtrap D
    return .binary id kind left right typeHash trap
  | opcode.call => do
    let id ← rvalue D
    let targetSymbolHash ← do entry D.fnSymbols "call target" (← u32)
    let targetAbiSymbol ← rostr D
    let argCount ← rusize
    let args ← times argCount (rvalue D)
    let returnAddress ← rovalue D
    let typeHash ← rtype D
    return .call id targetSymbolHash targetAbiSymbol args returnAddress typeHash
  | opcode.if_ => do
    let id ← rvalue D
    let cond ← rvalue D
    let thenBlock ← rblock D rop
    let elseBlock ← rblock D rop
    let typeHash ← rtype D
    return .if_ id cond thenBlock elseBlock typeHash
  | opcode.case => do
    let id ← rvalue D
    let scrutinee ← rvalue D
    let enumTypeHash ← rtype D
    let armCount ← rusize
    let arms ← times armCount (rarm D rop)
    let typeHash ← rtype D
    return .case id scrutinee enumTypeHash arms typeHash
  | opcode.fold => do
    let id ← rvalue D
    let targetAddress ← rvalue D
    let targetTypeHash ← rtype D
    let len ← rvalue D
    let init ← rvalue D
    let indexSlot ← rusize
    let accSlot ← rusize
    let itemSlot ← rusize
    let body ← rblock D rop
    let elementTypeHash ← rtype D
    let accTypeHash ← rtype D
    let typeHash ← rtype D
    return .fold id targetAddress targetTypeHash len init indexSlot accSlot itemSlot body
      elementTypeHash accTypeHash typeHash
  | opcode.loop => do
    let id ← rvalue D
    let accSlot ← rusize
    let init ← rvalue D
    let cond ← rblock D rop
    let body ← rblock D rop
    let accTypeHash ← rtype D
    let typeHash ← rtype D
    return .loop id accSlot init cond body accTypeHash typeHash
  | opcode.borrowShared => do
    let id ← rvalue D
    let address ← rvalue D
    let region ← rstr D
    let referentTypeHash ← rtype D
    let typeHash ← rtype D
    return .borrowShared id address region referentTypeHash typeHash
  | opcode.borrowMut => do
    let id ← rvalue D
    let address ← rvalue D
    let region ← rstr D
    let referentTypeHash ← rtype D
    let typeHash ← rtype D
    return .borrowMut id address region referentTypeHash typeHash
  | opcode.derefShared => do
    let id ← rvalue D
    let reference ← rvalue D
    let referentTypeHash ← rtype D
    return .derefShared id reference referentTypeHash
  | opcode.derefMut => do
    let id ← rvalue D
    let reference ← rvalue D
    let referentTypeHash ← rtype D
    return .derefMut id reference referentTypeHash
  | opcode.derefBox => do
    let id ← rvalue D
    let boxValue ← rvalue D
    let boxTypeHash ← rtype D
    let elementTypeHash ← rtype D
    return .derefBox id boxValue boxTypeHash elementTypeHash
  | opcode.unboxMove => do
    let id ← rvalue D
    let boxValue ← rvalue D
    let boxTypeHash ← rtype D
    let elementTypeHash ← rtype D
    let destSlot ← rusize
    return .unboxMove id boxValue boxTypeHash elementTypeHash destSlot
  | opcode.heapAlloc => do
    let id ← rvalue D
    let sizeBytes ← u64
    let alignBytes ← u64
    let elementTypeHash ← rtype D
    let typeHash ← rtype D
    return .heapAlloc id sizeBytes alignBytes elementTypeHash typeHash
  | opcode.ptrCast => do
    let id ← rvalue D
    let value ← rvalue D
    let sourceTypeHash ← rtype D
    let typeHash ← rtype D
    return .ptrCast id value sourceTypeHash typeHash
  | opcode.derefRaw => do
    let id ← rvalue D
    let pointer ← rvalue D
    let pointerTypeHash ← rtype D
    let pointeeTypeHash ← rtype D
    let mutable ← rbool
    return .derefRaw id pointer pointerTypeHash pointeeTypeHash mutable
  | opcode.addrOfParam => do
    let id ← rvalue D
    let place ← rplace D
    return .addrOfParam id place
  | opcode.addrOfLocal => do
    let id ← rvalue D
    let place ← rplace D
    return .addrOfLocal id place
  | opcode.addrOfField => do
    let id ← rvalue D
    let place ← rplace D
    return .addrOfField id place
  | opcode.addrOfEnumPayload => do
    let id ← rvalue D
    let place ← rplace D
    return .addrOfEnumPayload id place
  | opcode.addrOfIndex => do
    let id ← rvalue D
    let place ← rplace D
    return .addrOfIndex id place
  | opcode.staticDataAddress => do
    let id ← rvalue D
    let staticDataHash ← rstr D
    let bytesHex ← rdataHex D
    let len ← u64
    let elementTypeHash ← rtype D
    return .staticDataAddress id staticDataHash bytesHex len elementTypeHash
  | opcode.constructSlice => do
    let id ← rvalue D
    let address ← rvalue D
    let dataAddress ← rvalue D
    let len ← rvalue D
    let elementTypeHash ← rtype D
    let typeHash ← rtype D
    return .constructSlice id address dataAddress len elementTypeHash typeHash
  | opcode.sliceLen => do
    let id ← rvalue D
    let slice ← rvalue D
    let sliceTypeHash ← rtype D
    let typeHash ← rtype D
    return .sliceLen id slice sliceTypeHash typeHash
  | opcode.sliceData => do
    let id ← rvalue D
    let slice ← rvalue D
    let sliceTypeHash ← rtype D
    let elementTypeHash ← rtype D
    return .sliceData id slice sliceTypeHash elementTypeHash
  | opcode.vecNew => do
    let id ← rvalue D
    let address ← rvalue D
    let capacity ← u64
    let elementTypeHash ← rtype D
    let typeHash ← rtype D
    return .vecNew id address capacity elementTypeHash typeHash
  | opcode.vecPush => do
    let id ← rvalue D
    let vecAddress ← rvalue D
    let value ← rvalue D
    let vecTypeHash ← rtype D
    let elementTypeHash ← rtype D
    let typeHash ← rtype D
    return .vecPush id vecAddress value vecTypeHash elementTypeHash typeHash
  | opcode.vecGet => do
    let id ← rvalue D
    let vecAddress ← rvalue D
    let index ← rvalue D
    let vecTypeHash ← rtype D
    let elementTypeHash ← rtype D
    let typeHash ← rtype D
    return .vecGet id vecAddress index vecTypeHash elementTypeHash typeHash
  | opcode.vecLen => do
    let id ← rvalue D
    let vecAddress ← rvalue D
    let vecTypeHash ← rtype D
    let typeHash ← rtype D
    return .vecLen id vecAddress vecTypeHash typeHash
  | opcode.stringNew => do
    let id ← rvalue D
    let address ← rvalue D
    let staticDataHash ← rstr D
    let bytesHex ← rdataHex D
    let len ← u64
    let typeHash ← rtype D
    return .stringNew id address staticDataHash bytesHex len typeHash
  | opcode.stringLen => do
    let id ← rvalue D
    let stringAddress ← rvalue D
    let stringTypeHash ← rtype D
    let typeHash ← rtype D
    return .stringLen id stringAddress stringTypeHash typeHash
  | opcode.stringWithCapacity => do
    let id ← rvalue D
    let address ← rvalue D
    let capacity ← rvalue D
    let typeHash ← rtype D
    return .stringWithCapacity id address capacity typeHash
  | opcode.stringPush => do
    let id ← rvalue D
    let stringAddress ← rvalue D
    let value ← rvalue D
    let stringTypeHash ← rtype D
    let typeHash ← rtype D
    return .stringPush id stringAddress value stringTypeHash typeHash
  | opcode.stringGet => do
    let id ← rvalue D
    let stringAddress ← rvalue D
    let index ← rvalue D
    let stringTypeHash ← rtype D
    let typeHash ← rtype D
    return .stringGet id stringAddress index stringTypeHash typeHash
  | opcode.stringSet => do
    let id ← rvalue D
    let stringAddress ← rvalue D
    let index ← rvalue D
    let value ← rvalue D
    let stringTypeHash ← rtype D
    let typeHash ← rtype D
    return .stringSet id stringAddress index value stringTypeHash typeHash
  | opcode.argCount => do
    let id ← rvalue D
    let typeHash ← rtype D
    return .argCount id typeHash
  | opcode.argLen => do
    let id ← rvalue D
    let index ← rvalue D
    let typeHash ← rtype D
    return .argLen id index typeHash
  | opcode.argByte => do
    let id ← rvalue D
    let index ← rvalue D
    let byte ← rvalue D
    let typeHash ← rtype D
    return .argByte id index byte typeHash
  | opcode.boundsCheck => do
    let id ← rvalue D
    let index ← rvalue D
    let len ← u64
    let lenValue ← rovalue D
    let typeHash ← rtype D
    return .boundsCheck id index len lenValue typeHash
  | opcode.sliceRangeCheck => do
    let id ← rvalue D
    let start ← rvalue D
    let len ← rvalue D
    let sourceLen ← rvalue D
    let typeHash ← rtype D
    return .sliceRangeCheck id start len sourceLen typeHash
  | opcode.loadEnumTag => do
    let id ← rvalue D
    let address ← rvalue D
    let typeHash ← rtype D
    return .loadEnumTag id address typeHash
  | opcode.storeEnumTag => do
    let address ← rvalue D
    let typeHash ← rtype D
    let variant ← rstr D
    let variantSymbol ← rostr D
    let tagValue ← u64
    return .storeEnumTag address typeHash variant variantSymbol tagValue
  | opcode.load => do
    let id ← rvalue D
    let address ← rvalue D
    let typeHash ← rtype D
    return .load id address typeHash
  | opcode.store => do
    let address ← rvalue D
    let value ← rvalue D
    let typeHash ← rtype D
    return .store address value typeHash
  | opcode.copy => do
    let id ← rvalue D
    let value ← rvalue D
    let typeHash ← rtype D
    return .copy id value typeHash
  | opcode.move => do
    let id ← rvalue D
    let address ← rvalue D
    let typeHash ← rtype D
    return .move id address typeHash
  | opcode.drop => do
    let address ← rvalue D
    let typeHash ← rtype D
    return .drop address typeHash
  | opcode.freeBoxShell => do
    let address ← rvalue D
    let boxTypeHash ← rtype D
    return .freeBoxShell address boxTypeHash
  | opcode.borrowDebug => do
    let address ← rvalue D
    let mutable ← rbool
    let region ← rostr D
    let typeHash ← rtype D
    return .borrowDebug address mutable region typeHash
  | opcode.return_ => do
    let value ← rvalue D
    let typeHash ← rtype D
    return .return_ value typeHash
  | opcode.earlyReturn => do
    let value ← rvalue D
    let typeHash ← rtype D
    return .earlyReturn value typeHash
  | other => throw ("CIR unknown opcode " ++ toString other.toNat)

/-- An operation, nested to a depth. -/
def rop : Nat → Decode LoweredOp
  | 0 => throw "CIR nested too deep"
  | depth + 1 => do ropOf D (rop depth) (← u8)

/-! ### Functions -/

def rdebugOp : Decode LoweredDebugOp := do
  let loweredOpId ← rstr D
  let valueId ← rstr D
  let loweredOpKind ← rstr D
  let exprHash ← rstr D
  return { loweredOpId, valueId, loweredOpKind, exprHash }

def rexprOpMap : Decode LoweredExprOpMap := do
  let exprHash ← rstr D
  let idCount ← rusize
  let loweredOpIds ← times idCount (rstr D)
  return { exprHash, loweredOpIds }

def rdebugMap : Decode LoweredDebugMap := do
  let schema ← rstr D
  let opCount ← rusize
  let operations ← times opCount (rdebugOp D)
  let mapCount ← rusize
  let exprToOps ← times mapCount (rexprOpMap D)
  return { schema, operations, exprToOps }

/-- Read a slot, which is the index of its row. -/
def rslot (what : String) (index : Nat) : Decode Nat := do
  let slot ← rusize
  if slot ≠ index then
    throw ("CIR " ++ what ++ " slots must be dense and in order (row " ++ toString index ++
      " has slot " ++ toString slot ++ ")")
  return slot

def rparam (index : Nat) : Decode LoweredParamSlot := do
  let slot ← rslot "param" index
  let typeHash ← rtype D
  return { slot, typeHash }

def rlocal (index : Nat) : Decode LoweredLocalSlot := do
  let slot ← rslot "local" index
  let typeHash ← rtype D
  let sizeBytes ← u64
  return { slot, typeHash, sizeBytes }

/-- What refers to the tables of a function. -/
structure Tail where
  returnTypeHash : Hash
  params : List LoweredParamSlot
  locals : List LoweredLocalSlot
  operations : List LoweredOp
  debugMap : LoweredDebugMap

def rtail (depth : Nat) : Decode Tail := do
  let returnTypeHash ← rtype D
  let paramCount ← rusize
  let params ← (List.range paramCount).mapM (rparam D)
  let localCount ← rusize
  let locals ← (List.range localCount).mapM (rlocal D)
  let opCount ← rusize
  let operations ← times opCount (rop D depth)
  let debugMap ← rdebugMap D
  return { returnTypeHash, params, locals, operations, debugMap }

end Operations

section Functions

variable (P : Primitives) (D : FnDecoder)

/-- The metadata of a layout from its text. -/
def parseMetadata (metadataJson : String) : Except Error JsonValue :=
  match P.parseJson metadataJson with
  | .ok metadata => .ok metadata
  | .error err => .error ("CIR layout metadata is not valid JSON: " ++ err)

/-- Read a layout, whose columns follow from it. -/
def rlayout : Decode LoweredTypeLayout := do
  let typeHash ← rstr D
  let kind ← rstr D
  let sizeBytes ← u64
  let alignBytes ← u64
  let pass ← rstr D
  let return_ ← rstr D
  let metadataJson ← rstr D
  let metadata ← liftM (parseMetadata P metadataJson)
  let layout := { typeHash, kind, sizeBytes, alignBytes, abi := { pass, return_ }, metadata }
  let stored ← times 5 u64
  if stored ≠ (← liftM (bufferColumns layout)) then
    throw ("CIR buffer consumer columns are inconsistent for " ++ typeHash)
  return layout

/-- The layout that a row of the type table links to. -/
def linkedLayout (layouts : List LoweredTypeLayout) (typeHash : Hash) (layoutRef : UInt32) :
    Except Error (Option LoweredTypeLayout) :=
  if layoutRef = noLayout then .ok none
  else match layouts[layoutRef.toNat]? with
    | none => .error ("CIR type-table layout index " ++ toString layoutRef.toNat ++ " out of range")
    | some linked =>
      if linked.typeHash ≠ typeHash then
        .error ("CIR type-table layout link mismatch for " ++ typeHash)
      else .ok (some linked)

/-- Read a row of the type table, whose columns follow from it. -/
def rtypeRow (layouts : List LoweredTypeLayout) : Decode Hash := do
  let typeHash ← rstr D
  let layoutRef ← u32
  let layout ← liftM (linkedLayout layouts typeHash layoutRef)
  let metaKind ← u8
  let metaSize ← u64
  if (metaKind, metaSize) ≠ typeMetaColumns P typeHash layout then
    throw ("CIR type-meta consumer columns are inconsistent for " ++ typeHash)
  return typeHash

/-- What stands before what refers to the tables of a function. -/
structure Head where
  schema : String
  symbolHash : Hash
  functionDefHash : Hash
  functionSigHash : Hash
  typedBodyExprHash : Hash
  typeLayouts : List LoweredTypeLayout
  types : List Hash
  values : List String

def rhead : Decode Head := do
  let schema ← rstr D
  let symbolHash ← rstr D
  let functionDefHash ← rstr D
  let functionSigHash ← rstr D
  let typedBodyExprHash ← rstr D
  let layoutCount ← rusize
  let typeLayouts ← times layoutCount (rlayout P D)
  let typeCount ← rusize
  let types ← times typeCount (rtypeRow P D typeLayouts)
  let valueCount ← rusize
  let values ← times valueCount (rstr D)
  return { schema, symbolHash, functionDefHash, functionSigHash, typedBodyExprHash, typeLayouts,
           types, values }

/-- A function, whose operations are nested to a depth. -/
def rfunction (depth : Nat) : Decode LoweredFunctionIr := do
  let head ← rhead P D
  let tail ← rtail { D with types := head.types, values := head.values } depth
  return { head, tail with }

def decodeFunction (strings : List String) (data : List (List UInt8)) (fnSymbols : List Hash)
    (section_ : List UInt8) : Except Error LoweredFunctionIr := do
  let (ir, reader) ← (rfunction P ⟨strings, data, fnSymbols, [], []⟩ section_.length).run
    ⟨section_, 0⟩
  if reader.pos ≠ section_.length then throw "CIR function section has trailing bytes"
  return ir

/-! ### Programs -/

structure CirProgram where
  target : String
  entryIndex : UInt32
  functions : List LoweredFunctionIr

/-- What stands before the sections: a function is its symbol, and where its section is. -/
structure Header where
  strings : List String
  data : List (List UInt8)
  target : String
  entryIndex : UInt32
  spans : List (Hash × Nat × Nat)

/-- A string from its bytes. -/
def fromUtf8 (bytes : List UInt8) : Except Error String :=
  match String.fromUTF8? ⟨bytes.toArray⟩ with
  | some value => .ok value
  | none => .error "CIR string pool entry is not UTF-8"

/-- Read a pool: how many entries there are, how long each is, and all of them. -/
def rpool {α : Type} (convert : List UInt8 → Except Error α) : Decode (List α) := do
  let count ← rusize
  let lens ← times count rusize
  lens.mapM fun len => do convert (← take len)

/-- Read a string that the header refers to. -/
def rheaderStr (strings : List String) (missing : Error) : Decode String := do
  match strings[(← u32).toNat]? with
  | some value => return value
  | none => throw missing

def rspan (strings : List String) : Decode (Hash × Nat × Nat) := do
  let symbol ← rheaderStr strings "CIR function symbol index out of range"
  let offset ← rusize
  let len ← rusize
  return (symbol, offset, len)

def rheader : Decode Header := do
  if (← take 4) ≠ magic then throw "CIR magic mismatch (not a CIR file)"
  let found ← u32
  if found ≠ version then
    throw ("CIR version " ++ toString found.toNat ++ " unsupported (expected " ++
      toString version.toNat ++ ")")
  let strings ← rpool fromUtf8
  let data ← rpool .ok
  let target ← rheaderStr strings "CIR target string index out of range"
  let entryIndex ← u32
  let functionCount ← rusize
  if functionCount = 0 then throw "CIR has no functions"
  if functionCount ≤ entryIndex.toNat then
    throw ("CIR entry index " ++ toString entryIndex.toNat ++ " out of range")
  let spans ← times functionCount (rspan strings)
  return { strings, data, target, entryIndex, spans }

/-- Decode the sections from an offset on, and say how long they are. -/
def decodeSections (header : Header) (bytes : List UInt8) (regionStart expectedOffset : Nat) :
    List (Hash × Nat × Nat) → Except Error (List LoweredFunctionIr × Nat)
  | [] => .ok ([], expectedOffset)
  | (symbol, offset, len) :: spans => do
    if offset ≠ expectedOffset then
      throw "CIR function sections must be contiguous and in table order"
    if bytes.length < regionStart + offset + len then throw "CIR function section out of range"
    let section_ := (bytes.drop (regionStart + offset)).take len
    let ir ← decodeFunction P header.strings header.data (header.spans.map (·.1)) section_
    if ir.symbolHash ≠ symbol then throw "CIR function section symbol mismatch"
    let (functions, total) ← decodeSections header bytes regionStart (expectedOffset + len) spans
    return (ir :: functions, total)

def decodeCir (bytes : List UInt8) : Except Error CirProgram := do
  let (header, reader) ← rheader.run ⟨bytes, 0⟩
  let (functions, total) ← decodeSections P header bytes reader.pos 0 header.spans
  if reader.pos + total ≠ bytes.length then
    throw "CIR has trailing bytes after the last function section"
  return { target := header.target, entryIndex := header.entryIndex, functions }

end Functions

end Cir

end CodeDb

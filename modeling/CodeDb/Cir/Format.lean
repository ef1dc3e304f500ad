import CodeDb.Lib.Binary
import CodeDb.Lowering.Ir
import CodeDb.Lowering.OpRegistry
import CodeDb.Store.Objects

/-!
# The binary format of lowered functions

A program in its lowered form is a file of flat bytes. Strings and blobs are kept once, in pools,
and the values and types of a function are kept once, in its tables; everything else refers to
them by their indices.

Next to what a function is made of stand columns that follow from it, so that a consumer need not
work them out: how a value of a type is kept, where the header of a buffer keeps what, and what an
operator does.

## Main definitions

* `opcode`, `placekind` — the codes of operations and of places
* `typeMetaColumns`, `bufferColumns`, `semColumns` — the columns for consumers
* `Table` — a table without repetitions
-/

namespace CodeDb

namespace Cir

def magic : List UInt8 := [0x43, 0x44, 0x49, 0x52]

def version : UInt32 := 0

/-- Where a type has no layout. -/
def noLayout : UInt32 := 0xffffffff

/-! ### Codes -/

namespace opcode

@[match_pattern] def param : UInt8 := 0
@[match_pattern] def constI64 : UInt8 := 1
@[match_pattern] def constBool : UInt8 := 2
@[match_pattern] def constUnit : UInt8 := 3
@[match_pattern] def unary : UInt8 := 4
@[match_pattern] def intCast : UInt8 := 5
@[match_pattern] def binary : UInt8 := 6
@[match_pattern] def call : UInt8 := 7
@[match_pattern] def if_ : UInt8 := 8
@[match_pattern] def case : UInt8 := 9
@[match_pattern] def fold : UInt8 := 10
@[match_pattern] def loop : UInt8 := 11
@[match_pattern] def borrowShared : UInt8 := 12
@[match_pattern] def borrowMut : UInt8 := 13
@[match_pattern] def derefShared : UInt8 := 14
@[match_pattern] def derefMut : UInt8 := 15
@[match_pattern] def derefBox : UInt8 := 16
@[match_pattern] def unboxMove : UInt8 := 17
@[match_pattern] def heapAlloc : UInt8 := 18
@[match_pattern] def ptrCast : UInt8 := 19
@[match_pattern] def derefRaw : UInt8 := 20
@[match_pattern] def addrOfParam : UInt8 := 21
@[match_pattern] def addrOfLocal : UInt8 := 22
@[match_pattern] def addrOfField : UInt8 := 23
@[match_pattern] def addrOfEnumPayload : UInt8 := 24
@[match_pattern] def addrOfIndex : UInt8 := 25
@[match_pattern] def staticDataAddress : UInt8 := 26
@[match_pattern] def constructSlice : UInt8 := 27
@[match_pattern] def sliceLen : UInt8 := 28
@[match_pattern] def sliceData : UInt8 := 29
@[match_pattern] def vecNew : UInt8 := 30
@[match_pattern] def vecPush : UInt8 := 31
@[match_pattern] def vecGet : UInt8 := 32
@[match_pattern] def vecLen : UInt8 := 33
@[match_pattern] def stringNew : UInt8 := 34
@[match_pattern] def stringLen : UInt8 := 35
@[match_pattern] def stringWithCapacity : UInt8 := 36
@[match_pattern] def stringPush : UInt8 := 37
@[match_pattern] def stringGet : UInt8 := 38
@[match_pattern] def stringSet : UInt8 := 39
@[match_pattern] def argCount : UInt8 := 40
@[match_pattern] def argLen : UInt8 := 41
@[match_pattern] def argByte : UInt8 := 42
@[match_pattern] def boundsCheck : UInt8 := 43
@[match_pattern] def sliceRangeCheck : UInt8 := 44
@[match_pattern] def loadEnumTag : UInt8 := 45
@[match_pattern] def storeEnumTag : UInt8 := 46
@[match_pattern] def load : UInt8 := 47
@[match_pattern] def store : UInt8 := 48
@[match_pattern] def copy : UInt8 := 49
@[match_pattern] def move : UInt8 := 50
@[match_pattern] def drop : UInt8 := 51
@[match_pattern] def freeBoxShell : UInt8 := 52
@[match_pattern] def borrowDebug : UInt8 := 53
@[match_pattern] def return_ : UInt8 := 54
@[match_pattern] def earlyReturn : UInt8 := 55

end opcode

namespace placekind

@[match_pattern] def param : UInt8 := 0
@[match_pattern] def local_ : UInt8 := 1
@[match_pattern] def field : UInt8 := 2
@[match_pattern] def enumPayload : UInt8 := 3
@[match_pattern] def index : UInt8 := 4

end placekind

/-! ### Columns for consumers -/

namespace typemeta

def pointer : UInt8 := 10
def aggByValue : UInt8 := 11
def aggIndirect : UInt8 := 12
def slice : UInt8 := 13

end typemeta

/-- The scalar types, each with its kind and its size. -/
def scalars : List (String × UInt8 × UInt64) :=
  [("Unit", 0, 0), ("Bool", 1, 1), ("I8", 2, 1), ("I16", 3, 2), ("I32", 4, 4), ("I64", 5, 8),
    ("U8", 6, 1), ("U16", 7, 2), ("U32", 8, 4), ("U64", 9, 8)]

def scalarTypeMeta (P : Primitives) (typeHash : Hash) : Option (UInt8 × UInt64) :=
  (scalars.find? fun scalar => typeHash == typeHashFor P scalar.1).map (·.2)

/-- How a value of a type is kept, and its size. -/
def typeMetaColumns (P : Primitives) (typeHash : Hash) (layout : Option LoweredTypeLayout) :
    UInt8 × UInt64 :=
  match scalarTypeMeta P typeHash, layout with
  | some columns, _ => columns
  | none, some layout =>
    if layout.kind = "box" then (typemeta.pointer, 8)
    else if layout.kind = "slice" then (typemeta.slice, layout.sizeBytes)
    else if layout.abi.pass = "by_indirect" then (typemeta.aggIndirect, layout.sizeBytes)
    else (typemeta.aggByValue, layout.sizeBytes)
  | none, none => (typemeta.pointer, 8)

/-- An entry of the metadata of a layout that is an unsigned number. -/
def metadataU64 (metadata : JsonValue) (key : String) : Except Error UInt64 :=
  match metadata with
  | .object entries =>
    match entries.lookup key with
    | some (.number (.posInt n)) => .ok n
    | _ => .error ("CIR buffer layout missing metadata key " ++ key)
  | _ => .error ("CIR buffer layout missing metadata key " ++ key)

/-- Where the header of a vector or a string keeps what. -/
def bufferColumns (layout : LoweredTypeLayout) : Except Error (List UInt64) :=
  if layout.kind ≠ "vec" ∧ layout.kind ≠ "string" then .ok [0, 0, 0, 0, 0]
  else
    ["ptr_offset_bytes", "len_offset_bytes", "capacity_offset_bytes", "element_size_bytes",
      "element_stride_bytes"].mapM (metadataU64 layout.metadata)

/-- What an operator does, apart from the type it works on. -/
def opverb : KindSem → UInt8 × Option ScalarIntType
  | .arith .add int => (1, some int)
  | .arith .sub int => (2, some int)
  | .arith .mul int => (3, some int)
  | .arith .div int => (4, some int)
  | .arith .rem int => (5, some int)
  | .bit .and int => (6, some int)
  | .bit .or int => (7, some int)
  | .bit .xor int => (8, some int)
  | .shift .shl int => (9, some int)
  | .shift .shr int => (10, some int)
  | .cmp .eq int => (11, some int)
  | .cmp .ne int => (12, some int)
  | .cmp .lt int => (13, some int)
  | .cmp .le int => (14, some int)
  | .cmp .gt int => (15, some int)
  | .cmp .ge int => (16, some int)
  | .neg int => (17, some int)
  | .bitNot int => (18, some int)
  | .andBool => (19, none)
  | .orBool => (20, none)
  | .notBool => (21, none)

/-- The verb of an operator, and the width and the sign of the integers it works on. -/
def semColumns (kind : String) : Except Error (UInt8 × UInt8 × UInt8) :=
  match semForKind kind with
  | none => .error ("CIR operator kind " ++ kind ++ " is not in the registry")
  | some sem =>
    match opverb sem with
    | (verb, some int) =>
      if int.width < 256 then .ok (verb, UInt8.ofNat int.width, if int.signed then 1 else 0)
      else .error ("CIR operator kind " ++ kind ++ " has an unencodable width")
    | (verb, none) => .ok (verb, 0, 0)

/-! ### Tables -/

/-- A table whose indices fit the format. -/
structure Table (α : Type) where
  entries : List α
  small : entries.length ≤ 2 ^ 32

namespace Table

variable {α : Type}

def empty : Table α := ⟨[], Nat.zero_le _⟩

/-- The index of an entry, which is added at the end if it is not there yet. -/
def intern [DecidableEq α] (table : Table α) (a : α) (full : Error) :
    Except Error (UInt32 × Table α) :=
  match table.entries.idxOf? a with
  | some index => .ok (UInt32.ofNat index, table)
  | none =>
    if room : table.entries.length < 2 ^ 32 then
      .ok (UInt32.ofNat table.entries.length,
        ⟨table.entries ++ [a], by rw [List.length_append]; exact room⟩)
    else .error full

/-- An entry is found at its index, in the table as it is then and as it grows. -/
theorem intern_eq_ok [DecidableEq α] {table table' : Table α} {a : α} {full : Error}
    {index : UInt32} (interned : table.intern a full = .ok (index, table')) :
    table.entries <+: table'.entries ∧ table'.entries[index.toNat]? = some a := by
  rw [intern] at interned
  split at interned
  next i found =>
    cases interned
    obtain ⟨inside, same, -⟩ := List.idxOf?_eq_some_iff.mp found
    have small : i < 2 ^ 32 := Nat.lt_of_lt_of_le inside table.small
    rw [UInt32.toNat_ofNat_of_lt' small]
    exact ⟨List.prefix_refl _, by rw [List.getElem?_eq_getElem inside, same]⟩
  next =>
    split at interned
    next room =>
      cases interned
      rw [UInt32.toNat_ofNat_of_lt' room]
      exact ⟨List.prefix_append _ _, by simp⟩
    next => cases interned

end Table

end Cir

end CodeDb

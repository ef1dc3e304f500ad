import CodeDb.Language.Types
import CodeDb.Lib.Logged
import Mathlib.Algebra.Ring.Int.Defs

/-!
# Values

Evaluation computes with values kept in cells. A reference, a pointer or a slice shares
the cells it refers to; a box, a vector, an array, a record and an enum own theirs, so
copying one copies what it owns.

## Main definitions

* `IntValue`, `Value` — values
* `Eval`, `Mem` — computations over memory, with and without a log of what a program does
* `evalBinary`, `evalUnary`, `castIntValue`, `intLiteralValue` — operators and literals
* `semanticCloneValue` — copying a value
-/

namespace CodeDb

/-! ### Integers -/

/-- A value of a sized integer type. -/
structure IntValue where
  type : ScalarIntType
  bits : BitVec (8 * type.width)
  deriving DecidableEq

namespace IntValue

/-- The value of a type that a number wraps to. -/
def ofInt (type : ScalarIntType) (n : Int) : IntValue := ⟨type, BitVec.ofInt _ n⟩

/-- The number a value stands for. -/
def toInt (v : IntValue) : Int := if v.type.signed then v.bits.toInt else v.bits.toNat

end IntValue

/-- The value of a digit. -/
def digitValue (radix : Nat) (c : Char) : Option Nat :=
  let value :=
    if c.isDigit then some (c.toNat - '0'.toNat)
    else if c.isLower then some (c.toNat - 'a'.toNat + 10)
    else if c.isUpper then some (c.toNat - 'A'.toNat + 10)
    else none
  value.filter (· < radix)

/-- The number that digits stand for. There must be one. -/
def digitsValue (radix : Nat) : List Char → Option Nat
  | [] => none
  | digits => digits.foldlM (fun n c => (digitValue radix c).map (n * radix + ·)) 0

/-- The least and the greatest number of a type. -/
def ScalarIntType.bounds (type : ScalarIntType) : Int × Int :=
  if type.signed then (-2 ^ (8 * type.width - 1), 2 ^ (8 * type.width - 1) - 1)
  else (0, 2 ^ (8 * type.width) - 1)

/-- Read a number of a type. Only a signed one may have a minus sign. -/
def fromStrRadix (type : ScalarIntType) (radix : Nat) (digits : List Char) : Option Int :=
  let value : Option Int := match digits with
    | '+' :: rest => (digitsValue radix rest).map Int.ofNat
    | '-' :: rest => if type.signed then (digitsValue radix rest).map (-Int.ofNat ·) else none
    | rest => (digitsValue radix rest).map Int.ofNat
  value.filter fun n => type.bounds.1 ≤ n && n ≤ type.bounds.2

/-- The value of an integer literal. A hexadecimal one gives the bits. -/
def intLiteralValue (value : String) (int : ScalarIntType) : Except Error IntValue :=
  let number := match value.toList with
    | '0' :: 'x' :: digits | '0' :: 'X' :: digits =>
      fromStrRadix { int with signed := false } 16 digits
    | digits => fromStrRadix int 10 digits
  match number with
  | some n => .ok (.ofInt int n)
  | none => .error ("integer literal " ++ value ++ " out of range for " ++ int.name)

/-! ### Values and memory -/

/-- A cell of memory. -/
abbrev ValueCell := Nat

inductive Value where
  | int (value : IntValue)
  | bool (value : Bool)
  | unit
  | sharedRef (cell : ValueCell)
  | mutRef (cell : ValueCell)
  | rawPtr (target : ValueCell) (isMut : Bool)
  | boxed (cell : ValueCell)
  | slice (elements : List ValueCell) (isMut : Bool)
  | vec (elements : List ValueCell) (capacity : Nat)
  | string (bytes : List UInt8)
  | array (elements : List ValueCell)
  | record (fields : SortedMap String ValueCell)
  | enum (variant : String) (value : ValueCell)

namespace Value

def ofI64 (n : Int) : Value := .int (.ofInt i64 n)

def ofU8 (byte : UInt8) : Value := .int (.ofInt u8 byte.toNat)

def asI64? : Value → Option Int
  | .int v => if v.type = i64 then some v.toInt else none
  | _ => none

def asU8? : Value → Option UInt8
  | .int v => if v.type = u8 then some (UInt8.ofNat v.bits.toNat) else none
  | _ => none

end Value

/-- The contents of the cells allocated so far. -/
abbrev Memory := Array Value

/-- What a program does besides computing a value. -/
inductive Event where
  | assign
  | push
  | setByte
  | allocate
  | free
  | castPointer
  | loadPointer
  | storePointer
  | readArguments
  | reachExternal (signature : Hash)
  deriving DecidableEq

/-- Why evaluation stops before it has a value. -/
inductive Stop where
  | error (message : Error)
  /-- An error that shows values. -/
  | unexpected (message : String) (values : List Value)
  /-- A function returns early. -/
  | returning (value : Value)
  /-- Evaluation is nested too deep for the stack of the host. -/
  | overflow

/-- Computations over memory that log what a program does. -/
abbrev Eval (α : Type) : Type := Logged Memory Event Stop α

/-- Computations over memory that a program does nothing in. -/
abbrev Mem (α : Type) : Type := Logged Memory Empty Stop α

namespace Mem

variable {α : Type}

def fail (message : Error) : Mem α := Logged.stop (.error message)

def unexpected (message : String) (values : List Value) : Mem α :=
  Logged.stop (.unexpected message values)

/-- What may fail with a message. -/
def ofExcept : Except Error α → Mem α
  | .ok a => pure a
  | .error message => fail message

/-- What is there, or an error. -/
def ofOption (missing : Error) : Option α → Mem α
  | some a => pure a
  | none => fail missing

end Mem

/-- A new cell with a value. -/
def valueCell (value : Value) : Mem ValueCell :=
  Logged.change fun memory => (memory.size, memory.push value)

/-- The value in a cell. A cell is only ever made by `valueCell`, so there is one. -/
def borrow (cell : ValueCell) : Mem Value := do
  let value ← Logged.read fun memory => memory[cell]?
  Mem.ofOption "no such cell" value

/-- Put a value in a cell. -/
def setCell (cell : ValueCell) (value : Value) : Mem Unit :=
  Logged.change fun memory => ((), memory.setIfInBounds cell value)

/-- Follow cells to other cells. A path that never comes back to a cell is no longer than
memory. -/
def following {α : Type} (walk : Nat → Mem α) : Mem α := do
  let cells ← Logged.read Array.size
  walk (cells + 1)

theorem following_run {α : Type} (walk : Nat → Mem α) (memory : Memory) :
    following walk memory = walk (memory.size + 1) memory :=
  Logged.bind_quiet rfl

/-- Copy a value and what it owns. -/
def semanticCloneValue (value : Value) : Mem Value := following fun depth => go depth value
where
  go : Nat → Value → Mem Value
    | 0, _ => Logged.stop .overflow
    | depth + 1, value => do
      let clone := fun (cell : ValueCell) => do valueCell (← go depth (← borrow cell))
      match value with
      | .boxed cell => return .boxed (← clone cell)
      | .vec elements capacity => return .vec (← Logged.each clone elements) capacity
      | .array elements => return .array (← Logged.each clone elements)
      | .record fields => do
        let cells ← Logged.each (fun field => do return (field.1, ← clone field.2)) fields.entries
        return .record (cells.foldl (fun m field => m.insert field.1 field.2) ∅)
      | .enum variant cell => return .enum variant (← clone cell)
      | .int _ | .bool _ | .unit | .sharedRef _ | .mutRef _ | .rawPtr .. | .slice .. | .string _ =>
        return value

/-! ### Operators -/

inductive Cmp where
  | eq | ne | lt | le | gt | ge

inductive ArithOp where
  | add | sub | mul | div | rem

inductive BitOp where
  | and | or | xor

inductive ShiftOp where
  | shl | shr

/-- What an operator on two integers of one type does. -/
inductive SemOp where
  | arith (op : ArithOp)
  | bit (op : BitOp)
  | shift (op : ShiftOp)
  | cmp (op : Cmp)

/-- The operators on two integers of one type. -/
def intOps : List (String × SemOp) :=
  [("+", .arith .add), ("-", .arith .sub), ("*", .arith .mul), ("/", .arith .div),
    ("%", .arith .rem), ("&", .bit .and), ("|", .bit .or), ("^", .bit .xor), ("<<", .shift .shl),
    (">>", .shift .shr), ("==", .cmp .eq), ("!=", .cmp .ne), ("<", .cmp .lt), ("<=", .cmp .le),
    (">", .cmp .gt), (">=", .cmp .ge)]

def applyCmp (cmp : Cmp) (a b : Int) : Bool :=
  match cmp with
  | .eq => a == b
  | .ne => a != b
  | .lt => a < b
  | .le => a ≤ b
  | .gt => a > b
  | .ge => a ≥ b

/-- Arithmetic wraps, and division rounds towards zero. -/
def evalArith {w : Nat} (arith : ArithOp) (isSigned : Bool) (x y : BitVec w) :
    Except Error (BitVec w) :=
  match arith with
  | .add => .ok (x + y)
  | .sub => .ok (x - y)
  | .mul => .ok (x * y)
  | .div =>
    if y = 0 then .error "division by zero" else .ok (if isSigned then x.sdiv y else x.udiv y)
  | .rem =>
    if y = 0 then .error "modulo by zero" else .ok (if isSigned then x.srem y else x.umod y)

def evalBit {w : Nat} (bit : BitOp) (x y : BitVec w) : BitVec w :=
  match bit with
  | .and => x &&& y
  | .or => x ||| y
  | .xor => x ^^^ y

/-- The amount of a shift is taken modulo the width. -/
def evalShift {w : Nat} (shift : ShiftOp) (isSigned : Bool) (x y : BitVec w) : BitVec w :=
  match shift with
  | .shl => x <<< (y.toNat % w)
  | .shr => if isSigned then x.sshiftRight (y.toNat % w) else x >>> (y.toNat % w)

/-- Apply a binary operator. -/
def evalBinary (op : String) (left right : Value) : Mem Value :=
  let invalid : Mem Value := Mem.unexpected ("invalid operands for " ++ op ++ ": ") [left, right]
  match left, right with
  | .bool a, .bool b =>
    if op = "&&" then return .bool (a && b)
    else if op = "||" then return .bool (a || b)
    else invalid
  | .int x, .int y =>
    if x.type = y.type then
      let bits := y.bits.setWidth (8 * x.type.width)
      match intOps.lookup op with
      | some (.arith arith) => do
        let bits ← Mem.ofExcept (evalArith arith x.type.signed x.bits bits)
        return .int ⟨x.type, bits⟩
      | some (.bit bit) => return .int ⟨x.type, evalBit bit x.bits bits⟩
      | some (.shift shift) => return .int ⟨x.type, evalShift shift x.type.signed x.bits bits⟩
      | some (.cmp cmp) => return .bool (applyCmp cmp x.toInt y.toInt)
      | none => invalid
    else invalid
  | _, _ => invalid

/-- Apply a unary operator. -/
def evalUnary (op : String) (value : Value) : Mem Value :=
  match op, value with
  | "!", .bool b => return .bool !b
  | "-", .int x => return .int ⟨x.type, -x.bits⟩
  | "~", .int x => return .int ⟨x.type, ~~~x.bits⟩
  | op, value => Mem.unexpected ("invalid operand for " ++ op ++ ": ") [value]

/-- Cast an integer to a type: it wraps. -/
def castIntValue (target : ScalarIntType) : Value → Mem Value
  | .int x => return .int (.ofInt target x.toInt)
  | other => Mem.unexpected "cannot cast non-integer value " [other]

/-! ### Parts of values -/

/-- A value used as an index. -/
def evalIndexValue (value : Value) : Mem Nat :=
  match value.asI64? with
  | some n =>
    if 0 ≤ n then return n.toNat
    else Mem.fail ("array index must be non-negative, got " ++ toString n)
  | none => Mem.unexpected "array index evaluated to non-i64 " [value]

/-- The cell of what a cell boxes, or the cell itself. -/
def boxPayloadCell (cell : ValueCell) : Mem ValueCell := do
  match ← borrow cell with
  | .boxed payload => return payload
  | _ => return cell

/-- Follow references from a cell to what a part is taken of. -/
def throughReferences {α : Type} (part : Value → Mem α) : Nat → ValueCell → Mem α
  | 0, _ => Logged.stop .overflow
  | depth + 1, cell => do
    match ← borrow cell with
    | .sharedRef referent | .mutRef referent => throughReferences part depth referent
    | value => part value

/-- An element of an array or a slice. -/
def elementOf (index : Nat) : Value → Mem ValueCell
  | .slice elements _ =>
    Mem.ofOption ("slice index " ++ toString index ++ " out of bounds") elements[index]?
  | .array elements =>
    Mem.ofOption ("array index " ++ toString index ++ " out of bounds") elements[index]?
  | other => Mem.unexpected "array index target evaluated to non-array " [other]

/-- The cell of an element of what is in a cell. -/
def arrayCell (cell : ValueCell) (index : Nat) : Mem ValueCell :=
  following fun depth => throughReferences (elementOf index) depth cell

/-- The cell of an element of a value. -/
def arrayCellFromValue (value : Value) (index : Nat) : Mem ValueCell :=
  match value with
  | .sharedRef referent | .mutRef referent => arrayCell referent index
  | value => elementOf index value

/-- The cell of a field of what is in a cell. -/
def fieldCell (cell : ValueCell) (field : String) : Mem ValueCell :=
  following fun depth => throughReferences (fun
    | .record fields =>
      Mem.ofOption ("record value has no field " ++ field) (fields.get? field)
    | other => Mem.unexpected "field access target evaluated to non-record " [other]) depth cell

/-- The cells of the array in a cell. -/
def sliceCellsFromArrayCell (cell : ValueCell) : Mem (List ValueCell) :=
  following fun depth => throughReferences (fun
    | .array elements => return elements
    | other => Mem.unexpected "slice target evaluated to non-array " [other]) depth cell

def sliceLenFromValue : Value → Mem Nat
  | .slice elements _ => return elements.length
  | other => Mem.unexpected "len target evaluated to non-slice " [other]

/-- The bytes of a slice of bytes. -/
def bytesFromSliceValue : Value → Mem (List UInt8)
  | .slice elements _ =>
    Logged.each (fun cell => do
      let value ← borrow cell
      match value.asU8? with
      | some byte => return byte
      | none => Mem.unexpected "string_new source contained non-u8 element " [value]) elements
  | other => Mem.unexpected "string_new source evaluated to non-slice " [other]

/-- A range of a slice. -/
def subsliceValue (value : Value) (start len : Nat) : Mem Value :=
  match value with
  | .slice elements isMut =>
    let stop := start + len
    if 2 ^ 64 ≤ stop then Mem.fail "subslice range overflows"
    else if elements.length < stop then
      Mem.fail ("subslice range [" ++ toString start ++ ", " ++ toString stop ++
        ") out of bounds for length " ++ toString elements.length)
    else return .slice ((elements.drop start).take len) isMut
  | other => Mem.unexpected "subslice target evaluated to non-slice " [other]

end CodeDb

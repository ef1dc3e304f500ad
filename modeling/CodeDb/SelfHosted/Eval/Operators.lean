import CodeDb.SelfHosted.Eval.Machine

/-!
# The operators of the hosted evaluator

A cell holds a value extended to 64 bits. An operator of a width takes that width of its cells,
computes as the language does there, and extends what comes out.

## Main definitions

* `applyBinary`, `applyUnary`, `applyCast` — operators on cells
* `binaryStep` — what a binary operation makes of its cells
* `loadScalar`, `storeScalar` — cells are read from memory and written to it
-/

namespace CodeDb

namespace SelfHosted

namespace Eval

namespace trap

def div0 : I64 := 1
def mod0 : I64 := 2

end trap

/-! ### Casts -/

/-- What the cast of a cell to a type keeps of it. -/
def narrow (type : ScalarIntType) (cell : I64) : BitVec (8 * type.width) := cell.setWidth _

/-- `to_i64` of a value of a type. -/
def widen (type : ScalarIntType) (bits : BitVec (8 * type.width)) : I64 :=
  if type.signed then bits.signExtend 64 else bits.setWidth 64

def i8 : ScalarIntType := ⟨"I8", 1, true⟩
def i16 : ScalarIntType := ⟨"I16", 2, true⟩
def i32 : ScalarIntType := ⟨"I32", 4, true⟩
def u16 : ScalarIntType := ⟨"U16", 2, false⟩
def u32 : ScalarIntType := ⟨"U32", 4, false⟩
def u64 : ScalarIntType := ⟨"U64", 8, false⟩

/-! ### Operators -/

/-- The operator of a verb. -/
def verbOp (verb : I64) : Option SemOp :=
  match verb.toNat with
  | 1 => some (.arith .add)
  | 2 => some (.arith .sub)
  | 3 => some (.arith .mul)
  | 4 => some (.arith .div)
  | 5 => some (.arith .rem)
  | 6 => some (.bit .and)
  | 7 => some (.bit .or)
  | 8 => some (.bit .xor)
  | 9 => some (.shift .shl)
  | 10 => some (.shift .shr)
  | 11 => some (.cmp .eq)
  | 12 => some (.cmp .ne)
  | 13 => some (.cmp .lt)
  | 14 => some (.cmp .le)
  | 15 => some (.cmp .gt)
  | 16 => some (.cmp .ge)
  | _ => none

/-- Apply a binary verb at a type, with the operator of the language there. -/
def binAt (type : ScalarIntType) (verb a b : I64) : Run I64 :=
  let x := narrow type a
  let y := narrow type b
  match verbOp verb with
  | some (.arith arith) =>
    match evalArith arith type.signed x y with
    | .ok bits => .ok (widen type bits)
    | .error _ => .error .divisionByZero
  | some (.bit bit) => .ok (widen type (evalBit bit x y))
  | some (.shift shift) => .ok (widen type (evalShift shift type.signed x y))
  | some (.cmp cmp) =>
    .ok (if applyCmp cmp (IntValue.toInt ⟨type, x⟩) (IntValue.toInt ⟨type, y⟩) then 1 else 0)
  | none => .ok 0

def binI8 : I64 → I64 → I64 → Run I64 := binAt i8
def binI16 : I64 → I64 → I64 → Run I64 := binAt i16
def binI32 : I64 → I64 → I64 → Run I64 := binAt i32
def binI64 : I64 → I64 → I64 → Run I64 := binAt i64
def binU8 : I64 → I64 → I64 → Run I64 := binAt u8
def binU16 : I64 → I64 → I64 → Run I64 := binAt u16
def binU32 : I64 → I64 → I64 → Run I64 := binAt u32
def binU64 : I64 → I64 → I64 → Run I64 := binAt u64

/-- Apply a binary verb at a width. Truth values are cells with 0 or 1. -/
def applyBinary (verb width sgn a b : I64) : Run I64 :=
  if verb = 19 then .ok (if a ≠ 0 ∧ b ≠ 0 then 1 else 0)
  else if verb = 20 then .ok (if a ≠ 0 ∨ b ≠ 0 then 1 else 0)
  else if sgn = 1 then
    if width = 8 then binI64 verb a b
    else if width = 4 then binI32 verb a b
    else if width = 2 then binI16 verb a b
    else binI8 verb a b
  else
    if width = 8 then binU64 verb a b
    else if width = 4 then binU32 verb a b
    else if width = 2 then binU16 verb a b
    else binU8 verb a b

/-- Negation at a type. -/
def negAs (type : ScalarIntType) (a : I64) : I64 :=
  widen type (narrow type 0 - narrow type a)

def negAt (width sgn a : I64) : I64 :=
  if sgn = 1 then
    if width = 8 then 0 - a
    else if width = 4 then negAs i32 a
    else if width = 2 then negAs i16 a
    else negAs i8 a
  else
    if width = 8 then negAs u64 a
    else if width = 4 then negAs u32 a
    else if width = 2 then negAs u16 a
    else negAs u8 a

/-- Complement at a type. -/
def bitnotAs (type : ScalarIntType) (a : I64) : I64 := widen type (~~~narrow type a)

def bitnotAt (width sgn a : I64) : I64 :=
  if sgn = 1 then
    if width = 8 then ~~~a
    else if width = 4 then bitnotAs i32 a
    else if width = 2 then bitnotAs i16 a
    else bitnotAs i8 a
  else
    if width = 8 then bitnotAs u64 a
    else if width = 4 then bitnotAs u32 a
    else if width = 2 then bitnotAs u16 a
    else bitnotAs u8 a

def applyUnary (verb width sgn a : I64) : I64 :=
  if verb = 21 then if a = 0 then 1 else 0
  else if verb = 17 then negAt width sgn a
  else bitnotAt width sgn a

/-- Cast a cell to the type of a kind. -/
def applyCast (kind v : I64) : I64 :=
  match kind.toNat with
  | 2 => widen i8 (narrow i8 v)
  | 3 => widen i16 (narrow i16 v)
  | 4 => widen i32 (narrow i32 v)
  | 5 => v
  | 6 => widen u8 (narrow u8 v)
  | 7 => widen u16 (narrow u16 v)
  | 8 => widen u32 (narrow u32 v)
  | 9 => widen u64 (narrow u64 v)
  | _ => v

/-- What `exec_binary` does with its cells: a status, and the value or the code of a trap. The
flag says that the operation has a trap. -/
def binaryStep (flag verb width sgn a b : I64) : Run (I64 × I64) :=
  if flag = 1 ∧ b = 0 then .ok (2, if verb = 4 then trap.div0 else trap.mod0)
  else do return (0, ← applyBinary verb width sgn a b)

/-! ### Scalars in memory -/

/-- Read a value of a kind, extended to a cell. -/
def loadScalar (kind addr : I64) : Machine I64 := do
  if kind = 0 then return 0
  else if kind = 2 then
    let b ← rdByte addr
    return widen i8 (narrow i8 b)
  else if kind = 3 then
    let b0 ← rdByte addr
    let b1 ← rdByte (addr + 1)
    return widen i16 (narrow i16 (b0 ||| sal b1 8))
  else if kind = 4 then
    let w ← rdU32 addr
    return widen i32 (narrow i32 w)
  else if kind = 5 ∨ kind = 9 ∨ kind = 10 then rdU64 addr
  else if kind = 7 then
    let b0 ← rdByte addr
    let b1 ← rdByte (addr + 1)
    return b0 ||| sal b1 8
  else if kind = 8 then rdU32 addr
  else rdByte addr

/-- Write a cell as a value of a kind. -/
def storeScalar (kind addr v : I64) : Machine Unit := do
  if kind = 0 then return ()
  else if kind = 1 ∨ kind = 2 ∨ kind = 6 then stringSet addr (toU8 (v &&& 0xff))
  else if kind = 3 ∨ kind = 7 then
    stringSet addr (toU8 (v &&& 0xff))
    stringSet (addr + 1) (toU8 (sar v 8 &&& 0xff))
  else if kind = 4 ∨ kind = 8 then wrU32 addr ((toU32 v).setWidth 64)
  else wrU64 addr v

end Eval

end SelfHosted

end CodeDb

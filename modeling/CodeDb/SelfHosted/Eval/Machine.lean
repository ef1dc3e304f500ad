import CodeDb.SelfHosted.Runtime

/-!
# The memory of the hosted evaluator

The hosted evaluator runs a program in its binary form over one string. Addresses are positions
in it. It goes through every helper, so here it is the state.

## Main definitions

* `Machine` — computations over the memory
* `rdByte`, `rdU32`, `rdU64`, `wrU32`, `wrU64` — numbers in the memory
-/

namespace CodeDb

namespace SelfHosted

namespace Eval

/-- Computations over the memory, which may trap. -/
abbrev Machine (α : Type) := StateT Buffer Run α

/-- `string_get`. -/
def stringGet (off : I64) : Machine UInt8 := fun mem => do return (← mem.get off, mem)

/-- `string_set`. -/
def stringSet (off : I64) (byte : UInt8) : Machine Unit := fun mem => do
  return ((), ← mem.set off byte)

def rdByte (off : I64) : Machine I64 := do return toI64 (← stringGet off)

def rdU32 (off : I64) : Machine I64 := do
  let b0 ← rdByte off
  let b1 ← rdByte (off + 1)
  let b2 ← rdByte (off + 2)
  let b3 ← rdByte (off + 3)
  return b0 ||| sal b1 8 ||| sal b2 16 ||| sal b3 24

def rdU64 (off : I64) : Machine I64 := do
  let lo ← rdU32 off
  let hi ← rdU32 (off + 4)
  return lo ||| sal hi 32

def wrU32 (off v : I64) : Machine Unit := do
  stringSet off (toU8 (v &&& 0xff))
  stringSet (off + 1) (toU8 (sar v 8 &&& 0xff))
  stringSet (off + 2) (toU8 (sar v 16 &&& 0xff))
  stringSet (off + 3) (toU8 (sar v 24 &&& 0xff))

/-- The shift is one of unsigned numbers. -/
def wrU64 (off v : I64) : Machine Unit := do
  wrU32 off ((toU32 (v &&& 0xffffffff)).setWidth 64)
  wrU32 (off + 4) ((toU32 (evalShift .shr false v 32)).setWidth 64)

end Eval

end SelfHosted

end CodeDb

import CodeDb.SelfHosted.Eval.OperatorAgreement

/-!
# Scalars in the memory of the hosted evaluator

A scalar is written byte by byte at addresses that differ, so what is read there afterwards is what
was written, as much of it as the kind has bytes. Extended again, that is the cell.

## Main definitions

* `writeAt` — bytes are written at offsets from an address

## Main results

* `rdByte_writeAt` — what is written is read back
* `loadScalar_storeScalar` — a cell is read back
* `hostedEval_agrees` — operators, casts and scalars in memory
-/

namespace CodeDb

namespace SelfHosted

namespace Eval

/-- What has been computed, and then the rest. -/
theorem bind_eq {α β : Type} {m : Machine α} {f : α → Machine β} {mem mem' : Buffer} {a : α}
    (run : m mem = .ok (a, mem')) : (m >>= f) mem = f a mem' := by
  change (m mem >>= fun p => f p.1 p.2) = _
  rw [run]
  rfl

/-- Write bytes at offsets from an address. -/
def writeAt (addr : I64) : List (I64 × UInt8) → Machine Unit
  | [] => pure ()
  | (offset, byte) :: rest => do
    stringSet (addr + offset) byte
    writeAt addr rest

variable {mem mem' : Buffer} {addr : I64}

/-- What a byte that is set does to the memory. -/
theorem stringSet_eq_ok {off : I64} {byte : UInt8} (run : stringSet off byte mem = .ok ((), mem')) :
    off.toNat < mem.bytes.length ∧ mem'.bytes = mem.bytes.set off.toNat byte := by
  rw [stringSet, Buffer.set] at run
  split at run
  next inside =>
    cases run
    exact ⟨inside, rfl⟩
  next => contradiction

theorem writeAt_cons {offset : I64} {byte : UInt8} {rest : List (I64 × UInt8)}
    (run : writeAt addr ((offset, byte) :: rest) mem = .ok ((), mem')) :
    ∃ next, stringSet (addr + offset) byte mem = .ok ((), next) ∧
      writeAt addr rest next = .ok ((), mem') := by
  rw [writeAt] at run
  cases first : stringSet (addr + offset) byte mem with
  | error trap =>
    change (stringSet (addr + offset) byte mem >>= fun p => writeAt addr rest p.2) = _ at run
    rw [first] at run
    contradiction
  | ok done =>
    change (stringSet (addr + offset) byte mem >>= fun p => writeAt addr rest p.2) = _ at run
    rw [first] at run
    exact ⟨done.2, rfl, run⟩

/-- Bytes elsewhere stay. -/
theorem getElem?_writeAt {l : List (I64 × UInt8)} (run : writeAt addr l mem = .ok ((), mem'))
    {off : I64} (other : off ∉ l.map fun p => addr + p.1) :
    mem'.bytes[off.toNat]? = mem.bytes[off.toNat]? := by
  induction l generalizing mem with
  | nil =>
    cases run
    rfl
  | cons p rest ih =>
    obtain ⟨offset, byte⟩ := p
    obtain ⟨next, first, run⟩ := writeAt_cons run
    obtain ⟨-, bytes⟩ := stringSet_eq_ok first
    rw [List.map_cons, List.mem_cons, not_or] at other
    rw [ih run other.2, bytes, List.getElem?_set_ne]
    exact fun same => other.1 (BitVec.eq_of_toNat_eq same.symm)

/-- What is written is read back. -/
theorem rdByte_writeAt {l : List (I64 × UInt8)} (run : writeAt addr l mem = .ok ((), mem'))
    (distinct : (l.map Prod.fst).Nodup) {offset : I64} {byte : UInt8}
    (listed : (offset, byte) ∈ l) : rdByte (addr + offset) mem' = .ok (toI64 byte, mem') := by
  have there : mem'.bytes[(addr + offset).toNat]? = some byte := by
    induction l generalizing mem with
    | nil => contradiction
    | cons p rest ih =>
      obtain ⟨next, first, others⟩ := writeAt_cons run
      rw [List.map_cons, List.nodup_cons] at distinct
      rcases List.mem_cons.mp listed with here | later
      · subst here
        obtain ⟨inside, bytes⟩ := stringSet_eq_ok first
        have kept : addr + offset ∉ rest.map fun p => addr + p.1 := by
          intro again
          obtain ⟨p, listed, same⟩ := List.mem_map.mp again
          exact distinct.1 (List.mem_map.mpr ⟨p, listed, (BitVec.add_right_inj addr).mp same⟩)
        rw [getElem?_writeAt others kept, bytes, List.getElem?_set_self inside]
      · exact ih others distinct.2 later
  rw [rdByte]
  change (stringGet (addr + offset) mem' >>= fun p => pure (toI64 p.1, p.2)) = _
  rw [stringGet, Buffer.get, sliceGet, there]
  rfl

/-! ### The bytes of a cell -/

/-- The bits of a byte that is taken out of a cell. -/
theorem getLsbD_byte (v : I64) {k : Nat} (inside : k ≤ 56) (i : Nat) :
    (toI64 (toU8 (sar v (BitVec.ofNat 64 k) &&& 0xff))).getLsbD i =
      (decide (i < 8) && v.getLsbD (k + i)) := by
  have amount : (BitVec.ofNat 64 k).toNat % 64 = k := by
    rw [BitVec.toNat_ofNat]
    omega
  have mask : ∀ j < 8, (0xff : I64).getLsbD j = true := by decide
  change (((v.sshiftRight ((BitVec.ofNat 64 k).toNat % 64) &&&
    0xff).setWidth 8).setWidth 64).getLsbD i = _
  rw [amount]
  by_cases low : i < 8
  · have within : i < 64 := by omega
    have inner : k + i < 64 := by omega
    simp only [BitVec.getLsbD_setWidth, BitVec.getLsbD_and, BitVec.getLsbD_sshiftRight, mask i low,
      low, within, inner, decide_true, Bool.true_and, Bool.and_true, if_true,
      decide_eq_false (show ¬ 64 ≤ i by omega), Bool.not_false]
  · simp [BitVec.getLsbD_setWidth, low]

/-- The last byte of a cell. -/
theorem sar_zero (v : I64) : sar v 0 = v := by
  simp [sar, evalShift]

theorem toI64_byte (v : I64) : toI64 (toU8 (v &&& 0xff)) = (v.setWidth 8).setWidth 64 := by
  apply BitVec.eq_of_getLsbD_eq
  intro i small
  have bits := getLsbD_byte v (Nat.zero_le _) i
  rw [Nat.zero_add, show BitVec.ofNat 64 0 = 0 from rfl, sar_zero] at bits
  rw [bits]
  simp only [BitVec.getLsbD_setWidth, small, decide_true, Bool.true_and]

theorem toI64_pair (v : I64) :
    toI64 (toU8 (v &&& 0xff)) ||| sal (toI64 (toU8 (sar v 8 &&& 0xff))) 8 =
      (v.setWidth 16).setWidth 64 := by
  have amount : (8 : I64).toNat % 64 = 8 := by decide
  have b8 (i : Nat) : (toI64 (toU8 (sar v 8 &&& 0xff))).getLsbD i = _ :=
    getLsbD_byte v (k := 8) (by omega) i
  apply BitVec.eq_of_getLsbD_eq
  intro i small
  rw [toI64_byte]
  simp only [sal, evalShift, amount, BitVec.getLsbD_or, BitVec.getLsbD_shiftLeft, b8,
    BitVec.getLsbD_setWidth]
  grind

theorem toI64_word (v : I64) :
    toI64 (toU8 (v &&& 0xff)) ||| sal (toI64 (toU8 (sar v 8 &&& 0xff))) 8 |||
      sal (toI64 (toU8 (sar v 16 &&& 0xff))) 16 ||| sal (toI64 (toU8 (sar v 24 &&& 0xff))) 24 =
    (v.setWidth 32).setWidth 64 := by
  have amounts : (24 : I64).toNat % 64 = 24 ∧ (16 : I64).toNat % 64 = 16 := by decide
  have b16 (i : Nat) : (toI64 (toU8 (sar v 16 &&& 0xff))).getLsbD i = _ :=
    getLsbD_byte v (k := 16) (by omega) i
  have b24 (i : Nat) : (toI64 (toU8 (sar v 24 &&& 0xff))).getLsbD i = _ :=
    getLsbD_byte v (k := 24) (by omega) i
  apply BitVec.eq_of_getLsbD_eq
  intro i small
  rw [toI64_pair]
  simp only [sal, evalShift, amounts, BitVec.getLsbD_or, BitVec.getLsbD_shiftLeft, b16, b24,
    BitVec.getLsbD_setWidth]
  grind

/-- A cell is put together from its halves. -/
theorem toI64_double (v : I64) :
    (((toU32 (v &&& 0xffffffff)).setWidth 64).setWidth 32).setWidth 64 |||
      sal ((((toU32 (evalShift .shr false v 32)).setWidth 64).setWidth 32).setWidth 64) 32 = v := by
  have amount : (32 : I64).toNat % 64 = 32 := by decide
  have mask : ∀ j < 32, (0xffffffff : I64).getLsbD j = true := by decide
  apply BitVec.eq_of_getLsbD_eq
  intro i small
  simp only [sal, evalShift, toU32, amount, BitVec.getLsbD_or, BitVec.getLsbD_shiftLeft,
    BitVec.getLsbD_setWidth, BitVec.getLsbD_and, Bool.false_eq_true, if_false,
    BitVec.getLsbD_ushiftRight]
  grind

/-! ### Writing and reading back -/

/-- The bytes of a word, at offsets from where it starts. -/
def wordBytes (offset v : I64) : List (I64 × UInt8) :=
  [(offset, toU8 (v &&& 0xff)), (offset + 1, toU8 (sar v 8 &&& 0xff)),
    (offset + 2, toU8 (sar v 16 &&& 0xff)), (offset + 3, toU8 (sar v 24 &&& 0xff))]

theorem writeAt_append (l l' : List (I64 × UInt8)) :
    writeAt addr (l ++ l') = writeAt addr l >>= fun _ => writeAt addr l' := by
  induction l with
  | nil => rfl
  | cons p l ih =>
    rw [List.cons_append, writeAt, writeAt, bind_assoc]
    exact bind_congr fun _ => ih

theorem wrU32_eq (offset v : I64) :
    wrU32 (addr + offset) v = writeAt addr (wordBytes offset v) := by
  simp only [wrU32, wordBytes, writeAt, BitVec.add_assoc, bind_pure_unit]

/-- A word is read back where it was written. -/
theorem rdU32_writeAt {l : List (I64 × UInt8)} (run : writeAt addr l mem = .ok ((), mem'))
    (distinct : (l.map Prod.fst).Nodup) {offset v : I64} (listed : wordBytes offset v ⊆ l) :
    rdU32 (addr + offset) mem' = .ok ((v.setWidth 32).setWidth 64, mem') := by
  have byte {off : I64} {b : UInt8} (part : (off, b) ∈ wordBytes offset v) :=
    rdByte_writeAt run distinct (listed part)
  simp only [rdU32, BitVec.add_assoc]
  rw [bind_eq (byte (.head _)), bind_eq (byte (.tail _ (.head _))),
    bind_eq (byte (.tail _ (.tail _ (.head _)))),
    bind_eq (byte (.tail _ (.tail _ (.tail _ (.head _))))), toI64_word]
  rfl

/-- A word is read back. -/
theorem rdU32_wrU32 {v : I64} (run : wrU32 addr v mem = .ok ((), mem')) :
    rdU32 addr mem' = .ok ((v.setWidth 32).setWidth 64, mem') := by
  have zero : addr + 0 = addr := BitVec.add_zero addr
  rw [← zero, wrU32_eq] at run
  have read := rdU32_writeAt run (by simp [wordBytes]) (List.Subset.refl _)
  rwa [zero] at read

/-- A cell is read back. -/
theorem rdU64_wrU64 {v : I64} (run : wrU64 addr v mem = .ok ((), mem')) :
    rdU64 addr mem' = .ok (v, mem') := by
  have zero : addr + 0 = addr := BitVec.add_zero addr
  have low : wrU32 addr = wrU32 (addr + 0) := by rw [zero]
  rw [wrU64, low, wrU32_eq, wrU32_eq, ← writeAt_append] at run
  have distinct (u w : I64) : ((wordBytes 0 u ++ wordBytes 4 w).map Prod.fst).Nodup := by
    simp [wordBytes]
  have first := rdU32_writeAt run (distinct _ _) (List.subset_append_left _ _)
  have second := rdU32_writeAt run (distinct _ _) (List.subset_append_right _ _)
  rw [zero] at first
  rw [rdU64, bind_eq first, bind_eq second, toI64_double]
  rfl

/-- A byte is read back. -/
theorem rdByte_stringSet {v : I64} (run : stringSet addr (toU8 (v &&& 0xff)) mem = .ok ((), mem')) :
    rdByte addr mem' = .ok ((v.setWidth 8).setWidth 64, mem') := by
  have zero : addr + 0 = addr := BitVec.add_zero addr
  have single : writeAt addr [(0, toU8 (v &&& 0xff))] mem = .ok ((), mem') := by
    rwa [writeAt, zero, writeAt, bind_pure_unit]
  have read := rdByte_writeAt single (List.nodup_singleton _) (.head _)
  rwa [zero, toI64_byte] at read

/-- Two bytes are read back. -/
theorem rdByte_pair {v : I64} {f : I64 → I64} (run : (do
      stringSet addr (toU8 (v &&& 0xff))
      stringSet (addr + 1) (toU8 (sar v 8 &&& 0xff)) : Machine Unit) mem = .ok ((), mem')) :
    (do
      let b0 ← rdByte addr
      let b1 ← rdByte (addr + 1)
      return f (b0 ||| sal b1 8) : Machine I64) mem' =
        .ok (f ((v.setWidth 16).setWidth 64), mem') := by
  have zero : addr + 0 = addr := BitVec.add_zero addr
  have pair : writeAt addr [(0, toU8 (v &&& 0xff)), (1, toU8 (sar v 8 &&& 0xff))] mem =
      .ok ((), mem') := by
    rwa [writeAt, zero, writeAt, writeAt, bind_pure_unit]
  have first := rdByte_writeAt pair (by simp) (.head _)
  have second := rdByte_writeAt pair (by simp) (.tail _ (.head _))
  rw [zero] at first
  rw [bind_eq first, bind_eq second, toI64_pair]
  rfl

/-- The cells of a kind. -/
def Canonical (kind : UInt8) (cell : I64) : Prop :=
  kind = Cir.typemeta.pointer ∨
    ∃ name size v, (name, kind, size) ∈ Cir.scalars ∧ decodeCell name cell = some v

/-- The cell of an integer is the one that what is kept of it is extended to. -/
theorem widen_narrow {name : String} {type : ScalarIntType} {cell : I64} {v : Value}
    (found : scalarIntType name = some type) (decoded : decodeCell name cell = some v) :
    widen type (narrow type cell) = cell := by
  have known : type ∈ scalarIntTypes := List.mem_of_find?_eq_some found
  obtain rfl : type.name = name := by simpa using List.find?_some found
  obtain ⟨named, rfl⟩ := decodeCell_eq_some_iff.mp decoded
  obtain ⟨bits, rfl⟩ := exists_bits known named
  exact congrArg (widen type) (narrow_widen (width_le known) bits)

/-- What was kept is kept again. -/
theorem narrow_kept (cell : I64) (type : ScalarIntType) (known : type ∈ scalarIntTypes) :
    narrow type ((cell.setWidth (8 * type.width)).setWidth 64) = narrow type cell := by
  have small := width_le known
  apply BitVec.eq_of_getLsbD_eq
  intro i hi
  simp only [narrow, BitVec.getLsbD_setWidth, hi, decide_true, Bool.true_and]
  rw [decide_eq_true (by omega), Bool.true_and]

/-- Half a cell is read back as it was before it was taken. -/
theorem toU32_kept (cell : I64) :
    (((toU32 cell).setWidth 64).setWidth 32).setWidth 64 = (cell.setWidth 32).setWidth 64 := by
  apply BitVec.eq_of_getLsbD_eq
  intro i hi
  simp only [toU32, BitVec.getLsbD_setWidth]
  grind

/-- A cell is read back as it was stored. -/
theorem loadScalar_storeScalar {kind : UInt8} {cell : I64} (canonical : Canonical kind cell)
    (run : storeScalar (toI64 kind) addr cell mem = .ok ((), mem')) :
    loadScalar (toI64 kind) addr mem' = .ok (cell, mem') := by
  rcases canonical with rfl | ⟨name, size, v, scalar, decoded⟩
  · exact rdU64_wrU64 run
  simp only [Cir.scalars, List.mem_cons, List.not_mem_nil, or_false, Prod.mk.injEq] at scalar
  rcases scalar with ⟨rfl, rfl, -⟩ | ⟨rfl, rfl, -⟩ | ⟨rfl, rfl, -⟩ | ⟨rfl, rfl, -⟩ | ⟨rfl, rfl, -⟩ |
    ⟨rfl, rfl, -⟩ | ⟨rfl, rfl, -⟩ | ⟨rfl, rfl, -⟩ | ⟨rfl, rfl, -⟩ | ⟨rfl, rfl, -⟩
  · -- unit
    obtain ⟨named, rfl⟩ := decodeCell_eq_some_iff.mp decoded
    obtain rfl : mem = mem' := congrArg Prod.snd (Except.ok.inj run)
    cases v with
    | unit => rfl
    | int x => exact absurd named.2 (scalarIntType_name named.1).2.1
    | bool b => exact absurd (show "Unit" = "Bool" from named) (by decide)
    | _ => exact named.elim
  · -- truth values
    obtain ⟨named, rfl⟩ := decodeCell_eq_some_iff.mp decoded
    obtain ⟨b, rfl⟩ := exists_bool named
    have read := rdByte_stringSet run
    have value : ((encodeCell (.bool b)).setWidth 8).setWidth 64 = encodeCell (.bool b) := by
      cases b <;> rfl
    rwa [value] at read
  · -- I8
    have read := rdByte_stringSet run
    have value : widen i8 (narrow i8 ((cell.setWidth 8).setWidth 64)) = cell :=
      (congrArg (widen i8) (narrow_kept cell i8 (by decide))).trans (widen_narrow rfl decoded)
    change (rdByte addr >>= fun b => pure (widen i8 (narrow i8 b))) mem' = _
    rw [bind_eq read, value]
    rfl
  · -- I16
    have value : widen i16 (narrow i16 ((cell.setWidth 16).setWidth 64)) = cell :=
      (congrArg (widen i16) (narrow_kept cell i16 (by decide))).trans (widen_narrow rfl decoded)
    have read := rdByte_pair (f := fun r => widen i16 (narrow i16 r)) run
    rwa [value] at read
  · -- I32
    have read := rdU32_wrU32 run
    have value : widen i32 (narrow i32 ((cell.setWidth 32).setWidth 64)) = cell :=
      (congrArg (widen i32) (narrow_kept cell i32 (by decide))).trans (widen_narrow rfl decoded)
    rw [toU32_kept] at read
    change (rdU32 addr >>= fun w => pure (widen i32 (narrow i32 w))) mem' = _
    rw [bind_eq read, value]
    rfl
  · exact rdU64_wrU64 run
  · -- U8
    have read := rdByte_stringSet run
    have value : (cell.setWidth 8).setWidth 64 = cell := @widen_narrow "U8" u8 cell v rfl decoded
    rwa [value] at read
  · -- U16
    have value : (cell.setWidth 16).setWidth 64 = cell := @widen_narrow "U16" u16 cell v rfl decoded
    have read := rdByte_pair (f := id) run
    rwa [value] at read
  · -- U32
    have read := rdU32_wrU32 run
    have value : (cell.setWidth 32).setWidth 64 = cell := @widen_narrow "U32" u32 cell v rfl decoded
    rw [toU32_kept, value] at read
    exact read
  · exact rdU64_wrU64 run

/-- A memory of four bytes. -/
def fourBytes : Buffer where
  bytes := [0, 0, 0, 0]
  capacity := 4
  fits := by decide
  sized := by decide

end Eval

end SelfHosted

end CodeDb

import CodeDb.Cir.Format
import CodeDb.SelfHosted.Eval.Operators

/-!
# The hosted evaluator computes as the reference evaluator does

A value is kept in a cell as its bits, extended to 64 as the sign of its type says. So the bits of
a width are all there is to know of a cell, an operator computes the same from them as from
the value, and what it puts into a cell is extended again.

## Main definitions

* `ValueMatches` — values of a type
* `encodeCell`, `decodeCell` — values in cells, and back

## Main results

* `decodeCell_eq_some_iff` — a cell that is decoded is the one that its value is encoded as
* `binaryStep_agrees`, `applyUnary_agrees`, `applyCast_agrees` — operators and casts
-/

namespace CodeDb

namespace SelfHosted

namespace Eval

/-! ### Cells -/

/-- A value is one of a type. -/
def ValueMatches (typeName : String) : Value → Prop
  | .int x => x.type ∈ scalarIntTypes ∧ x.type.name = typeName
  | .bool _ => typeName = "Bool"
  | .unit => typeName = "Unit"
  | _ => False

/-- The cell of a value. -/
def encodeCell : Value → I64
  | .int x => widen x.type x.bits
  | .bool b => if b then 1 else 0
  | _ => 0

/-- The value of a type in a cell, if the cell is extended as cells of the type are. -/
def decodeCell (typeName : String) (cell : I64) : Option Value :=
  if typeName = "Unit" then if cell = 0 then some .unit else none
  else if typeName = "Bool" then
    if cell = 0 then some (.bool false) else if cell = 1 then some (.bool true) else none
  else
    match scalarIntType typeName with
    | some type =>
      if widen type (narrow type cell) = cell then some (.int ⟨type, narrow type cell⟩) else none
    | none => none

theorem width_le {type : ScalarIntType} (listed : type ∈ scalarIntTypes) : type.width ≤ 8 := by
  revert type
  decide

/-- A type is found under its name, which is no other one's. -/
theorem scalarIntType_name {type : ScalarIntType} (listed : type ∈ scalarIntTypes) :
    scalarIntType type.name = some type ∧ type.name ≠ "Unit" ∧ type.name ≠ "Bool" := by
  revert type
  decide

/-- Bits that were extended are there again. -/
theorem narrow_widen {type : ScalarIntType} (small : type.width ≤ 8)
    (bits : BitVec (8 * type.width)) : narrow type (widen type bits) = bits := by
  apply BitVec.eq_of_getLsbD_eq
  intro i hi
  rw [narrow, widen]
  split
  · simp only [BitVec.getLsbD_setWidth, BitVec.getLsbD_signExtend, hi, decide_true, Bool.true_and,
      if_true]
    rw [decide_eq_true (by omega), Bool.true_and]
  · simp only [BitVec.getLsbD_setWidth, hi, decide_true, Bool.true_and]
    rw [decide_eq_true (by omega), Bool.true_and]

/-- A value is decoded from its cell, and from no other one. -/
theorem decodeCell_eq_some_iff {typeName : String} {cell : I64} {v : Value} :
    decodeCell typeName cell = some v ↔ ValueMatches typeName v ∧ cell = encodeCell v := by
  rw [decodeCell]
  constructor
  · intro decoded
    split_ifs at decoded with unit none bool none one
    · cases decoded
      exact ⟨unit, none⟩
    · cases decoded
      exact ⟨bool, none⟩
    · cases decoded
      exact ⟨bool, one⟩
    · split at decoded
      next type found =>
        split_ifs at decoded with extended
        cases decoded
        exact ⟨⟨List.mem_of_find?_eq_some found, by simpa using List.find?_some found⟩,
          extended.symm⟩
      next => contradiction
  · rintro ⟨named, rfl⟩
    cases v with
    | int x =>
      obtain ⟨listed, rfl⟩ := named
      obtain ⟨found, unit, bool⟩ := scalarIntType_name listed
      have bits : narrow x.type (encodeCell (.int x)) = x.bits := narrow_widen (width_le listed) _
      simp only [unit, bool, found, if_false, bits]
      exact if_pos rfl
    | bool b =>
      obtain rfl := named
      cases b <;> rfl
    | unit =>
      obtain rfl := named
      rfl
    | _ => exact named.elim

/-! ### Binary operators -/

/-- Both evaluators make the same of an operation, a value of a type or a trap. -/
def BinaryAgrees (typeName : String) (hosted : Run (I64 × I64)) (reference : Mem Value) : Prop :=
  (∃ cell v, hosted = .ok (0, cell) ∧ reference = pure v ∧ decodeCell typeName cell = some v) ∨
  (hosted = .ok (2, trap.div0) ∧ reference = Mem.fail "division by zero") ∨
  (hosted = .ok (2, trap.mod0) ∧ reference = Mem.fail "modulo by zero")

/-- A verb is applied at the type of its columns. -/
theorem applyBinary_eq {type : ScalarIntType} (listed : type ∈ scalarIntTypes) {verb a b : I64}
    (int : verb ≠ 19 ∧ verb ≠ 20) :
    applyBinary verb (BitVec.ofNat 64 type.width) (if type.signed then 1 else 0) a b =
      binAt type verb a b := by
  rw [applyBinary, if_neg int.1, if_neg int.2]
  simp only [scalarIntTypes, List.mem_cons, List.not_mem_nil, or_false] at listed
  rcases listed with rfl | rfl | rfl | rfl | rfl | rfl | rfl | rfl <;> rfl

/-- What an operator on two integers of a type makes. -/
def resultName (type : ScalarIntType) : SemOp → String
  | .cmp _ => "Bool"
  | _ => type.name

/-- What the flag of a trap and the verb of an operator say of it. -/
structure Columns (op : SemOp) (flag verb : I64) : Prop where
  decoded : verbOp verb = some op
  int : verb ≠ 19 ∧ verb ≠ 20
  div : verb = 4 ↔ op = .arith .div
  trap : flag = 1 ↔ op = .arith .div ∨ op = .arith .rem

section Ints

variable {type : ScalarIntType} (listed : type ∈ scalarIntTypes) (x y : BitVec (8 * type.width))
include listed

theorem decodeCell_int : decodeCell type.name (widen type x) = some (.int ⟨type, x⟩) :=
  decodeCell_eq_some_iff.mpr ⟨⟨listed, rfl⟩, rfl⟩

/-- A cell is zero if its value is. -/
theorem widen_eq_zero_iff : widen type x = 0 ↔ x = 0 := by
  have none : widen type 0 = 0 := by
    apply BitVec.eq_of_getLsbD_eq
    intro i _
    rw [widen]
    split <;> simp [BitVec.getLsbD_signExtend]
  constructor
  · intro zero
    rw [← narrow_widen (width_le listed) x, zero, ← none, narrow_widen (width_le listed)]
  · rintro rfl
    exact none

/-- An operator on two integers of a type. -/
theorem binaryStep_int {op : SemOp} {flag verb : I64} (columns : Columns op flag verb)
    {src : String} (named : intOps.lookup src = some op) :
    BinaryAgrees (resultName type op)
      (binaryStep flag verb (BitVec.ofNat 64 type.width) (if type.signed then 1 else 0)
        (widen type x) (widen type y))
      (evalBinary src (.int ⟨type, x⟩) (.int ⟨type, y⟩)) := by
  have same : y.setWidth (8 * type.width) = y := BitVec.setWidth_eq _
  rw [binaryStep, applyBinary_eq listed columns.int, binAt, narrow_widen (width_le listed),
    narrow_widen (width_le listed), columns.decoded]
  simp only [evalBinary, if_true, named, same, widen_eq_zero_iff listed]
  have value (bits : BitVec (8 * type.width)) := decodeCell_int listed bits
  have untrapped (never : ¬ (op = .arith .div ∨ op = .arith .rem)) : ¬ (flag = 1 ∧ y = 0) :=
    fun both => never (columns.trap.mp both.1)
  -- by operator: only division and remainder trap, and only at zero
  cases op with
  | bit op =>
    rw [if_neg (untrapped (by simp))]
    exact .inl ⟨_, _, rfl, rfl, value _⟩
  | shift op =>
    rw [if_neg (untrapped (by simp))]
    exact .inl ⟨_, _, rfl, rfl, value _⟩
  | cmp op =>
    rw [if_neg (untrapped (by simp))]
    refine .inl ⟨_, _, rfl, rfl, ?_⟩
    cases applyCmp op (IntValue.toInt ⟨type, x⟩) (IntValue.toInt ⟨type, y⟩) <;> rfl
  | arith op =>
    cases op with
    | add | sub | mul =>
      rw [if_neg (untrapped (by simp))]
      exact .inl ⟨_, _, rfl, rfl, value _⟩
    | div =>
      by_cases zero : y = 0
      · have trapped : evalArith .div type.signed x y = .error "division by zero" := if_pos zero
        rw [if_pos ⟨columns.trap.mpr (.inl rfl), zero⟩, if_pos (columns.div.mpr rfl)]
        simp only [trapped]
        exact .inr (.inl ⟨rfl, rfl⟩)
      · have bits : evalArith .div type.signed x y =
            .ok (if type.signed then x.sdiv y else x.udiv y) := if_neg zero
        rw [if_neg fun both => zero both.2]
        simp only [bits]
        exact .inl ⟨_, _, rfl, rfl, value _⟩
    | rem =>
      by_cases zero : y = 0
      · have trapped : evalArith .rem type.signed x y = .error "modulo by zero" := if_pos zero
        rw [if_pos ⟨columns.trap.mpr (.inr rfl), zero⟩,
          if_neg fun four => by simpa using columns.div.mp four]
        simp only [trapped]
        exact .inr (.inr ⟨rfl, rfl⟩)
      · have bits : evalArith .rem type.signed x y =
            .ok (if type.signed then x.srem y else x.umod y) := if_neg zero
        rw [if_neg fun both => zero both.2]
        simp only [bits]
        exact .inl ⟨_, _, rfl, rfl, value _⟩

end Ints

/-- The flag of a trap, as an operation of an entry of the registry has it. -/
def trapFlag (entry : OpEntry) : I64 := if entry.trap.isSome then 1 else 0

/-- A binary operator on integers. -/
theorem binary_int {type : ScalarIntType} {entry : OpEntry}
    (listed : entry ∈ intEntries type) (binary : entry.category = .binary) :
    ∃ op, Columns op (trapFlag entry) (toI64 (Cir.opverb entry.sem).1) ∧
      intOps.lookup entry.sourceOp = some op ∧ entry.leftType = type.name ∧
      entry.rightType = type.name ∧ entry.resultType = resultName type op ∧
      (Cir.opverb entry.sem).2 = some type := by
  simp only [intEntries, List.mem_cons, List.not_mem_nil, or_false] at listed
  rcases listed with rfl | rfl | rfl | rfl | rfl | rfl | rfl | rfl | rfl | rfl | rfl | rfl | rfl |
    rfl | rfl | rfl | rfl | rfl
  all_goals first | contradiction | skip
  all_goals refine ⟨_, ⟨rfl, by simp [Cir.opverb, toI64], by simp [Cir.opverb, toI64], ?_⟩, rfl,
    rfl, rfl, rfl, rfl⟩
  all_goals simp [trapFlag]

/-- The columns of an operator on integers of a type. -/
theorem semColumns_int {type : ScalarIntType} (known : type ∈ scalarIntTypes) {entry : OpEntry}
    (listed : entry ∈ ops) (int : (Cir.opverb entry.sem).2 = some type) :
    ∃ width sgn, Cir.semColumns entry.kind = .ok ((Cir.opverb entry.sem).1, width, sgn) ∧
      toI64 width = BitVec.ofNat 64 type.width ∧ toI64 sgn = if type.signed then 1 else 0 := by
  have small := width_le known
  refine ⟨UInt8.ofNat type.width, if type.signed then 1 else 0, ?_, ?_, ?_⟩
  · rw [Cir.semColumns, semForKind_ops listed]
    simp only
    rw [show Cir.opverb entry.sem = ((Cir.opverb entry.sem).1, some type) from
      Prod.ext rfl int]
    simp only
    rw [if_pos (by omega)]
  · have width : (UInt8.ofNat type.width).toNat = type.width :=
      UInt8.toNat_ofNat_of_lt' (Nat.lt_of_le_of_lt small (by decide))
    apply BitVec.eq_of_toNat_eq
    rw [toI64, BitVec.toNat_setWidth, BitVec.toNat_ofNat]
    change (UInt8.ofNat type.width).toNat % _ = _
    rw [width]
  · split <;> rfl

/-- What is listed is an operator on truth values, or one on integers of a type. -/
theorem mem_ops {entry : OpEntry} (listed : entry ∈ ops) :
    entry ∈ boolOps ∨ ∃ type ∈ scalarIntTypes, entry ∈ intEntries type := by
  simpa only [ops, List.mem_append, List.mem_flatMap] using listed

/-- A value of a type of integers. -/
theorem exists_bits {type : ScalarIntType} (known : type ∈ scalarIntTypes) {v : Value}
    (named : ValueMatches type.name v) : ∃ bits, v = .int ⟨type, bits⟩ := by
  obtain ⟨found, unit, bool⟩ := scalarIntType_name known
  cases v with
  | int x =>
    obtain ⟨type', bits⟩ := x
    obtain ⟨listed, same⟩ := named
    obtain rfl : type' = type := by
      have found' := (scalarIntType_name listed).1
      rw [same] at found'
      exact Option.some.inj (found'.symm.trans found)
    exact ⟨bits, rfl⟩
  | bool b => exact absurd named bool
  | unit => exact absurd named unit
  | _ => exact named.elim

/-- A truth value. -/
theorem exists_bool {v : Value} (named : ValueMatches "Bool" v) : ∃ b, v = .bool b := by
  cases v with
  | int x =>
    obtain ⟨listed, same⟩ := named
    exact absurd same (scalarIntType_name listed).2.2
  | bool b => exact ⟨b, rfl⟩
  | unit => exact absurd (show "Bool" = "Unit" from named) (by decide)
  | _ => exact named.elim

/-- What an operation of the hosted evaluator makes of values is what the reference evaluator
makes of them. -/
theorem binaryStep_agrees {entry : OpEntry} (listed : entry ∈ ops)
    (binary : entry.category = .binary) :
    ∃ verb width sgn, Cir.semColumns entry.kind = .ok (verb, width, sgn) ∧
      ∀ left right, ValueMatches entry.leftType left → ValueMatches entry.rightType right →
        BinaryAgrees entry.resultType (binaryStep (trapFlag entry) (toI64 verb) (toI64 width)
          (toI64 sgn) (encodeCell left) (encodeCell right))
          (evalBinary entry.sourceOp left right) := by
  rcases mem_ops listed with bool | ⟨type, known, int⟩
  · simp only [boolOps, List.mem_cons, List.not_mem_nil, or_false] at bool
    rcases bool with rfl | rfl | rfl
    · refine ⟨19, 0, 0, ?_, ?_⟩
      · rw [Cir.semColumns, semForKind_ops listed]
        rfl
      · intro left right isLeft isRight
        obtain ⟨a, rfl⟩ := exists_bool isLeft
        obtain ⟨b, rfl⟩ := exists_bool isRight
        refine .inl ⟨_, _, rfl, rfl, ?_⟩
        cases a <;> cases b <;> rfl
    · refine ⟨20, 0, 0, ?_, ?_⟩
      · rw [Cir.semColumns, semForKind_ops listed]
        rfl
      · intro left right isLeft isRight
        obtain ⟨a, rfl⟩ := exists_bool isLeft
        obtain ⟨b, rfl⟩ := exists_bool isRight
        refine .inl ⟨_, _, rfl, rfl, ?_⟩
        cases a <;> cases b <;> rfl
    · contradiction
  · obtain ⟨op, columns, named, left, right, result, typed⟩ := binary_int int binary
    obtain ⟨width, sgn, found, isWidth, isSign⟩ := semColumns_int known listed typed
    refine ⟨_, width, sgn, found, ?_⟩
    rw [left, right, result, isWidth, isSign]
    intro x y isLeft isRight
    obtain ⟨x, rfl⟩ := exists_bits known isLeft
    obtain ⟨y, rfl⟩ := exists_bits known isRight
    exact binaryStep_int known x y columns named

/-! ### Unary operators and casts -/

/-- A cell of 64 bits is kept as it is. -/
theorem widen_i64 (a : I64) : widen i64 a = a := BitVec.signExtend_eq a

theorem narrow_i64 (a : I64) : narrow i64 a = a := BitVec.setWidth_eq a

/-- Negation is computed at the type of the columns. -/
theorem negAt_eq {type : ScalarIntType} (known : type ∈ scalarIntTypes)
    (x : BitVec (8 * type.width)) :
    negAt (BitVec.ofNat 64 type.width) (if type.signed then 1 else 0) (widen type x) =
      widen type (-x) := by
  have general : negAs type (widen type x) = widen type (-x) := by
    have zero : narrow type 0 = 0 := BitVec.setWidth_zero _ _
    rw [negAs, narrow_widen (width_le known), zero]
    exact congrArg (widen type) (BitVec.zero_sub x)
  rw [← general]
  simp only [scalarIntTypes, List.mem_cons, List.not_mem_nil, or_false] at known
  rcases known with rfl | rfl | rfl | rfl | rfl | rfl | rfl | rfl
  case inr.inr.inr.inl =>
    have kept : negAs i64 (widen i64 x) = 0 - widen i64 x := by
      rw [negAs, narrow_i64, narrow_i64]
      exact widen_i64 _
    exact kept.symm
  all_goals rfl

/-- So is the complement. -/
theorem bitnotAt_eq {type : ScalarIntType} (known : type ∈ scalarIntTypes)
    (x : BitVec (8 * type.width)) :
    bitnotAt (BitVec.ofNat 64 type.width) (if type.signed then 1 else 0) (widen type x) =
      widen type (~~~x) := by
  have general : bitnotAs type (widen type x) = widen type (~~~x) := by
    rw [bitnotAs, narrow_widen (width_le known)]
  rw [← general]
  simp only [scalarIntTypes, List.mem_cons, List.not_mem_nil, or_false] at known
  rcases known with rfl | rfl | rfl | rfl | rfl | rfl | rfl | rfl
  case inr.inr.inr.inl =>
    have kept : bitnotAs i64 (widen i64 x) = ~~~widen i64 x := by
      rw [bitnotAs, narrow_i64]
      exact widen_i64 _
    exact kept.symm
  all_goals rfl

/-- A unary operator. -/
theorem applyUnary_agrees {entry : OpEntry} (listed : entry ∈ ops)
    (unary : entry.category = .unary) :
    ∃ verb width sgn, Cir.semColumns entry.kind = .ok (verb, width, sgn) ∧
      ∀ v, ValueMatches entry.leftType v → ∃ r, evalUnary entry.sourceOp v = pure r ∧
        decodeCell entry.resultType
          (applyUnary (toI64 verb) (toI64 width) (toI64 sgn) (encodeCell v)) = some r := by
  rcases mem_ops listed with bool | ⟨type, known, int⟩
  · simp only [boolOps, List.mem_cons, List.not_mem_nil, or_false] at bool
    rcases bool with rfl | rfl | rfl
    · contradiction
    · contradiction
    · refine ⟨21, 0, 0, ?_, ?_⟩
      · rw [Cir.semColumns, semForKind_ops listed]
        rfl
      · intro v named
        obtain ⟨b, rfl⟩ := exists_bool named
        refine ⟨_, rfl, ?_⟩
        cases b <;> rfl
  · have typed : (Cir.opverb entry.sem).2 = some type ∧ entry.leftType = type.name ∧
        entry.resultType = type.name ∧ (entry.sourceOp = "-" ∧ (Cir.opverb entry.sem).1 = 17 ∨
          entry.sourceOp = "~" ∧ (Cir.opverb entry.sem).1 = 18) := by
      simp only [intEntries, List.mem_cons, List.not_mem_nil, or_false] at int
      rcases int with rfl | rfl | rfl | rfl | rfl | rfl | rfl | rfl | rfl | rfl | rfl | rfl | rfl |
        rfl | rfl | rfl | rfl | rfl
      all_goals first | contradiction | simp [Cir.opverb]
    obtain ⟨typed, left, result, which⟩ := typed
    obtain ⟨width, sgn, found, isWidth, isSign⟩ := semColumns_int known listed typed
    refine ⟨_, width, sgn, found, ?_⟩
    rw [left, result, isWidth, isSign]
    intro v named
    obtain ⟨x, rfl⟩ := exists_bits known named
    rcases which with ⟨src, verb⟩ | ⟨src, verb⟩
    · refine ⟨.int ⟨type, -x⟩, by rw [src]; rfl, ?_⟩
      have negated := negAt_eq known x
      rw [verb, ← decodeCell_int known, ← negated]
      rfl
    · refine ⟨.int ⟨type, ~~~x⟩, by rw [src]; rfl, ?_⟩
      have complement := bitnotAt_eq known x
      rw [verb, ← decodeCell_int known, ← complement]
      rfl

/-- The cell of an integer has its number. -/
theorem encodeCell_int {x : IntValue} (listed : x.type ∈ scalarIntTypes) :
    encodeCell (.int x) = BitVec.ofInt 64 x.toInt := by
  have small := width_le listed
  rw [encodeCell, widen, IntValue.toInt]
  split
  · rfl
  · apply BitVec.eq_of_toNat_eq
    rw [BitVec.ofInt_natCast, BitVec.toNat_setWidth, BitVec.toNat_ofNat]

/-- What is kept of a number is the same, whatever was kept of it before. -/
theorem setWidth_ofInt {w : Nat} (small : w ≤ 64) (n : Int) :
    (BitVec.ofInt 64 n).setWidth w = BitVec.ofInt w n := by
  have divides : ((2 ^ w : Nat) : Int) ∣ ((2 ^ 64 : Nat) : Int) :=
    Int.natCast_dvd_natCast.mpr (Nat.pow_dvd_pow 2 small)
  apply BitVec.eq_of_toNat_eq
  have reduced : (n % (2 ^ 64 : Nat)).toNat % 2 ^ w =
      (n % (2 ^ 64 : Nat) % (2 ^ w : Nat)).toNat := by
    rw [Int.toNat_emod (Int.emod_nonneg _ (by decide)) (Int.natCast_nonneg _), Int.toNat_natCast]
  rw [BitVec.toNat_setWidth, BitVec.toNat_ofInt, BitVec.toNat_ofInt, reduced,
    Int.emod_emod_of_dvd _ divides]

theorem narrow_encodeCell {x : IntValue} {target : ScalarIntType} (known : target ∈ scalarIntTypes)
    (listed : x.type ∈ scalarIntTypes) :
    narrow target (encodeCell (.int x)) = (IntValue.ofInt target x.toInt).bits := by
  have small := width_le known
  rw [encodeCell_int listed]
  exact setWidth_ofInt (by omega) _

/-- A cell is cast at the type of its kind. -/
theorem applyCast_eq {name : String} {kind : UInt8} {size : UInt64}
    (scalar : (name, kind, size) ∈ Cir.scalars) {target : ScalarIntType}
    (found : scalarIntType name = some target) (cell : I64) :
    applyCast (toI64 kind) cell = widen target (narrow target cell) := by
  simp only [Cir.scalars, List.mem_cons, List.not_mem_nil, or_false, Prod.mk.injEq] at scalar
  rcases scalar with ⟨rfl, rfl, -⟩ | ⟨rfl, rfl, -⟩ | ⟨rfl, rfl, -⟩ | ⟨rfl, rfl, -⟩ | ⟨rfl, rfl, -⟩ |
    ⟨rfl, rfl, -⟩ | ⟨rfl, rfl, -⟩ | ⟨rfl, rfl, -⟩ | ⟨rfl, rfl, -⟩ | ⟨rfl, rfl, -⟩
  all_goals first | contradiction | obtain rfl := Option.some.inj found
  case inr.inr.inr.inr.inr.inl =>
    exact ((widen_i64 _).trans (narrow_i64 cell)).symm
  all_goals rfl

/-- A cast renews the cell for the type. -/
theorem applyCast_agrees {name : String} {kind : UInt8} {size : UInt64}
    (scalar : (name, kind, size) ∈ Cir.scalars) {target : ScalarIntType}
    (found : scalarIntType name = some target) {x : IntValue} (listed : x.type ∈ scalarIntTypes) :
    ∃ r, castIntValue target (.int x) = pure r ∧
      decodeCell name (applyCast (toI64 kind) (encodeCell (.int x))) = some r := by
  have known : target ∈ scalarIntTypes := List.mem_of_find?_eq_some found
  obtain rfl : target.name = name := by simpa using List.find?_some found
  refine ⟨_, rfl, ?_⟩
  rw [applyCast_eq scalar found, narrow_encodeCell known listed]
  exact decodeCell_int known _

end Eval

end SelfHosted

end CodeDb

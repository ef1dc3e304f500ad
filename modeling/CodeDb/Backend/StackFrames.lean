import CodeDb.Backend.Offsets
import CodeDb.Backend.ValueFlow
import CodeDb.Store.JsonReader
import Mathlib.Algebra.BigOperators.Ring.List
import Mathlib.Data.BitVec
import Mathlib.Tactic.Ring

/-!
# Frames without overlap

The slots of a frame do not overlap, are aligned and lie within it, and every value has one,
if and only if the sizes that are added up do not reach the limit of the target, every local
is as wide as the layout of its type, and every branch results in a value of the function. The
backend checks each size by itself but not their sum, does not compare a local with its layout,
and looks up the result of a body that is repeated, but not the result of a branch.

## Main definitions

* `frameWidths` — the widths of the slots of a function
* `StackLayout.Sound` — the slots do not overlap, and every value has one
* `FrameFits` — when that is so

## Main results

* `compileStackLayout_sound_iff` — a frame is sound if and only if it fits
* `compileStackLayout_overlaps` — a frame that wraps around
-/

namespace CodeDb

open Alignment Packing

/-! ### The slots of a function -/

section Widths

variable (layouts : List LoweredTypeLayout)

/-- Whether a type is passed in memory. -/
def isIndirect (typeHash : Hash) : Bool :=
  match nativePassesIndirect layouts typeHash with
  | .ok indirect => indirect
  | .error _ => false

/-- The width of a copy of a parameter: as wide as its layout, in eights. -/
def copyWidth (typeHash : Hash) : Nat :=
  match nativeTypeSize layouts typeHash with
  | .ok size => roundUp (max size.toNat 1) 8
  | .error _ => 0

def copyWidths (params : List LoweredParamSlot) : List Nat :=
  (params.filter fun param => isIndirect layouts param.typeHash).map fun param =>
    copyWidth layouts param.typeHash

/-- How many parameters take where to return to. -/
def hiddenReturns (typeHash : Hash) : Nat :=
  match nativeReturnsIndirect layouts typeHash with
  | .ok indirect => indirect.toNat
  | .error _ => 0

end Widths

/-- The widths of the slots of a function, from one end of the frame on. -/
def frameWidths (ir : LoweredFunctionIr) : List Nat :=
  List.replicate (hiddenReturns ir.typeLayouts ir.returnTypeHash + ir.params.length) 8 ++
    copyWidths ir.typeLayouts ir.params ++ ir.locals.map (·.sizeBytes.toNat) ++
    List.replicate (definedIds ir.operations).length 8

namespace StackLayout

variable (target : NativeTarget) (ir : LoweredFunctionIr) (layout : StackLayout)

/-- The slots where the frame has them. -/
def slots : List Extent :=
  layout.hiddenReturnOffset.toList.map (fun offset => ⟨target.number offset, 8⟩) ++
    layout.paramOffsets.map (fun offset => ⟨target.number offset, 8⟩) ++
    layout.paramCopies.map (fun copy =>
      ⟨target.number copy.offset, copyWidth ir.typeLayouts copy.typeHash⟩) ++
    List.zipWith (fun l offset => ⟨target.number offset, l.sizeBytes.toNat⟩) ir.locals
      layout.localOffsets ++
    layout.valueOffsets.map (fun value => ⟨target.number value.2, 8⟩)

end StackLayout

namespace NativeTarget

/-- The bounds of a frame of some size. -/
def low : NativeTarget → Int → Int
  | x86_64, size => -size
  | arm64, _ => 0

def high : NativeTarget → Int → Int
  | x86_64, _ => 0
  | arm64, size => size

end NativeTarget

/-- Every local is as wide as the layout of its type. -/
def LocalsWide (ir : LoweredFunctionIr) : Prop :=
  ∀ l ∈ ir.locals, ∀ layout, nativeTypeLayout ir.typeLayouts l.typeHash = .ok layout →
    layout.sizeBytes ≤ l.sizeBytes

/-- The slots of a function do not overlap, are aligned and as wide as they need to be, and lie
in the frame; every name that is read or written has one; and no size has wrapped. -/
structure StackLayout.Sound (target : NativeTarget) (ir : LoweredFunctionIr)
    (layout : StackLayout) : Prop where
  apart : (layout.slots target ir).Pairwise Extent.Apart
  aligned : ∀ slot ∈ layout.slots target ir, 8 ∣ slot.start
  inside : ∀ slot ∈ layout.slots target ir, slot.Within
    (target.low (target.number layout.stackSize)) (target.high (target.number layout.stackSize))
  wide : LocalsWide ir
  valueSlots : ∀ id ∈ usedIds ir.operations ++ branchResults ir.operations,
    (layout.valueOffsets.lookup id).isSome
  exactSlots : layout.slots target ir = (pack 0 (frameWidths ir)).map target.orient
  exactSize : target.number layout.stackSize = roundUp (frameWidths ir).sum 16

/-- The sizes of a function do not reach the limit of a target, its locals are as wide as their
layouts, and its branches result in values that it has. -/
structure FrameFits (target : NativeTarget) (ir : LoweredFunctionIr) : Prop where
  small : roundUp (frameWidths ir).sum 16 < target.sizeLimit
  wide : LocalsWide ir
  results : ∀ id ∈ branchResults ir.operations, id ∈ definedIds ir.operations

/-! ### What the offsets are -/

section Placed

variable {target : NativeTarget} {layouts : List LoweredTypeLayout} {place : Nat}

theorem width_param {param : LoweredParamSlot} {params : List LoweredParamSlot} {indirect : Bool}
    (passed : nativePassesIndirect layouts param.typeHash = .ok indirect) :
    copyWidths layouts (param :: params) =
      if indirect then copyWidth layouts param.typeHash :: copyWidths layouts params
      else copyWidths layouts params := by
  have known : isIndirect layouts param.typeHash = indirect := by rw [isIndirect, passed]
  rw [copyWidths, List.filter_cons, known]
  cases indirect <;> rfl

/-- The copies of parameters are laid one after the other. -/
theorem placeParamCopies_eq_ok {params : List LoweredParamSlot} {copies : List StackParamCopy}
    {last : Word32} (placed : placeParamCopies target layouts params (.ofNat 32 place) =
      .ok (copies, last)) :
    copies.map (fun copy =>
      (⟨target.number copy.offset, copyWidth layouts copy.typeHash⟩ : Extent)) =
        (pack place (copyWidths layouts params)).map target.laid ∧
      last = .ofNat 32 (place + (copyWidths layouts params).sum) := by
  induction params generalizing place copies last with
  | nil =>
    cases placed
    exact ⟨rfl, rfl⟩
  | cons param params ih =>
    rw [placeParamCopies] at placed
    obtain ⟨indirect, passed, placed⟩ := Except.bind_eq_ok.mp placed
    rw [width_param passed]
    cases indirect with
    | false => exact ih placed
    | true =>
      obtain ⟨size, sized, placed⟩ := Except.bind_eq_ok.mp placed
      obtain ⟨word, fits, placed⟩ := Except.bind_eq_ok.mp placed
      obtain ⟨⟨rest, end_⟩, placed, done⟩ := Except.bind_eq_ok.mp placed
      cases Except.pure_eq_ok.mp done
      have width : copyWidth layouts param.typeHash = roundUp (max size.toNat 1) 8 := by
        rw [copyWidth, sized]
      have word : word = .ofNat 32 (copyWidth layouts param.typeHash) := by
        rw [(NativeTarget.sizeFrom_eq_ok fits).2,
          NativeTarget.ofNat_nativeStackSlotSizeBytes, width]
      rw [word, ← BitVec.ofNat_add] at placed
      obtain ⟨later, last⟩ := ih placed
      rw [if_pos rfl, pack, List.map_cons, List.map_cons, later, last, List.sum_cons,
        Nat.add_assoc, word]
      exact ⟨rfl, rfl⟩

/-- So are the locals. -/
theorem placeLocals_eq_ok {slot : Nat} {locals : List LoweredLocalSlot} {offsets : List Word32}
    {last : Word32} (aligned : ∀ l ∈ locals, 8 ∣ l.sizeBytes.toNat)
    (placed : placeLocals target slot locals (.ofNat 32 place) = .ok (offsets, last)) :
    List.zipWith (fun l offset => (⟨target.number offset, l.sizeBytes.toNat⟩ : Extent)) locals
        offsets = (pack place (locals.map (·.sizeBytes.toNat))).map target.laid ∧
      last = .ofNat 32 (place + (locals.map (·.sizeBytes.toNat)).sum) := by
  induction locals generalizing slot place offsets last with
  | nil =>
    cases placed
    exact ⟨rfl, rfl⟩
  | cons l locals ih =>
    obtain ⟨head, tail⟩ := List.forall_mem_cons.mp aligned
    rw [placeLocals] at placed
    split at placed
    · cases placed
    · obtain ⟨word, fits, placed⟩ := Except.bind_eq_ok.mp placed
      obtain ⟨⟨rest, end_⟩, placed, done⟩ := Except.bind_eq_ok.mp placed
      cases Except.pure_eq_ok.mp done
      obtain ⟨small, word⟩ := NativeTarget.sizeFrom_eq_ok fits
      rw [word, NativeTarget.roundLocal_ofNat head small, ← BitVec.ofNat_add] at placed
      obtain ⟨later, last⟩ := ih tail placed
      rw [List.zipWith_cons_cons, List.map_cons, pack, List.map_cons, later, last, List.sum_cons,
        Nat.add_assoc, word, NativeTarget.roundLocal_ofNat head small]
      exact ⟨rfl, rfl⟩

/-- And the values. -/
theorem placeValues_eq (ids : List String) (place : Nat) :
    (placeValues target ids (.ofNat 32 place)).1.map
        (fun value => (⟨target.number value.2, 8⟩ : Extent)) =
      (pack place (List.replicate ids.length 8)).map target.laid ∧
    (placeValues target ids (.ofNat 32 place)).2 =
      .ofNat 32 (place + (List.replicate ids.length 8).sum) := by
  induction ids generalizing place with
  | nil => exact ⟨rfl, rfl⟩
  | cons id ids ih =>
    have next : BitVec.ofNat 32 place + 8 = .ofNat 32 (place + 8) := (BitVec.ofNat_add ..).symm
    obtain ⟨later, last⟩ := ih (place + 8)
    rw [placeValues, next, List.length_cons, List.replicate_succ, pack, List.map_cons,
      List.map_cons, later, last, List.sum_cons, Nat.add_assoc]
    exact ⟨rfl, rfl⟩

theorem isSome_lookup_placeValues {ids : List String} {id : String} (nextOffset : Word32) :
    ((placeValues target ids nextOffset).1.lookup id).isSome ↔ id ∈ ids := by
  induction ids generalizing nextOffset with
  | nil => simp [placeValues]
  | cons other ids ih =>
    rw [placeValues, List.mem_cons, ← ih (nextOffset + 8), List.lookup_cons]
    by_cases same : id = other
    · simp [same]
    · rw [beq_eq_false_iff_ne.mpr same]
      simp [same]

theorem paramOffset_eq (target : NativeTarget) (idx : Nat) :
    target.paramOffset idx = target.offset (.ofNat 32 (8 * idx)) (.ofNat 32 8) := by
  have scaled : BitVec.ofNat 32 (8 * idx) = 8 * .ofNat 32 idx := BitVec.ofNat_mul ..
  rw [scaled]
  cases target with
  | x86_64 =>
    change -8 * (BitVec.ofNat 32 idx + 1) = -(8 * BitVec.ofNat 32 idx + 8)
    ring
  | arm64 => rfl

/-- Parameters are laid one after the other from a place that is a multiple of eight. -/
theorem params_laid (target : NativeTarget) (first count : Nat) :
    (List.range count).map
        (fun idx => (⟨target.number (target.paramOffset (idx + first)), 8⟩ : Extent)) =
      (pack (8 * first) (List.replicate count 8)).map target.laid := by
  induction count generalizing first with
  | zero => rfl
  | succ count ih =>
    have next : 8 * first + 8 = 8 * (first + 1) := by ring
    rw [List.range_succ_eq_map, List.map_cons, List.map_map, List.replicate_succ, pack,
      List.map_cons, next, ← ih (first + 1), Nat.zero_add, paramOffset_eq]
    refine congrArg _ (List.map_congr_left ?_)
    intro idx _
    rw [Function.comp_apply, Nat.succ_add_eq_add_succ]

end Placed

/-- The frame that code is emitted for is the one that is laid out. -/
theorem compileStackLayout_eq_ok {target : NativeTarget} {ir : LoweredFunctionIr}
    {layout : StackLayout} (compiled : compileStackLayout ir target = .ok layout) :
    stackLayout target ir = .ok layout := by
  cases target with
  | x86_64 => exact compiled
  | arm64 =>
    obtain ⟨laid, computed, checked⟩ := Except.bind_eq_ok.mp compiled
    obtain ⟨-, -, same⟩ := Except.bind_eq_ok.mp checked
    cases Except.pure_eq_ok.mp same
    exact computed

/-- The place to return to is laid before the parameters. -/
theorem hidden_laid (target : NativeTarget) (indirect : Bool) :
    (if indirect.toNat = 1 then some target.hiddenOffset else none).toList.map
        (fun offset => (⟨target.number offset, 8⟩ : Extent)) =
      (pack 0 (List.replicate indirect.toNat 8)).map target.laid := by
  cases indirect with
  | false => rfl
  | true => cases target <;> rfl

/-- The slots of a frame are laid one after the other, as far as offsets of 32 bits go. -/
theorem stackLayout_eq_ok {target : NativeTarget} {ir : LoweredFunctionIr} {layout : StackLayout}
    (aligned : ∀ l ∈ ir.locals, 8 ∣ l.sizeBytes.toNat)
    (computed : stackLayout target ir = .ok layout) :
    layout.slots target ir = (pack 0 (frameWidths ir)).map target.laid ∧
      layout.stackSize = target.roundFrame (.ofNat 32 (frameWidths ir).sum) ∧
      ∀ id, (layout.valueOffsets.lookup id).isSome ↔ id ∈ definedIds ir.operations := by
  rw [stackLayout] at computed
  obtain ⟨layouts, listed, computed⟩ := Except.bind_eq_ok.mp computed
  obtain rfl := nativeTypeLayouts_eq_ok listed
  obtain ⟨indirect, returned, computed⟩ := Except.bind_eq_ok.mp computed
  obtain ⟨ids, collected, computed⟩ := Except.bind_eq_ok.mp computed
  have ids_eq := collectValueIds_eq_ok ir.operations collected
  rw [List.nil_append] at ids_eq
  subst ids_eq
  have hidden : hiddenReturns ir.typeLayouts ir.returnTypeHash = indirect.toNat := by
    rw [hiddenReturns, returned]
  have start : BitVec.ofNat 32 (ir.params.length + indirect.toNat) * 8 =
      .ofNat 32 (8 * indirect.toNat + 8 * ir.params.length) := by
    rw [← Nat.mul_add, Nat.add_comm indirect.toNat, Nat.mul_comm]
    exact (BitVec.ofNat_mul ..).symm
  obtain ⟨⟨copies, afterCopies⟩, placed, computed⟩ := Except.bind_eq_ok.mp computed
  simp only at placed computed
  rw [start] at placed
  obtain ⟨copies_laid, rfl⟩ := placeParamCopies_eq_ok placed
  obtain ⟨⟨locals, afterLocals⟩, placed, computed⟩ := Except.bind_eq_ok.mp computed
  obtain ⟨locals_laid, rfl⟩ := placeLocals_eq_ok aligned placed
  obtain ⟨values_laid, last⟩ := @placeValues_eq target (definedIds ir.operations)
    (8 * indirect.toNat + 8 * ir.params.length + (copyWidths ir.typeLayouts ir.params).sum +
      (ir.locals.map (·.sizeBytes.toNat)).sum)
  cases Except.pure_eq_ok.mp computed
  refine ⟨?_, ?_, fun id => isSome_lookup_placeValues _⟩
  · rw [StackLayout.slots, frameWidths, hidden, List.replicate_add]
    simp only [pack_append, List.map_append, hidden_laid, List.map_map, List.sum_append,
      List.sum_replicate_nat, Nat.zero_add, Nat.mul_comm _ 8]
    rw [← copies_laid, ← locals_laid, ← values_laid, ← params_laid]
    rfl
  · rw [last, frameWidths, hidden]
    simp only [List.sum_append, List.sum_replicate_nat]
    ring_nf

/-! ### When frames are sound -/

section Sound

variable {target : NativeTarget} {ir : LoweredFunctionIr} {layout : StackLayout}

theorem dvd_frameWidths (aligned : ∀ l ∈ ir.locals, 8 ∣ l.sizeBytes.toNat) :
    ∀ width ∈ frameWidths ir, 8 ∣ width := by
  intro width listed
  simp only [frameWidths, List.mem_append, List.mem_replicate, List.mem_map] at listed
  rcases listed with ((⟨-, rfl⟩ | copied) | ⟨l, mem, rfl⟩) | ⟨-, rfl⟩
  · exact Nat.dvd_refl 8
  · obtain ⟨param, -, rfl⟩ := List.mem_map.mp copied
    rw [copyWidth]
    split
    · exact dvd_roundUp ..
    · exact Nat.dvd_zero _
  · exact aligned l mem
  · exact Nat.dvd_refl 8

/-- The slots of a sound frame fit in it, so their sizes stay below the limit. -/
theorem StackLayout.Sound.small (sound : layout.Sound target ir)
    (rounded : ∃ word, layout.stackSize = target.roundFrame word)
    (widths : (layout.slots target ir).map Extent.width = frameWidths ir) :
    roundUp (frameWidths ir).sum 16 < target.sizeLimit := by
  have room := Extent.sum_width_le sound.apart sound.inside
  have span : target.high (target.number layout.stackSize) -
      target.low (target.number layout.stackSize) = target.number layout.stackSize := by
    cases target <;> simp [NativeTarget.high, NativeTarget.low]
  rw [widths, span] at room
  obtain ⟨word, size⟩ := rounded
  have limit : target.number layout.stackSize < target.sizeLimit := NativeTarget.number_lt _
  have sixteens : 16 ∣ target.number layout.stackSize := by
    rw [size]
    exact NativeTarget.dvd_number_roundFrame word
  have positive : 0 < target.sizeLimit := by cases target <;> decide
  rw [roundUp]
  omega

/-- The slots of a function that fits are where they should be. -/
theorem FrameFits.sound (fits : FrameFits target ir)
    (aligned : ∀ l ∈ ir.locals, 8 ∣ l.sizeBytes.toNat)
    (slots : layout.slots target ir = (pack 0 (frameWidths ir)).map target.laid)
    (size : layout.stackSize = target.roundFrame (.ofNat 32 (frameWidths ir).sum))
    (values : ∀ id, (layout.valueOffsets.lookup id).isSome ↔ id ∈ definedIds ir.operations)
    (used : ∀ id ∈ usedIds ir.operations, id ∈ definedIds ir.operations) :
    layout.Sound target ir := by
  have eighths := dvd_frameWidths aligned
  have total : 8 ∣ (frameWidths ir).sum := List.dvd_sum eighths
  have most : (frameWidths ir).sum ≤ roundUp (frameWidths ir).sum 16 := le_roundUp (by decide)
  have within : ∀ slot ∈ pack 0 (frameWidths ir), slot.Within 0 (frameWidths ir).sum := by
    intro slot listed
    simpa using within_of_mem_pack listed
  -- the frame is small, so 32 bits hold every offset and the slots are the packed ones
  have exactSlots : layout.slots target ir = (pack 0 (frameWidths ir)).map target.orient := by
    rw [slots]
    apply List.map_congr_left
    intro slot listed
    exact NativeTarget.laid_eq_orient (within slot listed) (most.trans_lt fits.small)
  have exactSize : target.number layout.stackSize = roundUp (frameWidths ir).sum 16 := by
    rw [size, NativeTarget.number_roundFrame total fits.small]
  refine ⟨?_, ?_, ?_, fits.wide, ?_, exactSlots, exactSize⟩
  · rw [exactSlots, List.pairwise_map]
    refine (pairwise_apart_pack _ _).imp ?_
    intro a b apart
    cases target with
    | x86_64 => exact apart.reflect
    | arm64 => exact apart
  · intro slot listed
    rw [exactSlots] at listed
    obtain ⟨above, mem, rfl⟩ := List.mem_map.mp listed
    -- x86-64 counts downwards from the frame pointer: a slot starts where its mirror ends
    have start : 8 ∣ above.start := dvd_start_of_mem_pack (Nat.dvd_zero 8) eighths mem
    cases target with
    | x86_64 =>
      have width : (8 : Int) ∣ above.width :=
        Int.natCast_dvd_natCast.mpr (eighths _ (width_mem_of_mem_pack mem))
      exact Int.dvd_neg.mpr (Int.dvd_add start width)
    | arm64 => exact start
  · intro slot listed
    rw [exactSlots] at listed
    obtain ⟨above, mem, rfl⟩ := List.mem_map.mp listed
    have inside : above.Within 0 (roundUp (frameWidths ir).sum 16) :=
      ⟨(within above mem).1, (within above mem).2.trans (Int.ofNat_le.mpr most)⟩
    rw [exactSize]
    cases target with
    | x86_64 =>
      have mirrored := inside.reflect
      rw [Int.neg_zero] at mirrored
      exact mirrored
    | arm64 => exact inside
  · intro id listed
    rw [values]
    exact (List.mem_append.mp listed).elim (used id) (fits.results id)

/-- What the backend checks of a function, for its frame. -/
theorem validateNativeIr_eq_ok {P : Primitives} {registers : Nat}
    (accepted : validateNativeIr P ir registers = .ok ()) :
    (∀ l ∈ ir.locals, 8 ∣ l.sizeBytes.toNat) ∧
      ∀ id ∈ usedIds ir.operations, id ∈ definedIds ir.operations := by
  rw [validateNativeIr] at accepted
  obtain ⟨layouts, _, accepted⟩ := Except.bind_eq_ok.mp accepted
  obtain ⟨_, _, accepted⟩ := Except.bind_eq_ok.mp accepted
  obtain ⟨indirect, _, accepted⟩ := Except.bind_eq_ok.mp accepted
  obtain ⟨_, _, accepted⟩ := Except.bind_eq_ok.mp accepted
  obtain ⟨_, _, accepted⟩ := Except.bind_eq_ok.mp accepted
  obtain ⟨_, sized, accepted⟩ := Except.bind_eq_ok.mp accepted
  obtain ⟨⟨_, flow⟩, passed, _⟩ := Except.bind_eq_ok.mp accepted
  constructor
  · intro l listed
    have checked := bailIf_eq_ok.mp (Except.forM_eq_ok.mp sized l listed)
    rw [Bool.or_eq_false_iff, bne_eq_false_iff_eq] at checked
    have whole := congrArg UInt64.toNat checked.2
    rw [UInt64.toNat_mod] at whole
    exact Nat.dvd_of_mod_eq_zero whole
  · intro id used
    rcases (uses_validateNativeOps ir.operations _ _ _ passed).1 id used with known | defined
    · rcases known with value | address
      · cases value
      · cases address
    · exact defined

/-- On each target, the slots of a function that the backend accepts do not overlap and its
values have slots if and only if its frame fits. -/
theorem compileStackLayout_sound_iff (P : Primitives) (target : NativeTarget)
    (ir : LoweredFunctionIr) (layout : StackLayout)
    (accepted : validateNativeIr P ir target.nativeMaxMachineParams = .ok ())
    (compiled : compileStackLayout ir target = .ok layout) :
    layout.Sound target ir ↔ FrameFits target ir := by
  obtain ⟨aligned, used⟩ := validateNativeIr_eq_ok accepted
  obtain ⟨slots, size, values⟩ := stackLayout_eq_ok aligned (compileStackLayout_eq_ok compiled)
  constructor
  · intro sound
    refine ⟨sound.small ⟨_, size⟩ ?_, sound.wide, ?_⟩
    · rw [slots, List.map_map]
      exact map_width_pack 0 (frameWidths ir)
    · intro id result
      exact (values id).mp (sound.valueSlots id (List.mem_append_right _ result))
  · exact fun fits => fits.sound aligned slots size values used

end Sound

/-! ### A frame that wraps around -/

/-- A function with some locals that returns a constant. -/
def constantFunction (locals : List LoweredLocalSlot) : LoweredFunctionIr where
  schema := "codedb/lowered-function-ir/v2"
  symbolHash := "symbol"
  functionDefHash := "definition"
  functionSigHash := "signature"
  typedBodyExprHash := "body"
  params := []
  locals
  returnTypeHash := "word"
  typeLayouts := [⟨"word", "scalar", 8, 8, ⟨"by_value", "by_value"⟩, .object []⟩,
    ⟨"bytes", "fixed_array", 1073741824, 1, ⟨"by_indirect", "hidden_return_slot"⟩, .object []⟩]
  operations := [.constI64 "v0" "0" "word", .return_ "v0" "word"]
  debugMap := ⟨"codedb/lowered-debug-map/v1", [], []⟩

theorem validateNativeIr_constantFunction (registers : Nat) {locals : List LoweredLocalSlot}
    (sized : ∀ l ∈ locals, (l.sizeBytes == 0 || l.sizeBytes % 8 != 0) = false) :
    validateNativeIr plain (constantFunction locals) registers = .ok () := by
  have supported : nativeSupportedType (constantFunction locals).typeLayouts plain "word" =
      .ok () := nativeSupportedType_of_layout _ rfl (by decide)
  have checked : (validateNativeOps plain [] locals (constantFunction locals).typeLayouts
      (constantFunction locals).operations).run ⟨[], []⟩ = .ok ((), ⟨[("v0", "word")], []⟩) := by
    refine StateT.run_lift_bind_eq_ok.mpr ⟨(), supported, ?_⟩
    refine StateT.run_bind_eq_ok.mpr ⟨(), ⟨[("v0", "word")], []⟩, rfl, ?_⟩
    refine StateT.run_bind_eq_ok.mpr ⟨(), ⟨[("v0", "word")], []⟩, rfl, ?_⟩
    refine StateT.run_lift_bind_eq_ok.mpr ⟨(), supported, ?_⟩
    refine StateT.run_bind_eq_ok.mpr ⟨(), ⟨[("v0", "word")], []⟩, rfl, ?_⟩
    exact StateT.run_bind_eq_ok.mpr ⟨(), ⟨[("v0", "word")], []⟩, rfl, rfl⟩
  rw [validateNativeIr]
  refine Except.bind_eq_ok.mpr ⟨(constantFunction locals).typeLayouts, rfl, ?_⟩
  refine Except.bind_eq_ok.mpr ⟨(), supported, ?_⟩
  refine Except.bind_eq_ok.mpr ⟨false, rfl, ?_⟩
  refine Except.bind_eq_ok.mpr ⟨(), bailIf_eq_ok.mpr (decide_eq_false (Nat.not_lt_zero _)), ?_⟩
  refine Except.bind_eq_ok.mpr ⟨(), rfl, ?_⟩
  refine Except.bind_eq_ok.mpr ⟨(), Except.forM_eq_ok.mpr fun l listed =>
    bailIf_eq_ok.mpr (sized l listed), ?_⟩
  exact Except.bind_eq_ok.mpr ⟨_, checked, rfl⟩

/-- Four locals of a gigabyte each. -/
def fourGigabytes : LoweredFunctionIr :=
  constantFunction [⟨0, "bytes", 1073741824⟩, ⟨1, "bytes", 1073741824⟩, ⟨2, "bytes", 1073741824⟩,
    ⟨3, "bytes", 1073741824⟩]

/-- They add up to nothing, so on each target the value is in the first local. -/
theorem compileStackLayout_overlaps :
    (validateNativeIr plain fourGigabytes 6 = .ok () ∧
      ∃ layout, compileStackLayout fourGigabytes .x86_64 = .ok layout ∧
        ¬ layout.Sound .x86_64 fourGigabytes) ∧
    (validateNativeIr plain fourGigabytes 8 = .ok () ∧
      ∃ layout, compileStackLayout fourGigabytes .arm64 = .ok layout ∧
        ¬ layout.Sound .arm64 fourGigabytes) := by
  refine ⟨⟨validateNativeIr_constantFunction 6 (by decide), _, rfl, ?_⟩,
    validateNativeIr_constantFunction 8 (by decide), _, rfl, ?_⟩
  · intro sound
    exact absurd sound.apart (by decide)
  · intro sound
    exact absurd sound.apart (by decide)

/-- A function with one local of a word. -/
def oneWord : LoweredFunctionIr := constantFunction [⟨0, "word", 8⟩]

theorem compileStackLayout_sound_iff_oneWord :
    ∃ layout, compileStackLayout oneWord .arm64 = .ok layout ∧ layout.Sound .arm64 oneWord := by
  refine ⟨_, rfl, (compileStackLayout_sound_iff plain .arm64 oneWord _
    (validateNativeIr_constantFunction 8 (by decide)) rfl).mpr ⟨by decide, ?_, by decide⟩⟩
  intro l listed layout found
  obtain rfl := List.mem_singleton.mp listed
  cases found
  decide

end CodeDb

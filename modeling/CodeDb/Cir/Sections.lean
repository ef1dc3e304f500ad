import CodeDb.Cir.Transfer
import CodeDb.Store.ReadBack

/-!
# The sections of functions

The section of a function is read as the function is, except for the metadata of its layouts:
these are kept as their canonical text, and what the reader of JSON makes of it is read. The
tables of a function are written with what comes last, and read first.

## Main definitions

* `readBackFunction` — what is read of the section of a function

## Main results

* `decodeFunction_encodeFunction` — the section of a function
-/

namespace CodeDb

namespace Cir

open Binary (Reads)

variable (P : Primitives)

/-! ### What comes back -/

/-- What is read of a layout, given that its columns are written. -/
def readBackLayout (layout : LoweredTypeLayout) : Except Error LoweredTypeLayout := do
  let metadata ← parseMetadata P (canonicalJson P.floatText layout.metadata)
  let read := { layout with metadata }
  match bufferColumns layout with
  | .ok stored =>
    if stored ≠ (← bufferColumns read) then
      throw ("CIR buffer consumer columns are inconsistent for " ++ layout.typeHash)
    return read
  | .error _ => return read

/-- What is read of a function. -/
def readBackFunction (ir : LoweredFunctionIr) : Except Error LoweredFunctionIr := do
  let typeLayouts ← ir.typeLayouts.mapM (readBackLayout P)
  return { ir with typeLayouts }

variable {P}

/-- Nothing of a layout changes but its metadata. -/
theorem readBackLayout_eq_ok {layout read : LoweredTypeLayout}
    (back : readBackLayout P layout = .ok read) :
    ∃ metadata, P.Reads layout.metadata metadata ∧ read = { layout with metadata } := by
  obtain ⟨metadata, parsed, rest⟩ := Except.bind_eq_ok.mp back
  refine ⟨metadata, ?_, ?_⟩
  · rw [parseMetadata] at parsed
    split at parsed
    next found =>
      cases parsed
      exact found
    next => cases parsed
  · split at rest
    next =>
      obtain ⟨columns, -, rest⟩ := Except.bind_eq_ok.mp rest
      split at rest
      next => cases rest
      next =>
        cases rest
        rfl
    next =>
      cases rest
      rfl

/-- A layout comes back iff its metadata does. -/
theorem readBackLayout_eq_self {layout : LoweredTypeLayout} :
    readBackLayout P layout = .ok layout ↔ P.Reads layout.metadata layout.metadata := by
  constructor
  · intro back
    obtain ⟨metadata, reads, same⟩ := readBackLayout_eq_ok back
    have kept : layout.metadata = metadata := congrArg LoweredTypeLayout.metadata same
    rwa [← kept] at reads
  · intro reads
    have parsed : parseMetadata P (canonicalJson P.floatText layout.metadata) =
        .ok layout.metadata := by
      rw [parseMetadata, reads]
    rw [readBackLayout, parsed]
    change (match bufferColumns layout with | .ok stored => _ | .error _ => _) = _
    cases columns : bufferColumns layout with
    | error err => rfl
    | ok stored => exact if_neg (not_not_intro rfl)

/-! ### The head -/

theorem length_bufferColumns {layout : LoweredTypeLayout} {columns : List UInt64}
    (found : bufferColumns layout = .ok columns) : columns.length = 5 := by
  rw [bufferColumns] at found
  split at found
  next =>
    cases found
    rfl
  next => exact (Except.mapM_eq_ok.mp found).length_eq.symm

/-- The layout at the index of a type is of the type. -/
theorem layoutIndex_eq_some {layouts : List LoweredTypeLayout} {typeHash : Hash} {i : Nat}
    (found : layoutIndex layouts typeHash = some i) :
    ∃ layout, layouts[i]? = some layout ∧ layout.typeHash = typeHash := by
  obtain ⟨⟨layout, j⟩, hit, rfl⟩ := Option.map_eq_some_iff.mp found
  have listed : (layout, j) ∈ layouts.zipIdx := List.mem_reverse.mp (List.mem_of_find?_eq_some hit)
  have same : layout.typeHash = typeHash := by simpa using List.find?_some hit
  exact ⟨layout, List.mem_zipIdx_iff_getElem?.mp listed, same⟩

/-- Reading back keeps what the columns of a type follow from. -/
theorem typeMetaColumns_readBack {typeHash : Hash} {layout read : LoweredTypeLayout}
    (back : readBackLayout P layout = .ok read) :
    typeMetaColumns P typeHash (some read) = typeMetaColumns P typeHash (some layout) := by
  obtain ⟨metadata, -, rfl⟩ := readBackLayout_eq_ok back
  unfold typeMetaColumns
  cases scalarTypeMeta P typeHash <;> rfl

/-- The link of a type leads to its layout, as it is read. -/
theorem linkedLayout_layoutIndex {layouts read : List LoweredTypeLayout} (typeHash : Hash)
    {layoutRef : UInt32} (few : layouts.length < 2 ^ 32)
    (back : List.Forall₂ (fun layout read => readBackLayout P layout = .ok read) layouts read)
    (link : layoutRef = ((layoutIndex layouts typeHash).map UInt32.ofNat).getD noLayout) :
    ∃ linked, linkedLayout read typeHash layoutRef = .ok linked ∧
      typeMetaColumns P typeHash linked = typeMetaColumns P typeHash
        (if layoutRef = noLayout then none else layouts[layoutRef.toNat]?) := by
  cases found : layoutIndex layouts typeHash with
  | none =>
    have none_ : layoutRef = noLayout := by rw [link, found]; rfl
    exact ⟨none, if_pos none_, by rw [if_pos none_]⟩
  | some i =>
    obtain ⟨layout, at_index, same⟩ := layoutIndex_eq_some found
    obtain ⟨inside, -⟩ := List.getElem?_eq_some_iff.mp at_index
    have index : layoutRef.toNat = i := by
      rw [link, found]
      exact UInt32.toNat_ofNat_of_lt' (inside.trans few)
    -- no index is as large as the one that stands for no layout
    have linked : layoutRef ≠ noLayout := by
      intro none_
      have large : layoutRef.toNat = 2 ^ 32 - 1 := by rw [none_]; rfl
      omega
    have inside' : i < read.length := back.length_eq ▸ inside
    have here := back.get inside inside'
    have there : layouts.get ⟨i, inside⟩ = layout :=
      Option.some.inj ((List.getElem?_eq_getElem inside).symm.trans at_index)
    have kept : (read.get ⟨i, inside'⟩).typeHash = typeHash := by
      obtain ⟨metadata, -, eq⟩ := readBackLayout_eq_ok here
      rw [eq]
      exact (congrArg LoweredTypeLayout.typeHash there).trans same
    refine ⟨some (read.get ⟨i, inside'⟩), ?_, ?_⟩
    · rw [linkedLayout, if_neg linked, index, List.getElem?_eq_getElem inside']
      exact if_neg (not_not_intro kept)
    · rw [if_neg linked, index, List.getElem?_eq_getElem inside]
      exact typeMetaColumns_readBack here

namespace Transfers

variable {fnIndex : List Hash}

/-- A layout comes back but for its metadata. -/
theorem layout (layout : LoweredTypeLayout) :
    Transfers fnIndex (encodeLayout P layout) (fun D _ => rlayout P D)
      (readBackLayout P layout) := by
  refine (str layout.typeHash).seq ?_
  refine (str layout.kind).seq ?_
  refine (Transfers.u64 layout.sizeBytes).seq ?_
  refine (Transfers.u64 layout.alignBytes).seq ?_
  refine (str layout.abi.pass).seq ?_
  refine (str layout.abi.return_).seq ?_
  refine (str (canonicalJson P.floatText layout.metadata)).seq ?_
  refine check fun columns found => ?_
  have kept : Transfers fnIndex (writeAll writeU64 columns)
      (fun _ _ => Binary.times columns.length Cir.u64) (.ok columns) := all Transfers.u64 columns
  refine compute kept.writes fun metadata _ => ?_
  rw [length_bufferColumns found] at kept
  rw [found]
  refine kept.ends fun _ _ => ?_
  refine Reads.compute fun read _ => ?_
  split
  next => exact Reads.lift (.error _)
  next => exact Reads.pure _

/-- A row of the type table comes back, whatever the metadata of layouts is read as. -/
theorem typeRow {layouts read : List LoweredTypeLayout} (typeHash : Hash)
    (few : layouts.length < 2 ^ 32)
    (back : List.Forall₂ (fun layout read => readBackLayout P layout = .ok read) layouts read) :
    Transfers fnIndex (encodeTypeRow P layouts typeHash) (fun D _ => rtypeRow P D read)
      (.ok typeHash) := by
  obtain ⟨linked, followed, columns⟩ := linkedLayout_layoutIndex typeHash few back rfl
  refine (str typeHash).seq ?_
  refine (Transfers.u32 _).seq ?_
  refine computed followed ?_
  refine (Transfers.u8 _).seq ?_
  refine (Transfers.u64 _).last fun _ _ => ?_
  rw [columns]
  exact if_neg (not_not_intro rfl)

end Transfers

theorem writes_typeRow (layouts : List LoweredTypeLayout) (typeHash : Hash) :
    Writes (encodeTypeRow P layouts typeHash) := by
  have row := fun (layoutRef : UInt32) (columns : UInt8 × UInt64) =>
    (@Transfers.str [] typeHash).writes.seq
      ((@Transfers.u32 [] layoutRef).writes.seq
        ((@Transfers.u8 [] columns.1).writes.seq
          (@Transfers.u64 [] columns.2).writes))
  exact row _ _

/-- What is read of the head of a function. -/
def readBackHead (P : Primitives) (ir : LoweredFunctionIr) (tables : FnTables) :
    Except Error Head := do
  let typeLayouts ← ir.typeLayouts.mapM (readBackLayout P)
  return { ir with typeLayouts, types := tables.types.entries, values := tables.values.entries }

namespace Transfers

theorem head (ir : LoweredFunctionIr) (tables : FnTables) :
    Transfers fnIndex (encodeHead P ir tables) (fun D _ => rhead P D)
      (readBackHead P ir tables) := by
  refine (str ir.schema).seq ?_
  refine (str ir.symbolHash).seq ?_
  refine (str ir.functionDefHash).seq ?_
  refine (str ir.functionSigHash).seq ?_
  refine (str ir.typedBodyExprHash).seq ?_
  refine count fun few => ?_
  have values := all (@str fnIndex) tables.values.entries
  refine (each ir.typeLayouts fun l _ => layout l).bind ?_ fun read back => ?_
  · exact (@usize fnIndex _ _).writes.seq
      ((Writes.all (writes_typeRow _) _).seq
        ((@usize fnIndex _ _).writes.seq values.writes))
  · replace back := Except.mapM_eq_ok.mp back
    refine (usize _ _).seq ?_
    refine (all (fun typeHash => typeRow typeHash few back) _).seq ?_
    refine (usize _ _).seq ?_
    exact values.last fun _ _ => rfl

/-! ### What refers to the tables -/

theorem debugMap (debug : LoweredDebugMap) :
    Transfers fnIndex (encodeDebugMap debug) (fun D _ => rdebugMap D) (.ok debug) := by
  have op (op : LoweredDebugOp) : Transfers fnIndex
      (do
        writeStr op.loweredOpId
        writeStr op.valueId
        writeStr op.loweredOpKind
        writeStr op.exprHash)
      (fun D _ => rdebugOp D) (.ok op) := by
    refine (str op.loweredOpId).seq ?_
    refine (str op.valueId).seq ?_
    refine (str op.loweredOpKind).seq ?_
    exact (str op.exprHash).last fun _ _ => rfl
  have opMap (entry : LoweredExprOpMap) : Transfers fnIndex
      (do
        writeStr entry.exprHash
        writeUsizeU32 entry.loweredOpIds.length "debug expr op-id count"
        writeAll writeStr entry.loweredOpIds)
      (fun D _ => rexprOpMap D) (.ok entry) := by
    refine (str entry.exprHash).seq ?_
    refine (usize _ _).seq ?_
    exact (all str _).last fun _ _ => rfl
  refine (str debug.schema).seq ?_
  refine (usize _ _).seq ?_
  refine (all op _).seq ?_
  refine (usize _ _).seq ?_
  exact (all opMap _).last fun _ _ => rfl

/-- The slots of rows are checked when they are read. -/
theorem slot (what index : String) (slot : Nat) :
    Transfers fnIndex (writeUsizeU32 slot what) (fun _ _ => rslot index slot) (.ok slot) :=
  (usize slot what).last fun _ _ => if_neg (not_not_intro rfl)

/-- Rows that are dense are read one after the other. -/
theorem tail (few : fnIndex.length ≤ 2 ^ 32) (ir : LoweredFunctionIr)
    (params : ir.params.map (·.slot) = List.range ir.params.length)
    (locals : ir.locals.map (·.slot) = List.range ir.locals.length) :
    Transfers fnIndex (encodeTail fnIndex ir) (fun D depth => rtail D depth)
      (.ok { ir with }) := by
  have param (param : LoweredParamSlot) : Transfers fnIndex
      (do
        writeUsizeU32 param.slot "param slot"
        writeTref param.typeHash)
      (fun D _ => rparam D param.slot) (.ok param) := by
    refine (slot _ _ param.slot).seq ?_
    exact (tref param.typeHash).last fun _ _ => rfl
  have local_ (row : LoweredLocalSlot) : Transfers fnIndex
      (do
        writeUsizeU32 row.slot "local slot"
        writeTref row.typeHash
        writeU64 row.sizeBytes)
      (fun D _ => rlocal D row.slot) (.ok row) := by
    refine (slot _ _ row.slot).seq ?_
    refine (tref row.typeHash).seq ?_
    exact (Transfers.u64 row.sizeBytes).last fun _ _ => rfl
  refine (tref ir.returnTypeHash).seq ?_
  refine (usize _ _).seq ?_
  rw [List.range_eq_range'] at params locals
  simp only [List.range_eq_range']
  refine (rows param _ params).seq ?_
  refine (usize _ _).seq ?_
  refine (rows local_ _ locals).seq ?_
  refine (usize _ _).seq ?_
  refine (transfers_ops few ir.operations).seq ?_
  exact (debugMap ir.debugMap).last fun _ _ => rfl

end Transfers

/-! ### Functions -/

/-- Slots that are dense are the indices of their rows. -/
theorem checkDense_eq_ok {what : String} {slots : List Nat}
    (dense : checkDense what slots = .ok ()) : slots = List.range slots.length := by
  rw [checkDense] at dense
  split at dense
  next => cases dense
  next none_ =>
    refine List.ext_getElem (by rw [List.length_range]) fun i inside _ => ?_
    have listed : (slots[i], i) ∈ slots.zipIdx :=
      List.mem_zipIdx_iff_getElem?.mpr (List.getElem?_eq_getElem inside)
    have same := List.find?_eq_none.mp none_ _ listed
    rw [List.getElem_range]
    simpa using same

/-- The pools of a function grow, and whatever they grow to, its section is read as the function
is read back. -/
theorem decodeFunction_encodeFunction {fnIndex : List Hash} {pools pools' : Pools}
    {ir : LoweredFunctionIr} {section_ : List UInt8} (few : fnIndex.length ≤ 2 ^ 32)
    (encoded : encodeFunction P fnIndex pools ir = .ok (section_, pools')) :
    pools.strings.entries <+: pools'.strings.entries ∧
    pools.data.entries <+: pools'.data.entries ∧
    ∀ strings data, pools'.strings.entries <+: strings → pools'.data.entries <+: data →
      decodeFunction P strings data fnIndex section_ = readBackFunction P ir := by
  obtain ⟨⟨⟩, params, encoded⟩ := Except.bind_eq_ok.mp encoded
  obtain ⟨⟨⟩, locals, encoded⟩ := Except.bind_eq_ok.mp encoded
  obtain ⟨⟨⟨⟩, tail⟩, tailRun, encoded⟩ := Except.bind_eq_ok.mp encoded
  obtain ⟨⟨⟨⟩, head⟩, headRun, encoded⟩ := Except.bind_eq_ok.mp encoded
  cases encoded
  have params := checkDense_eq_ok params
  have locals := checkDense_eq_ok locals
  rw [List.length_map] at params locals
  obtain ⟨tailBytes, tailGrows, tailReads⟩ :=
    Transfers.tail few ir params locals _ _ tailRun
  obtain ⟨headBytes, headGrows, headReads⟩ :=
    @Transfers.head P fnIndex ir tail.tables _ _ headRun
  refine ⟨tailGrows.strings.trans headGrows.strings, tailGrows.data.trans headGrows.data,
    fun strings data moreStrings moreData => ?_⟩
  rw [tailGrows.out, headGrows.out, List.nil_append, List.nil_append, decodeFunction]
  -- the head refers to the pools only
  have headRead : Reads (rhead P ⟨strings, data, fnIndex, [], []⟩) headBytes
      (readBackHead P ir tail.tables) :=
    headReads ⟨strings, data, fnIndex, head.tables.types.entries, head.tables.values.entries⟩
      ⟨moreStrings, moreData, List.prefix_refl _, List.prefix_refl _, rfl⟩ _ (Nat.le_refl _)
  have tailRead (depth : Nat) (enough : tailBytes.length ≤ depth) : Reads
      (rtail ⟨strings, data, fnIndex, tail.tables.types.entries, tail.tables.values.entries⟩ depth)
      tailBytes (.ok { ir with }) :=
    tailReads _ ⟨headGrows.strings.trans moreStrings, headGrows.data.trans moreData,
      List.prefix_refl _, List.prefix_refl _, rfl⟩ depth enough
  have read : Reads
      (rfunction P ⟨strings, data, fnIndex, [], []⟩ (headBytes ++ tailBytes).length)
      (headBytes ++ tailBytes)
      (readBackHead P ir tail.tables >>= fun head => .ok { head, ir with }) := by
    refine headRead.bind fun head back => ?_
    obtain ⟨layouts, -, built⟩ := Except.bind_eq_ok.mp back
    cases built
    exact (tailRead _ (by rw [List.length_append]; omega)).last rfl
  have ran := read [] []
  simp only [List.nil_append, List.append_nil, List.length_nil, Nat.zero_add] at ran
  rw [ran, readBackHead, readBackFunction]
  cases ir.typeLayouts.mapM (readBackLayout P) with
  | error err => rfl
  | ok layouts => exact if_neg (not_not_intro rfl)

/-- The sections of functions are read as the functions are read back. -/
theorem decodeFunction_encodeFunctions {fnIndex : List Hash} {pools pools' : Pools}
    {functions : List LoweredFunctionIr} {sections : List (List UInt8)}
    (few : fnIndex.length ≤ 2 ^ 32)
    (encoded : encodeFunctions P fnIndex pools functions = .ok (sections, pools')) :
    pools.strings.entries <+: pools'.strings.entries ∧
    pools.data.entries <+: pools'.data.entries ∧
    ∀ strings data, pools'.strings.entries <+: strings → pools'.data.entries <+: data →
      List.Forall₂ (fun ir section_ =>
        decodeFunction P strings data fnIndex section_ = readBackFunction P ir)
        functions sections := by
  induction functions generalizing pools sections with
  | nil =>
    cases encoded
    exact ⟨List.prefix_refl _, List.prefix_refl _, fun _ _ _ _ => .nil⟩
  | cons ir functions ih =>
    obtain ⟨⟨section_, mid⟩, first, encoded⟩ := Except.bind_eq_ok.mp encoded
    obtain ⟨⟨rest, last⟩, others, encoded⟩ := Except.bind_eq_ok.mp encoded
    cases encoded
    obtain ⟨strings, data, reads⟩ := decodeFunction_encodeFunction few first
    obtain ⟨strings', data', reads'⟩ := ih others
    exact ⟨strings.trans strings', data.trans data', fun s d moreStrings moreData =>
      .cons (reads s d (strings'.trans moreStrings) (data'.trans moreData))
        (reads' s d moreStrings moreData)⟩

end Cir

end CodeDb

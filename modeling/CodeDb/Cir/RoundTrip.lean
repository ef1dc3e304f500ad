import CodeDb.Cir.Sections
import CodeDb.Store.JsonReader

/-!
# The round trip of a program

A program that is encoded is decoded again, as far as the metadata of its layouts is read back
from its text. It is decoded from all bytes of a file: the header says how many there are.

## Main results

* `decodeCir_encodeCir` — what is decoded of what is encoded
* `Sized.eq_nil` — a file is as long as its header says
* `decodeCir_roundTrip` — when the round trip succeeds
-/

namespace CodeDb

namespace Cir

open Binary (Reads Stable)

variable {P : Primitives}

/-! ### The header -/

/-- An entry of a table is found as the table grows. -/
theorem getElem?_of_longer {α : Type} {l l' : List α} {i : Nat} {a : α} (longer : l <+: l')
    (found : l[i]? = some a) : l'[i]? = some a := by
  obtain ⟨more, rfl⟩ := longer
  obtain ⟨inside, -⟩ := List.getElem?_eq_some_iff.mp found
  rwa [List.getElem?_append_left inside]

theorem lengthField_eq_ok {value : Nat} {what : String} {field : List UInt8}
    (encoded : lengthField value what = .ok field) :
    value < 2 ^ 32 ∧ field = Binary.leBytes 4 value := by
  rw [lengthField] at encoded
  split at encoded
  next small =>
    cases encoded
    exact ⟨small, rfl⟩
  next => cases encoded

/-- The lengths of entries fit. -/
theorem lengthFields_eq_ok {what : String} {entries lens : List (List UInt8)}
    (encoded : entries.mapM (fun entry => lengthField entry.length what) = .ok lens) :
    (∀ entry ∈ entries, entry.length < 2 ^ 32) ∧
    lens.flatten = entries.flatMap fun entry => Binary.leBytes 4 entry.length := by
  have parts := Except.mapM_eq_ok.mp encoded
  clear encoded
  induction parts with
  | nil => exact ⟨fun _ listed => (List.not_mem_nil listed).elim, rfl⟩
  | cons part _ ih =>
    obtain ⟨small, rfl⟩ := lengthField_eq_ok part
    obtain ⟨smalls, same⟩ := ih
    rw [List.flatten_cons, List.flatMap_cons, same]
    exact ⟨List.forall_mem_cons.mpr ⟨small, smalls⟩, rfl⟩

/-- A pool is read entry by entry. -/
theorem reads_rpool {α : Type} {count len : String} {write : α → List UInt8}
    {convert : List UInt8 → Except Error α} {entries : List α} {bytes : List UInt8}
    (converts : ∀ a, convert (write a) = .ok a)
    (encoded : encodePool count len (entries.map write) = .ok bytes) :
    Reads (rpool convert) bytes (.ok entries) := by
  obtain ⟨total, counted, encoded⟩ := Except.bind_eq_ok.mp encoded
  obtain ⟨lens, measured, encoded⟩ := Except.bind_eq_ok.mp encoded
  cases encoded
  obtain ⟨few, rfl⟩ := lengthField_eq_ok counted
  obtain ⟨small, lens_eq⟩ := lengthFields_eq_ok measured
  rw [lens_eq, List.append_assoc]
  have lensRead : Reads (Binary.times (entries.map write).length rusize)
      ((entries.map write).flatMap fun entry => Binary.leBytes 4 entry.length)
      (.ok ((entries.map write).map List.length)) := by
    rw [← Except.mapM_ok]
    exact Reads.times _ fun entry listed => reads_usize (small entry listed)
  have entriesRead : Reads
      (((entries.map write).map List.length).mapM fun len => do convert (← take len))
      (entries.map write).flatten (.ok entries) := by
    have each : Reads ((entries.map fun a => (write a).length).mapM fun len => do
        convert (← take len)) (entries.flatMap write) (.ok (entries.map id)) :=
      Reads.mapM entries fun a _ => (Reads.take _ (write a)).last (by rw [converts]; rfl)
    rw [List.map_id, List.flatMap_def] at each
    rw [List.map_map]
    exact each
  refine (reads_usize few).seq ?_
  exact lensRead.seq entriesRead

/-- A string that the header refers to is read. -/
theorem reads_rheaderStr {strings : List String} {index : UInt32} {value : String}
    (missing : Error) (found : strings[index.toNat]? = some value) :
    Reads (rheaderStr strings missing) (Binary.leBytes 4 index.toNat) (.ok value) :=
  (reads_u32 index).last (by rw [found])

/-- The rows of the function table: where sections are that stand one after the other. -/
def spansFrom (offset : Nat) : List (Hash × List UInt8) → List (Hash × Nat × Nat)
  | [] => []
  | (symbol, section_) :: rest =>
    (symbol, offset, section_.length) :: spansFrom (offset + section_.length) rest

/-- The strings that a pool starts with are found at their indices. -/
theorem internAll_eq_ok {strings strings' : Table String} {values : List String}
    {indices : List UInt32} (interned : internAll strings values = .ok (indices, strings')) :
    strings.entries <+: strings'.entries ∧
    List.Forall₂ (fun value index => strings'.entries[index.toNat]? = some value)
      values indices := by
  induction values generalizing strings indices with
  | nil =>
    cases interned
    exact ⟨List.prefix_refl _, .nil⟩
  | cons value values ih =>
    obtain ⟨⟨index, mid⟩, first, interned⟩ := Except.bind_eq_ok.mp interned
    obtain ⟨⟨rest, last⟩, others, interned⟩ := Except.bind_eq_ok.mp interned
    cases interned
    obtain ⟨longer, found⟩ := Table.intern_eq_ok first
    obtain ⟨longer', found'⟩ := ih others
    exact ⟨longer.trans longer', .cons (getElem?_of_longer longer' found) found'⟩

/-- The function table is read row by row. -/
theorem reads_spans {strings : List String} {symbols : List Hash} {refs : List UInt32}
    (found : List.Forall₂ (fun symbol index => strings[index.toNat]? = some symbol) symbols refs)
    {sections : List (List UInt8)} (each : symbols.length = sections.length) {offset : Nat}
    (small : offset < 2 ^ 32) {bytes : List UInt8}
    (encoded : encodeSpans offset (refs.zip sections) = .ok bytes) :
    Reads (Binary.times symbols.length (rspan strings)) bytes
      (.ok (spansFrom offset (symbols.zip sections))) := by
  induction found generalizing sections offset bytes with
  | nil =>
    cases encoded
    exact Reads.pure []
  | @cons symbol index symbols refs here _ ih =>
    cases sections with
    | nil => cases each
    | cons section_ sections =>
      obtain ⟨len, measured, encoded⟩ := Except.bind_eq_ok.mp encoded
      obtain ⟨fits, rfl⟩ := lengthField_eq_ok measured
      split at encoded
      next later =>
        obtain ⟨rows, rest, encoded⟩ := Except.bind_eq_ok.mp encoded
        cases encoded
        have row : Reads (rspan strings)
            (Binary.leBytes 4 index.toNat ++ (Binary.leBytes 4 offset ++
              Binary.leBytes 4 section_.length)) (.ok (symbol, offset, section_.length)) := by
          refine (reads_rheaderStr _ here).seq ?_
          refine (reads_usize small).seq ?_
          exact (reads_usize fits).last rfl
        rw [List.append_assoc (Binary.leBytes 4 index.toNat)]
        exact row.seq ((ih (Nat.succ.inj each) later rest).last rfl)
      next => cases encoded

theorem fromUtf8_utf8 (value : String) : fromUtf8 (utf8 value) = .ok value := by
  have valid : value.toByteArray.IsValidUTF8 := value.isValidUTF8
  have same : String.fromUTF8? ⟨(utf8 value).toArray⟩ = some value := by
    rw [String.fromUTF8?]
    exact (dif_pos valid).trans rfl
  rw [fromUtf8, same]

/-- The parts of an encoded program: the header is read, and the sections of the functions stand
behind it. -/
structure Encoded (P : Primitives) (target : String) (entryIndex : UInt32)
    (functions : List LoweredFunctionIr) (bytes front : List UInt8) (sections : List (List UInt8))
    (header : Header) : Prop where
  parts : bytes = front ++ sections.flatten
  reads : Reads rheader front (.ok header)
  target_eq : header.target = target
  entryIndex_eq : header.entryIndex = entryIndex
  spans_eq : header.spans = spansFrom 0 ((functions.map (·.symbolHash)).zip sections)
  decode : List.Forall₂ (fun ir section_ =>
    decodeFunction P header.strings header.data (functions.map (·.symbolHash)) section_ =
      readBackFunction P ir) functions sections

theorem encodeCir_parts {target : String} {entryIndex : UInt32}
    {functions : List LoweredFunctionIr} {bytes : List UInt8}
    (encoded : encodeCir P target entryIndex functions = .ok bytes) :
    ∃ front sections header, Encoded P target entryIndex functions bytes front sections header := by
  rw [encodeCir] at encoded
  split at encoded
  next => cases encoded
  next nonempty =>
  split at encoded
  next => cases encoded
  next inRange =>
  obtain ⟨⟨⟩, sorted, encoded⟩ := Except.bind_eq_ok.mp encoded
  obtain ⟨⟨targetRef, strings⟩, targetInterned, encoded⟩ := Except.bind_eq_ok.mp encoded
  obtain ⟨⟨symbolRefs, started⟩, symbolsInterned, encoded⟩ := Except.bind_eq_ok.mp encoded
  obtain ⟨⟨sections, pools⟩, functionsEncoded, encoded⟩ := Except.bind_eq_ok.mp encoded
  obtain ⟨stringPool, stringsEncoded, encoded⟩ := Except.bind_eq_ok.mp encoded
  obtain ⟨dataPool, dataEncoded, encoded⟩ := Except.bind_eq_ok.mp encoded
  obtain ⟨functionCount, counted, encoded⟩ := Except.bind_eq_ok.mp encoded
  obtain ⟨spans, spansEncoded, encoded⟩ := Except.bind_eq_ok.mp encoded
  cases encoded
  -- names interned for one function stay where they are when the next is encoded
  obtain ⟨few, rfl⟩ := lengthField_eq_ok counted
  obtain ⟨-, targetFound⟩ := Table.intern_eq_ok targetInterned
  obtain ⟨longer, symbolsFound⟩ := internAll_eq_ok symbolsInterned
  obtain ⟨longer', -, decode⟩ :=
    decodeFunction_encodeFunctions (by rw [List.length_map]; omega) functionsEncoded
  replace decode := decode _ _ (List.prefix_refl _) (List.prefix_refl _)
  have targetRead := getElem?_of_longer (longer.trans longer') targetFound
  have symbolsRead := symbolsFound.imp fun _ _ found => getElem?_of_longer longer' found
  have dataRead : Reads (rpool Except.ok) dataPool (.ok pools.data.entries) := by
    rw [← List.map_id pools.data.entries] at dataEncoded
    exact reads_rpool (fun _ => rfl) dataEncoded
  have spansRead := reads_spans symbolsRead
    (by rw [List.length_map]; exact decode.length_eq) (Nat.two_pow_pos 32) spansEncoded
  rw [List.length_map] at spansRead
  refine ⟨_, sections, ⟨pools.strings.entries, pools.data.entries, target, entryIndex, _⟩, rfl, ?_,
    rfl, rfl, rfl, decode⟩
  -- the header is read field by field, as it was written
  simp only [List.append_assoc]
  refine (Reads.take _ magic).seq (.pass (not_not_intro rfl) ?_)
  refine (reads_u32 version).seq (.pass (not_not_intro rfl) ?_)
  refine (reads_rpool fromUtf8_utf8 stringsEncoded).seq ?_
  refine dataRead.seq ?_
  refine (reads_rheaderStr _ targetRead).seq ?_
  refine (reads_u32 entryIndex).seq ?_
  refine (reads_usize few).seq (.pass ?_ (.pass inRange ?_))
  · intro none_
    exact nonempty (List.isEmpty_iff_length_eq_zero.mpr none_)
  · exact spansRead.last rfl

/-! ### Programs -/

/-- The symbols of the function table are those of the functions. -/
theorem map_spansFrom {symbols : List Hash} {sections : List (List UInt8)}
    (each : symbols.length = sections.length) (offset : Nat) :
    (spansFrom offset (symbols.zip sections)).map (·.1) = symbols := by
  induction symbols generalizing sections offset with
  | nil => rfl
  | cons symbol symbols ih =>
    cases sections with
    | nil => cases each
    | cons section_ sections =>
      rw [List.zip_cons_cons, spansFrom, List.map_cons, ih (Nat.succ.inj each)]

theorem readBackFunction_symbolHash {ir read : LoweredFunctionIr}
    (back : readBackFunction P ir = .ok read) : read.symbolHash = ir.symbolHash := by
  obtain ⟨layouts, -, built⟩ := Except.bind_eq_ok.mp back
  cases built
  rfl

/-- Sections that stand one after the other are decoded up to their end. -/
theorem decodeSections_spansFrom {header : Header} {front done : List UInt8}
    {functions : List LoweredFunctionIr} {sections : List (List UInt8)}
    (decode : List.Forall₂ (fun ir section_ =>
      decodeFunction P header.strings header.data (header.spans.map (·.1)) section_ =
        readBackFunction P ir) functions sections) :
    decodeSections P header (front ++ (done ++ sections.flatten)) front.length done.length
        (spansFrom done.length ((functions.map (·.symbolHash)).zip sections)) =
      (functions.mapM (readBackFunction P)).map fun read =>
        (read, (done ++ sections.flatten).length) := by
  induction decode generalizing done with
  | nil =>
    rw [List.flatten_nil, List.append_nil]
    rfl
  | @cons ir section_ functions sections here _ ih =>
    have room : ¬(front ++ (done ++ (section_ :: sections).flatten)).length <
        front.length + done.length + section_.length := by
      simp only [List.length_append, List.flatten_cons]
      omega
    have taken : ((front ++ (done ++ (section_ :: sections).flatten)).drop
        (front.length + done.length)).take section_.length = section_ := by
      rw [← List.append_assoc, ← List.length_append, List.drop_left, List.flatten_cons,
        List.take_left]
    have later := @ih (done ++ section_)
    rw [List.append_assoc, ← List.flatten_cons, List.length_append] at later
    rw [List.map_cons, List.zip_cons_cons, spansFrom, decodeSections, List.mapM_cons]
    refine (if_neg (not_not_intro rfl)).trans ((if_neg room).trans ?_)
    rw [taken]
    change (decodeFunction P header.strings header.data (header.spans.map (·.1)) section_ >>= _) = _
    rw [here]
    cases back : readBackFunction P ir with
    | error err => rfl
    | ok read =>
      refine (if_neg (not_not_intro (readBackFunction_symbolHash back))).trans ?_
      rw [later]
      cases functions.mapM (readBackFunction P) with
      | error err => rfl
      | ok reads => rfl

/-- An encoded program is decoded as its functions are read back. -/
theorem decodeCir_encodeCir {target : String} {entryIndex : UInt32}
    {functions : List LoweredFunctionIr} {bytes : List UInt8}
    (encoded : encodeCir P target entryIndex functions = .ok bytes) :
    decodeCir P bytes =
      (functions.mapM (readBackFunction P)).map fun functions =>
      { target, entryIndex, functions } := by
  obtain ⟨front, sections, header, program⟩ := encodeCir_parts encoded
  have each : (functions.map (·.symbolHash)).length = sections.length := by
    rw [List.length_map, program.decode.length_eq]
  have symbols : header.spans.map (·.1) = functions.map (·.symbolHash) := by
    rw [program.spans_eq, map_spansFrom each]
  have read := program.reads [] sections.flatten
  have decoded := @decodeSections_spansFrom P header front [] _ _ (symbols ▸ program.decode)
  rw [List.nil_append, List.length_nil] at decoded
  simp only [List.nil_append, List.length_nil, Nat.zero_add] at read
  rw [decodeCir, program.parts, read]
  change (decodeSections P header _ front.length 0 header.spans >>= _) = _
  rw [program.spans_eq, decoded]
  cases functions.mapM (readBackFunction P) with
  | error err => rfl
  | ok read =>
    refine (if_neg ?_).trans ?_
    · rw [List.length_append]
      exact not_not_intro rfl
    · rw [program.target_eq, program.entryIndex_eq]
      rfl

/-! ### Lengths -/

def Header.sectionsLength (header : Header) : Nat := (header.spans.map (·.2.2)).sum

/-- Bytes that are as many as their header says. -/
def Sized (bytes : List UInt8) : Prop :=
  ∃ header pos, rheader.run ⟨bytes, 0⟩ = .ok (header, ⟨bytes, pos⟩) ∧
    bytes.length = pos + header.sectionsLength

theorem stable_u32 : Stable u32 := (Stable.take _ _).bind fun _ => .pure _

theorem stable_rusize : Stable rusize := stable_u32.bind fun _ => .pure _

theorem stable_rpool {α : Type} (convert : List UInt8 → Except Error α) :
    Stable (rpool convert) := by
  refine stable_rusize.bind fun count => (stable_rusize.times count).bind fun lens => ?_
  exact .mapM lens fun len _ => (Stable.take _ len).bind fun bytes => .lift _

theorem stable_rheaderStr (strings : List String) (missing : Error) :
    Stable (rheaderStr strings missing) := by
  refine stable_u32.bind fun index => ?_
  split
  · exact .pure _
  · exact .throw _

/-- The header is read alike if more follows. -/
theorem stable_rheader : Stable rheader := by
  refine (Stable.take _ 4).bind fun found => .ite (.throw _) ?_
  refine stable_u32.bind fun found => .ite (.throw _) ?_
  refine (stable_rpool _).bind fun strings => ?_
  refine (stable_rpool _).bind fun data => ?_
  refine (stable_rheaderStr _ _).bind fun target => ?_
  refine stable_u32.bind fun entryIndex => ?_
  refine stable_rusize.bind fun functionCount => .ite (.throw _) (.ite (.throw _) ?_)
  refine (Stable.times ?_ functionCount).bind fun spans => .pure _
  refine (stable_rheaderStr _ _).bind fun symbol => ?_
  exact stable_rusize.bind fun offset => stable_rusize.bind fun len => .pure _

/-- Of bytes that are as many as their header says, none is a proper prefix of another. -/
theorem Sized.eq_nil {bytes more : List UInt8} (sized : Sized bytes)
    (longer : Sized (bytes ++ more)) : more = [] := by
  obtain ⟨header, pos, read, sized⟩ := sized
  obtain ⟨header', pos', read', total'⟩ := longer
  obtain ⟨-, same⟩ := stable_rheader _ _ _ _ read
  rw [same more] at read'
  cases read'
  rw [List.length_append, sized] at total'
  exact List.length_eq_zero_iff.mp (by change _ = pos + _ at total'; omega)

theorem decodeSections_total {header : Header} {bytes : List UInt8} {start offset total : Nat}
    {spans : List (Hash × Nat × Nat)} {functions : List LoweredFunctionIr}
    (decoded : decodeSections P header bytes start offset spans = .ok (functions, total)) :
    total = offset + (spans.map (·.2.2)).sum := by
  induction spans generalizing offset functions with
  | nil =>
    cases decoded
    rfl
  | cons span spans ih =>
    obtain ⟨symbol, at_, len⟩ := span
    rw [decodeSections] at decoded
    split at decoded
    next => cases decoded
    next =>
    split at decoded
    next => cases decoded
    next =>
    obtain ⟨ir, -, decoded⟩ := Except.bind_eq_ok.mp decoded
    split at decoded
    next => cases decoded
    next =>
    obtain ⟨⟨rest, end_⟩, later, decoded⟩ := Except.bind_eq_ok.mp decoded
    cases decoded
    rw [ih later, List.map_cons, List.sum_cons, Nat.add_assoc]

/-- Only bytes that are as many as their header says are decoded. -/
theorem decodeCir_sized {bytes : List UInt8} {program : CirProgram}
    (decoded : decodeCir P bytes = .ok program) : Sized bytes := by
  obtain ⟨⟨header, reader⟩, read, decoded⟩ := Except.bind_eq_ok.mp decoded
  obtain ⟨⟨functions, total⟩, sections, decoded⟩ := Except.bind_eq_ok.mp decoded
  obtain ⟨same, -⟩ := stable_rheader _ _ _ _ read
  have all : reader.pos + total = bytes.length := by
    by_contra other
    have refused := (if_pos other).symm.trans decoded
    cases refused
  refine ⟨header, reader.pos, by rw [read, ← same], ?_⟩
  rw [← all, decodeSections_total sections, Nat.zero_add]
  rfl

theorem sum_spansFrom {symbols : List Hash} {sections : List (List UInt8)}
    (each : symbols.length = sections.length) (offset : Nat) :
    ((spansFrom offset (symbols.zip sections)).map (·.2.2)).sum = sections.flatten.length := by
  induction symbols generalizing sections offset with
  | nil =>
    cases sections with
    | nil => rfl
    | cons section_ sections => cases each
  | cons symbol symbols ih =>
    cases sections with
    | nil => cases each
    | cons section_ sections =>
      rw [List.zip_cons_cons, spansFrom, List.map_cons, List.sum_cons, ih (Nat.succ.inj each),
        List.flatten_cons, List.length_append]

/-- What is encoded is as long as its header says, whether it is decoded or not. -/
theorem encodeCir_sized {target : String} {entryIndex : UInt32}
    {functions : List LoweredFunctionIr} {bytes : List UInt8}
    (encoded : encodeCir P target entryIndex functions = .ok bytes) : Sized bytes := by
  obtain ⟨front, sections, header, program⟩ := encodeCir_parts encoded
  have each : (functions.map (·.symbolHash)).length = sections.length := by
    rw [List.length_map, program.decode.length_eq]
  have read := program.reads [] sections.flatten
  simp only [List.nil_append, List.length_nil, Nat.zero_add] at read
  refine ⟨header, front.length, by rw [program.parts]; exact read, ?_⟩
  rw [Header.sectionsLength, program.spans_eq, sum_spansFrom each, program.parts,
    List.length_append]

/-! ### The round trip -/

/-- A function is read back as it is iff all metadata of its layouts is. -/
theorem readBackFunction_eq_self {ir : LoweredFunctionIr} :
    readBackFunction P ir = .ok ir ↔
      ∀ layout ∈ ir.typeLayouts, P.Reads layout.metadata layout.metadata := by
  constructor
  · intro back layout listed
    obtain ⟨layouts, backs, built⟩ := Except.bind_eq_ok.mp back
    have same : layouts = ir.typeLayouts := congrArg (·.typeLayouts) (Except.ok.inj built)
    rw [same] at backs
    exact readBackLayout_eq_self.mp
      (List.forall₂_same.mp (Except.mapM_eq_ok.mp backs) layout listed)
  · intro reads
    have backs : ir.typeLayouts.mapM (readBackLayout P) = .ok ir.typeLayouts :=
      Except.mapM_eq_ok.mpr (List.forall₂_same.mpr fun layout listed =>
        readBackLayout_eq_self.mpr (reads layout listed))
    rw [readBackFunction, backs]
    rfl

/-- What is encoded is decoded again iff the metadata of all layouts is read back from its text,
and neither a part of the bytes nor more than the bytes is decoded at all. -/
theorem decodeCir_roundTrip {target : String} {entryIndex : UInt32}
    {functions : List LoweredFunctionIr} {bytes : List UInt8}
    (encoded : encodeCir P target entryIndex functions = .ok bytes) :
    (decodeCir P bytes = .ok { target, entryIndex, functions } ↔
      ∀ ir ∈ functions, ∀ layout ∈ ir.typeLayouts, P.Reads layout.metadata layout.metadata) ∧
    (∀ front rest, bytes = front ++ rest → rest ≠ [] →
      ∀ program, decodeCir P front ≠ .ok program) ∧
    (∀ extra, extra ≠ [] → ∀ program, decodeCir P (bytes ++ extra) ≠ .ok program) := by
  have sized := encodeCir_sized encoded
  refine ⟨?_, ?_, ?_⟩
  · rw [decodeCir_encodeCir encoded, Except.map_eq_ok]
    constructor
    · rintro ⟨read, backs, same⟩ ir listed
      obtain rfl : read = functions := congrArg CirProgram.functions same
      exact readBackFunction_eq_self.mp
        (List.forall₂_same.mp (Except.mapM_eq_ok.mp backs) ir listed)
    · intro reads
      refine ⟨functions, Except.mapM_eq_ok.mpr (List.forall₂_same.mpr fun ir listed => ?_), rfl⟩
      exact readBackFunction_eq_self.mpr (reads ir listed)
  · rintro front rest rfl more program decoded
    exact more ((decodeCir_sized decoded).eq_nil sized)
  · intro extra more program decoded
    exact more (sized.eq_nil (decodeCir_sized decoded))

/-! ### Metadata that is nested too deep -/

section Limit

mutual

/-- How deep the arrays and objects of a value are nested. -/
def nesting : JsonValue → Nat
  | .array values => nestingValues values + 1
  | .object entries => nestingEntries entries + 1
  | _ => 0

def nestingValues : List JsonValue → Nat
  | [] => 0
  | value :: values => max (nesting value) (nestingValues values)

def nestingEntries : List (String × JsonValue) → Nat
  | [] => 0
  | (_, value) :: entries => max (nesting value) (nestingEntries entries)

end

/-- Primitives whose reader of JSON goes 127 levels deep and no further. -/
def limited : Primitives := { plain with
  parseJson := fun text => do
    let value ← parseCanonical text
    if nesting value ≤ 127 then return value
    throw "recursion limit exceeded" }

/-- Arrays in arrays. -/
def nested : Nat → JsonValue
  | 0 => .array []
  | n + 1 => .array [nested n]

theorem nesting_readBack_nested (n : Nat) :
    nesting (readBack plain.floatText (nested n)) = n + 1 := by
  induction n with
  | zero => rfl
  | succ n ih =>
    rw [nested, readBack, readBackValues, readBackValues, nesting, nestingValues, nestingValues, ih,
      Nat.max_zero]

theorem limited_reads {v read : JsonValue} :
    limited.Reads v read ↔ read = readBack plain.floatText v ∧ nesting read ≤ 127 := by
  have stages : limited.Reads v read ↔ ∃ value, plain.Reads v value ∧
      (if nesting value ≤ 127 then .ok value else .error "recursion limit exceeded") =
        Except.ok read := Except.bind_eq_ok
  rw [stages]
  constructor
  · rintro ⟨value, parsed, rest⟩
    obtain rfl := plain_reads.mp parsed
    split at rest
    next small =>
      cases rest
      exact ⟨rfl, small⟩
    next => cases rest
  · rintro ⟨same, small⟩
    exact ⟨read, plain_reads.mpr same, if_pos small⟩

/-- A function whose only type has a layout with some metadata. -/
def functionWith (metadata : JsonValue) (operations : List LoweredOp) : LoweredFunctionIr where
  schema := "codedb/lowered-function-ir/v2"
  symbolHash := "f"
  functionDefHash := "def"
  functionSigHash := "sig"
  typedBodyExprHash := "body"
  params := []
  locals := []
  returnTypeHash := "unit"
  typeLayouts := [{ typeHash := "unit", kind := "unit", sizeBytes := 0, alignBytes := 1,
                    abi := { pass := "by_value", return_ := "by_value" }, metadata }]
  operations
  debugMap := { schema := "codedb/lowered-debug-map/v1", operations := [], exprToOps := [] }

/-- Both branches of a condition give the unit value. -/
def branches : List LoweredOp :=
  [.constBool "c" true "unit",
    .if_ "v" "c" (.mk [.constUnit "a" "unit"] "a") (.mk [.constUnit "b" "unit"] "b") "unit",
    .return_ "v" "unit"]

theorem decodeCir_roundTrip_branches : ∃ bytes,
    encodeCir limited "x86_64-linux" 0 [functionWith (.object []) branches] = .ok bytes ∧
    decodeCir limited bytes =
      .ok ⟨"x86_64-linux", 0, [functionWith (.object []) branches]⟩ := by
  have encodes : (encodeCir limited "x86_64-linux" 0
      [functionWith (.object []) branches]).isOk := by
    decide +kernel
  cases encoded : encodeCir limited "x86_64-linux" 0 [functionWith (.object []) branches] with
  | error err =>
    rw [encoded] at encodes
    cases encodes
  | ok bytes =>
    refine ⟨bytes, rfl, (decodeCir_roundTrip encoded).1.mpr fun ir listed layout there => ?_⟩
    obtain rfl := List.mem_singleton.mp listed
    obtain rfl := List.mem_singleton.mp there
    exact limited_reads.mpr ⟨rfl, by decide⟩

/-- Metadata that is nested deeper than the reader of JSON goes is encoded, but not decoded. -/
theorem decodeCir_nested : ∃ bytes,
    encodeCir limited "x86_64-linux" 0 [functionWith (nested 127) []] = .ok bytes ∧
    ∀ program, decodeCir limited bytes ≠ .ok program := by
  have encodes : (encodeCir limited "x86_64-linux" 0 [functionWith (nested 127) []]).isOk := by
    decide +kernel
  cases encoded : encodeCir limited "x86_64-linux" 0 [functionWith (nested 127) []] with
  | error err =>
    rw [encoded] at encodes
    cases encodes
  | ok bytes =>
    refine ⟨bytes, rfl, fun program decoded => ?_⟩
    rw [decodeCir_encodeCir encoded] at decoded
    obtain ⟨functions, backs, -⟩ := Except.map_eq_ok.mp decoded
    cases Except.mapM_eq_ok.mp backs with
    | cons back _ =>
      obtain ⟨layouts, backs, -⟩ := Except.bind_eq_ok.mp back
      cases Except.mapM_eq_ok.mp backs with
      | cons back _ =>
        obtain ⟨metadata, reads, -⟩ := readBackLayout_eq_ok back
        obtain ⟨rfl, small⟩ := limited_reads.mp reads
        have deep := nesting_readBack_nested 127
        exact absurd (deep.symm.trans_le small) (by decide)

end Limit

end Cir

end CodeDb

import CodeDb.Cir.Decode

/-!
# What is written is read

A field is written by the encoder and read by the decoder. That the one fits the other is stated
once for all kinds of fields: whatever the encoder has written before, the decoder reads the same
value back, given tables that hold at least what the tables of the encoder hold then. As tables
are only appended to, fields may be put together, and so the operations follow from their fields.

## Main definitions

* `Transfers` — a field is written and read back

## Main results

* `Transfers.seq` — fields one after the other
* `transfers_op`, `transfers_block` — operations and blocks
-/

namespace CodeDb

namespace Cir

open Binary (Reads)

/-! ### Writing -/

/-- Bytes are written, and tables are appended to. -/
structure Coder.Grows (coder : Coder) (bytes : List UInt8) (coder' : Coder) : Prop where
  out : coder'.out = coder.out ++ bytes
  strings : coder.pools.strings.entries <+: coder'.pools.strings.entries
  data : coder.pools.data.entries <+: coder'.pools.data.entries
  values : coder.tables.values.entries <+: coder'.tables.values.entries
  types : coder.tables.types.entries <+: coder'.tables.types.entries

/-- A decoder has all that the encoder has put into its tables. -/
structure Coder.Within (coder : Coder) (fnIndex : List Hash) (D : FnDecoder) : Prop where
  strings : coder.pools.strings.entries <+: D.strings
  data : coder.pools.data.entries <+: D.data
  values : coder.tables.values.entries <+: D.values
  types : coder.tables.types.entries <+: D.types
  fnSymbols : D.fnSymbols = fnIndex

section Growth

variable {coder coder' coder'' : Coder} {bytes bytes' : List UInt8}

theorem Coder.Grows.refl (coder : Coder) : coder.Grows [] coder :=
  ⟨(List.append_nil _).symm, List.prefix_refl _, List.prefix_refl _, List.prefix_refl _,
    List.prefix_refl _⟩

theorem Coder.Grows.trans (first : coder.Grows bytes coder') (next : coder'.Grows bytes' coder'') :
    coder.Grows (bytes ++ bytes') coder'' where
  out := by rw [next.out, first.out, List.append_assoc]
  strings := first.strings.trans next.strings
  data := first.data.trans next.data
  values := first.values.trans next.values
  types := first.types.trans next.types

theorem Coder.Grows.within {fnIndex : List Hash} {D : FnDecoder} (grows : coder.Grows bytes coder')
    (within : coder'.Within fnIndex D) : coder.Within fnIndex D where
  strings := grows.strings.trans within.strings
  data := grows.data.trans within.data
  values := grows.values.trans within.values
  types := grows.types.trans within.types
  fnSymbols := within.fnSymbols

end Growth

/-! ### Rules -/

section Rules

variable {fnIndex : List Hash} {α β : Type}

/-- Whatever is written, tables are only appended to. -/
def Writes (w : Encode Unit) : Prop :=
  ∀ coder coder', w.run coder = .ok ((), coder') → ∃ bytes, coder.Grows bytes coder'

theorem Writes.seq {w w' : Encode Unit} (first : Writes w) (next : Writes w') :
    Writes (do w; w') := by
  intro coder coder'' run
  rw [StateT.run_bind] at run
  obtain ⟨⟨⟨⟩, coder'⟩, started, ended⟩ := Except.bind_eq_ok.mp run
  obtain ⟨bytes, grows⟩ := first coder coder' started
  obtain ⟨bytes', grows'⟩ := next coder' coder'' ended
  exact ⟨bytes ++ bytes', grows.trans grows'⟩

theorem Writes.all {w : α → Encode Unit} (each : ∀ a, Writes (w a)) (l : List α) :
    Writes (writeAll w l) := by
  induction l with
  | nil =>
    rintro coder coder' run
    cases run
    exact ⟨[], .refl coder⟩
  | cons a l ih => exact (each a).seq ih

/-- Whatever is written, it is read back with some result. The depth to which a reader goes into
operations is at least the number of bytes. -/
def Transfers (fnIndex : List Hash) (w : Encode Unit) (r : FnDecoder → Nat → Decode α)
    (x : Except Error α) : Prop :=
  ∀ coder coder', w.run coder = .ok ((), coder') → ∃ bytes, coder.Grows bytes coder' ∧
    ∀ D, coder'.Within fnIndex D → ∀ depth, bytes.length ≤ depth → Reads (r D depth) bytes x

namespace Transfers

variable {w w' : Encode Unit} {r : FnDecoder → Nat → Decode α} {x : Except Error α}
  {f : FnDecoder → Nat → α → Decode β}

theorem writes (transfers : Transfers fnIndex w r x) : Writes w := by
  intro coder coder' run
  obtain ⟨bytes, grows, -⟩ := transfers coder coder' run
  exact ⟨bytes, grows⟩

theorem nothing (a : α) : Transfers fnIndex (pure ()) (fun _ _ => pure a) (.ok a) := by
  rintro coder coder' run
  cases run
  exact ⟨[], .refl coder, fun D _ depth _ => Reads.pure a⟩

/-- What is written first is read first. -/
theorem bind {g : α → Except Error β} (first : Transfers fnIndex w r x) (rest : Writes w')
    (next : ∀ a, x = .ok a → Transfers fnIndex w' (fun D depth => f D depth a) (g a)) :
    Transfers fnIndex (do w; w') (fun D depth => r D depth >>= f D depth) (x >>= g) := by
  rintro coder coder'' run
  rw [StateT.run_bind] at run
  obtain ⟨⟨⟨⟩, coder'⟩, started, ended⟩ := Except.bind_eq_ok.mp run
  obtain ⟨bytes, grows, reads⟩ := first coder coder' started
  obtain ⟨bytes', grows'⟩ := rest coder' coder'' ended
  refine ⟨bytes ++ bytes', grows.trans grows', fun D within depth enough => ?_⟩
  rw [List.length_append] at enough
  refine (reads D (grows'.within within) depth (by omega)).bind fun a same => ?_
  obtain ⟨found, grows'', reads'⟩ := next a same coder' coder'' ended
  -- the same bytes are written, whatever is read of them
  obtain rfl : found = bytes' := List.append_cancel_left (grows''.out.symm.trans grows'.out)
  exact reads' D within depth (by omega)

theorem seq {a : α} {y : Except Error β} (first : Transfers fnIndex w r (.ok a))
    (next : Transfers fnIndex w' (fun D depth => f D depth a) y) :
    Transfers fnIndex (do w; w') (fun D depth => r D depth >>= f D depth) y := by
  refine first.bind (g := fun _ => y) next.writes fun b same => ?_
  cases same
  exact next

/-- What is read last is put together with what was read before. -/
theorem andThen {b : α → β} (first : Transfers fnIndex w r x)
    (next : ∀ D depth a, f D depth a = pure (b a)) :
    Transfers fnIndex w (fun D depth => r D depth >>= f D depth) (do return b (← x)) := by
  intro coder coder' run
  obtain ⟨bytes, grows, reads⟩ := first coder coder' run
  refine ⟨bytes, grows, fun D within depth enough => ?_⟩
  rw [← List.append_nil bytes]
  refine (reads D within depth enough).bind fun a _ => ?_
  rw [next]
  exact Reads.pure (b a)

/-- Nothing is written after the last field. -/
theorem ends {a : α} {y : Except Error β} (first : Transfers fnIndex w r (.ok a))
    (next : ∀ D depth, Reads (f D depth a) [] y) :
    Transfers fnIndex w (fun D depth => r D depth >>= f D depth) y := by
  intro coder coder' run
  obtain ⟨bytes, grows, reads⟩ := first coder coder' run
  refine ⟨bytes, grows, fun D within depth enough => ?_⟩
  rw [← List.append_nil bytes]
  exact (reads D within depth enough).seq (next D depth)

theorem last {a : α} {b : β} (first : Transfers fnIndex w r (.ok a))
    (next : ∀ D depth, f D depth a = pure b) :
    Transfers fnIndex w (fun D depth => r D depth >>= f D depth) (.ok b) :=
  first.ends fun D depth => next D depth ▸ Reads.pure b

/-- What is checked before anything is written holds afterwards. -/
theorem check {γ : Type} {e : Except Error γ} {w : γ → Encode Unit}
    (next : ∀ c, e = .ok c → Transfers fnIndex (w c) r x) :
    Transfers fnIndex (liftM e >>= w) r x := by
  intro coder coder' run
  cases e with
  | error err => cases run
  | ok c => exact next c rfl coder coder' run

/-- What the reader works out on its own may fail. -/
theorem compute {γ : Type} {e : Except Error γ} {f : FnDecoder → Nat → γ → Decode α}
    {g : γ → Except Error α} (writes : Writes w)
    (next : ∀ c, e = .ok c → Transfers fnIndex w (fun D depth => f D depth c) (g c)) :
    Transfers fnIndex w (fun D depth => liftM e >>= f D depth) (e >>= g) := by
  intro coder coder' run
  obtain ⟨bytes, grows⟩ := writes coder coder' run
  refine ⟨bytes, grows, fun D within depth enough => ?_⟩
  refine Reads.compute fun c same => ?_
  obtain ⟨found, grows', reads⟩ := next c same coder coder' run
  obtain rfl : found = bytes := List.append_cancel_left (grows'.out.symm.trans grows.out)
  exact reads D within depth enough

theorem computed {γ : Type} {e : Except Error γ} {c : γ} {f : FnDecoder → Nat → γ → Decode α}
    (known : e = .ok c) (next : Transfers fnIndex w (fun D depth => f D depth c) x) :
    Transfers fnIndex w (fun D depth => liftM e >>= f D depth) x := by
  subst known
  refine compute (g := fun _ => x) next.writes fun d same => ?_
  cases same
  exact next

/-- What is refused is not written. -/
theorem refused (err : Error) : Transfers fnIndex (throw err) r x := by
  rintro coder coder' run
  cases run

theorem write (bytes : List UInt8) {x : Except Error α}
    (reads : ∀ D depth, Reads (r D depth) bytes x) : Transfers fnIndex (Cir.write bytes) r x := by
  rintro coder coder' run
  cases run
  exact ⟨bytes, { Coder.Grows.refl coder with out := rfl }, fun D _ depth _ => reads D depth⟩

end Transfers

end Rules

/-! ### Numbers -/

theorem reads_u8 (value : UInt8) : Reads u8 [value] (.ok value) :=
  (Reads.take _ [value]).last rfl

theorem reads_u32 (value : UInt32) : Reads u32 (Binary.leBytes 4 value.toNat) (.ok value) := by
  have same : UInt32.ofNat (Binary.ofLe (Binary.leBytes 4 value.toNat)) = value := by
    rw [Binary.ofLe_leBytes]
    exact UInt32.toNat_inj.mp (by rw [UInt32.toNat_ofNat']; have := value.toNat_lt; omega)
  have taken := Reads.take (fun pos => "CIR truncated at offset " ++ toString pos)
    (Binary.leBytes 4 value.toNat)
  rw [Binary.length_leBytes] at taken
  exact taken.last (by rw [same])

theorem reads_u64 (value : UInt64) : Reads u64 (Binary.leBytes 8 value.toNat) (.ok value) := by
  have same : UInt64.ofNat (Binary.ofLe (Binary.leBytes 8 value.toNat)) = value := by
    rw [Binary.ofLe_leBytes]
    exact UInt64.toNat_inj.mp (by rw [UInt64.toNat_ofNat']; have := value.toNat_lt; omega)
  have taken := Reads.take (fun pos => "CIR truncated at offset " ++ toString pos)
    (Binary.leBytes 8 value.toNat)
  rw [Binary.length_leBytes] at taken
  exact taken.last (by rw [same])

theorem reads_i64 {value : Int} (fits : -2 ^ 63 ≤ value ∧ value ≤ 2 ^ 63 - 1) :
    Reads readI64 (Binary.leBytes 8 (BitVec.ofInt 64 value).toNat) (.ok value) := by
  have bits : (BitVec.ofInt 64 value).toNat < 256 ^ 8 := (BitVec.ofInt 64 value).isLt
  have same : (BitVec.ofNat 64 (Binary.ofLe
      (Binary.leBytes 8 (BitVec.ofInt 64 value).toNat))).toInt = value := by
    rw [Binary.ofLe_leBytes, Nat.mod_eq_of_lt bits, BitVec.ofNat_toNat, BitVec.setWidth_eq,
      BitVec.toInt_ofInt]
    exact Int.bmod_eq_of_le (by omega) (by omega)
  have taken := Reads.take (fun pos => "CIR truncated at offset " ++ toString pos)
    (Binary.leBytes 8 (BitVec.ofInt 64 value).toNat)
  rw [Binary.length_leBytes] at taken
  exact taken.last (by rw [same])

/-- What is read from the text of a number fits. -/
theorem parseI64_fits {text : String} {value : Int} (parsed : parseI64 text = some value) :
    -2 ^ 63 ≤ value ∧ value ≤ 2 ^ 63 - 1 := by
  obtain ⟨-, fits⟩ := Option.filter_eq_some_iff.mp parsed
  simpa [i64, ScalarIntType.bounds] using fits

theorem reads_usize {value : Nat} (small : value < 2 ^ 32) :
    Reads rusize (Binary.leBytes 4 value) (.ok value) := by
  have read := reads_u32 (UInt32.ofNat value)
  rw [UInt32.toNat_ofNat_of_lt' small] at read
  exact read.last (by rw [UInt32.toNat_ofNat_of_lt' small])

theorem reads_bool (value : Bool) : Reads rbool [if value then 1 else 0] (.ok value) :=
  (reads_u8 _).last (by cases value <;> rfl)

/-! ### Fields -/

namespace Transfers

variable {fnIndex : List Hash} {α : Type}

theorem u8 (value : UInt8) : Transfers fnIndex (writeU8 value) (fun _ _ => Cir.u8) (.ok value) :=
  .write [value] fun _ _ => reads_u8 value

theorem u32 (value : UInt32) :
    Transfers fnIndex (writeU32 value) (fun _ _ => Cir.u32) (.ok value) :=
  .write _ fun _ _ => reads_u32 value

theorem u64 (value : UInt64) :
    Transfers fnIndex (writeU64 value) (fun _ _ => Cir.u64) (.ok value) :=
  .write _ fun _ _ => reads_u64 value

theorem i64 {value : Int} (fits : -2 ^ 63 ≤ value ∧ value ≤ 2 ^ 63 - 1) :
    Transfers fnIndex (writeI64 value) (fun _ _ => readI64) (.ok value) :=
  .write _ fun _ _ => reads_i64 fits

theorem bool (value : Bool) : Transfers fnIndex (writeBool value) (fun _ _ => rbool) (.ok value) :=
  .write _ fun _ _ => reads_bool value

theorem usize (value : Nat) (what : String) :
    Transfers fnIndex (writeUsizeU32 value what) (fun _ _ => rusize) (.ok value) := by
  rw [writeUsizeU32]
  split
  next small =>
    refine .write _ fun _ _ => ?_
    rw [UInt32.toNat_ofNat_of_lt' small]
    exact reads_usize small
  next => exact refused _

/-- A count that is written fits. -/
theorem count {β : Type} {value : Nat} {what : String} {w : Encode Unit}
    {f : FnDecoder → Nat → Nat → Decode β} {y : Except Error β}
    (next : value < 2 ^ 32 → Transfers fnIndex w (fun D depth => f D depth value) y) :
    Transfers fnIndex (do writeUsizeU32 value what; w) (fun D depth => rusize >>= f D depth) y := by
  by_cases small : value < 2 ^ 32
  · exact (usize value what).seq (next small)
  · rw [writeUsizeU32, if_neg small]
    exact refused _

/-- The index of an entry of a table stands for the entry. -/
theorem indexed {γ : Type} [DecidableEq γ] (table : Coder → Table γ)
    (put : Coder → Table γ → Coder) (read : FnDecoder → List γ) {full what : String} (a : γ)
    (grows : ∀ coder table', (table coder).entries <+: table'.entries →
      coder.Grows [] (put coder table'))
    (within : ∀ coder table' D, (put coder table').Within fnIndex D →
      table'.entries <+: read D) :
    Transfers fnIndex
      (do
        let coder ← get
        let (index, table') ← liftM ((table coder).intern a full)
        set (put coder table')
        writeU32 index)
      (fun D _ => do entry (read D) what (← Cir.u32)) (.ok a) := by
  intro coder coder' run
  change (liftM ((table coder).intern a full) >>= fun added : UInt32 × Table γ =>
    (do set (put coder added.2); writeU32 added.1 : Encode Unit)).run coder = _ at run
  cases interned : (table coder).intern a full with
  | error err =>
    rw [interned] at run
    cases run
  | ok added =>
    rw [interned] at run
    obtain ⟨longer, found⟩ := Table.intern_eq_ok interned
    obtain ⟨bytes, grown, reads⟩ := @u32 fnIndex added.1 _ _ run
    refine ⟨bytes, (grows coder added.2 longer).trans grown, fun D after depth enough => ?_⟩
    obtain ⟨more, same⟩ := within coder added.2 D (grown.within after)
    obtain ⟨inside, -⟩ := List.getElem?_eq_some_iff.mp found
    have entry_eq : entry (read D) what added.1 = .ok a := by
      rw [entry, ← same, List.getElem?_append_left inside, found]
    exact (reads D after depth enough).last (by rw [entry_eq]; rfl)

theorem str (value : String) :
    Transfers fnIndex (writeStr value) (fun D _ => rstr D) (.ok value) :=
  indexed (·.pools.strings)
    (fun coder strings => { coder with pools := { coder.pools with strings } }) (·.strings) value
    (fun coder _ longer => { Coder.Grows.refl coder with strings := longer })
    (fun _ _ _ within => within.strings)

theorem data (value : List UInt8) : Transfers fnIndex (writeData value)
    (fun D _ => do entry D.data "data" (← Cir.u32)) (.ok value) :=
  indexed (·.pools.data)
    (fun coder data => { coder with pools := { coder.pools with data } }) (·.data) value
    (fun coder _ longer => { Coder.Grows.refl coder with data := longer })
    (fun _ _ _ within => within.data)

theorem vref (id : String) : Transfers fnIndex (writeVref id) (fun D _ => rvalue D) (.ok id) :=
  indexed (·.tables.values)
    (fun coder values => { coder with tables := { coder.tables with values } }) (·.values) id
    (fun coder _ longer => { Coder.Grows.refl coder with values := longer })
    (fun _ _ _ within => within.values)

theorem tref (typeHash : Hash) :
    Transfers fnIndex (writeTref typeHash) (fun D _ => rtype D) (.ok typeHash) :=
  indexed (·.tables.types)
    (fun coder types => { coder with tables := { coder.tables with types } }) (·.types) typeHash
    (fun coder _ longer => { Coder.Grows.refl coder with types := longer })
    (fun _ _ _ within => within.types)

theorem option {w : α → Encode Unit} {r : FnDecoder → Nat → Decode α}
    (each : ∀ a, Transfers fnIndex (w a) r (.ok a)) (value : Option α) :
    Transfers fnIndex (writeOption w value) (fun D depth => roption (r D depth)) (.ok value) := by
  cases value with
  | none => exact (u8 0).last fun _ _ => rfl
  | some a => exact (u8 1).seq ((each a).last fun _ _ => rfl)

theorem ostr (value : Option String) :
    Transfers fnIndex (Cir.ostr value) (fun D _ => rostr D) (.ok value) :=
  option str value

theorem ovref (value : Option String) :
    Transfers fnIndex (Cir.ovref value) (fun D _ => rovalue D) (.ok value) :=
  option vref value

theorem trap (value : Option LoweredTrap) :
    Transfers fnIndex (encodeTrap value) (fun D _ => rtrap D) (.ok value) := by
  refine option (fun trap => ?_) value
  refine (str trap.condition).seq ?_
  refine (str trap.code).last ?_
  exact fun _ _ => rfl

/-- Things one after the other are read as many times. -/
theorem each {β : Type} {w : α → Encode Unit} {r : FnDecoder → Nat → Decode β}
    {read : α → Except Error β} (l : List α)
    (each : ∀ a ∈ l, Transfers fnIndex (w a) r (read a)) :
    Transfers fnIndex (writeAll w l) (fun D depth => Binary.times l.length (r D depth))
      (l.mapM read) := by
  induction l with
  | nil => exact nothing []
  | cons a l ih =>
    have tail := ih fun b listed => each b (List.mem_cons_of_mem _ listed)
    rw [List.mapM_cons]
    refine (each a List.mem_cons_self).bind tail.writes fun b _ => ?_
    exact tail.andThen fun _ _ _ => rfl

theorem all {w : α → Encode Unit} {r : FnDecoder → Nat → Decode α}
    (reads : ∀ a, Transfers fnIndex (w a) r (.ok a)) (l : List α) :
    Transfers fnIndex (writeAll w l) (fun D depth => Binary.times l.length (r D depth))
      (.ok l) := by
  have same : l.mapM (fun a => (.ok (id a) : Except Error α)) = .ok (l.map id) :=
    Except.mapM_ok id l
  rw [List.map_id] at same
  rw [← same]
  exact each l fun a _ => reads a

/-- Rows are read under their indices. -/
theorem rows {w : α → Encode Unit} {r : Nat → FnDecoder → Nat → Decode α} {slot : α → Nat}
    (reads : ∀ a, Transfers fnIndex (w a) (r (slot a)) (.ok a)) {start : Nat} (l : List α)
    (dense : l.map slot = List.range' start l.length) :
    Transfers fnIndex (writeAll w l)
      (fun D depth => (List.range' start l.length).mapM fun index => r index D depth) (.ok l) := by
  induction l generalizing start with
  | nil => exact nothing []
  | cons a l ih =>
    rw [List.map_cons, List.length_cons, List.range'_succ] at dense
    obtain ⟨here, later⟩ := List.cons.inj dense
    simp only [List.length_cons, List.range'_succ, List.mapM_cons]
    have head := reads a
    rw [here] at head
    exact head.seq ((ih later).last fun _ _ => rfl)

/-- The columns of an operator are what they are compared with. -/
theorem semColumns (kind : String) :
    Transfers fnIndex (writeSemColumns kind) (fun _ _ => rcheckSemColumns kind) (.ok ()) := by
  refine check fun columns found => ?_
  obtain ⟨verb, width, signed⟩ := columns
  refine (u8 verb).seq ?_
  refine (u8 width).seq ?_
  refine (u8 signed).last fun _ _ => ?_
  rw [found]
  exact if_neg (not_not_intro rfl)

/-- Static data in lower case is kept as bytes. -/
theorem staticData (bytesHex : String) :
    Transfers fnIndex (encodeStaticData bytesHex) (fun D _ => rdataHex D) (.ok bytesHex) := by
  refine check fun bytes _ => ?_
  split
  next => exact refused _
  next canonical =>
    have read : (fun (D : FnDecoder) (_ : Nat) => rdataHex D) = fun D _ =>
        (do entry D.data "data" (← Cir.u32)) >>= fun bytes => pure (bytesToHex bytes) :=
      funext fun D => funext fun _ => (bind_assoc _ _ _).symm
    rw [read]
    refine (data bytes).last fun _ _ => ?_
    rw [not_not.mp canonical]

theorem place (place : LoweredPlace) :
    Transfers fnIndex (encodePlace place) (fun D _ => rplace D) (.ok place) := by
  cases place with
  | param slot typeHash indirect =>
    refine (u8 placekind.param).seq ?_
    refine (usize slot _).seq ?_
    refine (tref typeHash).seq ?_
    exact (bool indirect).last fun _ _ => rfl
  | local_ slot typeHash =>
    refine (u8 placekind.local_).seq ?_
    refine (usize slot _).seq ?_
    exact (tref typeHash).last fun _ _ => rfl
  | field base field fieldSymbol ownerTypeHash offsetBytes typeHash =>
    refine (u8 placekind.field).seq ?_
    refine (vref base).seq ?_
    refine (str field).seq ?_
    refine (Transfers.ostr fieldSymbol).seq ?_
    refine (tref ownerTypeHash).seq ?_
    refine (u64 offsetBytes).seq ?_
    exact (tref typeHash).last fun _ _ => rfl
  | enumPayload base variant variantSymbol ownerTypeHash tagValue payloadOffsetBytes typeHash =>
    refine (u8 placekind.enumPayload).seq ?_
    refine (vref base).seq ?_
    refine (str variant).seq ?_
    refine (Transfers.ostr variantSymbol).seq ?_
    refine (tref ownerTypeHash).seq ?_
    refine (u64 tagValue).seq ?_
    refine (u64 payloadOffsetBytes).seq ?_
    exact (tref typeHash).last fun _ _ => rfl
  | index base index elementTypeHash typeHash =>
    refine (u8 placekind.index).seq ?_
    refine (vref base).seq ?_
    refine (vref index).seq ?_
    refine (tref elementTypeHash).seq ?_
    exact (tref typeHash).last fun _ _ => rfl

end Transfers

/-! ### Operations -/

section Operations

variable {fnIndex : List Hash}

/-- An operation is its code, and then its fields. -/
theorem Transfers.op {w : Encode Unit} {code : UInt8} {op : LoweredOp}
    (fields : Transfers fnIndex w (fun D depth => ropOf D (rop D depth) code) (.ok op)) :
    Transfers fnIndex (do writeU8 code; w) (fun D depth => rop D depth) (.ok op) := by
  intro coder coder' run
  obtain ⟨bytes, grows, reads⟩ := fields _ _ run
  have start : coder.Grows [code] { coder with out := coder.out ++ [code] } :=
    { Coder.Grows.refl coder with out := rfl }
  refine ⟨code :: bytes, start.trans grows, fun D within depth enough => ?_⟩
  cases depth with
  | zero => cases enough
  | succ depth =>
    exact (reads_u8 code).seq (reads D within depth (Nat.le_of_succ_le_succ enough))

/-- The target of a call is found by its index among the functions. -/
theorem Transfers.target {α : Type} (few : fnIndex.length ≤ 2 ^ 32) {targetSymbolHash : Hash}
    {target : Nat} {w : Encode Unit} {f : FnDecoder → Nat → Hash → Decode α} {y : Except Error α}
    (found : fnIndex.idxOf? targetSymbolHash = some target)
    (next : Transfers fnIndex w (fun D depth => f D depth targetSymbolHash) y) :
    Transfers fnIndex (do writeU32 (UInt32.ofNat target); w)
      (fun D depth => do
        let target ← entry D.fnSymbols "call target" (← Cir.u32)
        f D depth target) y := by
  obtain ⟨inside, same, -⟩ := List.idxOf?_eq_some_iff.mp found
  have at_index : fnIndex[(UInt32.ofNat target).toNat]? = some targetSymbolHash := by
    rw [UInt32.toNat_ofNat_of_lt' (Nat.lt_of_lt_of_le inside few),
      List.getElem?_eq_getElem inside, same]
  have looked_up : Transfers fnIndex (writeU32 (UInt32.ofNat target))
      (fun D _ => do entry D.fnSymbols "call target" (← Cir.u32)) (.ok targetSymbolHash) := by
    intro coder coder' run
    obtain ⟨bytes, grows, reads⟩ := @Transfers.u32 fnIndex _ coder coder' run
    refine ⟨bytes, grows, fun D within depth enough => (reads D within depth enough).last ?_⟩
    rw [entry, within.fnSymbols, at_index]
    rfl
  have both := looked_up.seq (f := f) next
  simp only [bind_assoc] at both
  exact both

open Transfers

mutual

theorem transfers_op (few : fnIndex.length ≤ 2 ^ 32) (op : LoweredOp) :
    Transfers fnIndex (encodeOp fnIndex op) (fun D depth => rop D depth) (.ok op) := by
  cases op with
  | constI64 id value typeHash =>
    rw [encodeOp]
    split
    next => exact refused _
    next parsed fits =>
      split
      next => exact refused _
      next canonical =>
        refine Transfers.op ((vref id).seq ?_)
        refine (Transfers.i64 (parseI64_fits fits)).seq ?_
        refine (tref typeHash).last fun _ _ => ?_
        rw [not_not.mp canonical]
  | call id targetSymbolHash targetAbiSymbol args returnAddress typeHash =>
    rw [encodeOp]
    split
    next => exact refused _
    next target found =>
      refine Transfers.op ((vref id).seq ?_)
      refine Transfers.target few found ?_
      refine (Transfers.ostr targetAbiSymbol).seq ?_
      refine (usize args.length _).seq ?_
      refine (all vref args).seq ?_
      refine (Transfers.ovref returnAddress).seq ?_
      exact (tref typeHash).last fun _ _ => rfl
  | if_ id cond thenBlock elseBlock typeHash =>
    rw [encodeOp]
    refine Transfers.op ((vref id).seq ?_)
    refine (vref cond).seq ?_
    refine (transfers_block few thenBlock).seq ?_
    refine (transfers_block few elseBlock).seq ?_
    exact (tref typeHash).last fun _ _ => rfl
  | case id scrutinee enumTypeHash arms typeHash =>
    rw [encodeOp]
    refine Transfers.op ((vref id).seq ?_)
    refine (vref scrutinee).seq ?_
    refine (tref enumTypeHash).seq ?_
    refine (usize arms.length _).seq ?_
    refine (transfers_arms few arms).seq ?_
    exact (tref typeHash).last fun _ _ => rfl
  | fold id targetAddress targetTypeHash len init indexSlot accSlot itemSlot body elementTypeHash
      accTypeHash typeHash =>
    rw [encodeOp]
    refine Transfers.op ((vref id).seq ?_)
    refine (vref targetAddress).seq ?_
    refine (tref targetTypeHash).seq ?_
    refine (vref len).seq ?_
    refine (vref init).seq ?_
    refine (usize indexSlot _).seq ?_
    refine (usize accSlot _).seq ?_
    refine (usize itemSlot _).seq ?_
    refine (transfers_block few body).seq ?_
    refine (tref elementTypeHash).seq ?_
    refine (tref accTypeHash).seq ?_
    exact (tref typeHash).last fun _ _ => rfl
  | loop id accSlot init cond body accTypeHash typeHash =>
    rw [encodeOp]
    refine Transfers.op ((vref id).seq ?_)
    refine (usize accSlot _).seq ?_
    refine (vref init).seq ?_
    refine (transfers_block few cond).seq ?_
    refine (transfers_block few body).seq ?_
    refine (tref accTypeHash).seq ?_
    exact (tref typeHash).last fun _ _ => rfl
  | _ =>
    -- all others start with a value, and have a rule for each of their fields
    rw [encodeOp]
    refine Transfers.op ((vref _).seq ?_)
    repeat with_reducible first
      | exact (vref _).last fun _ _ => rfl
      | exact (tref _).last fun _ _ => rfl
      | exact (usize _ _).last fun _ _ => rfl
      | exact (Transfers.u64 _).last fun _ _ => rfl
      | exact (Transfers.bool _).last fun _ _ => rfl
      | exact (trap _).last fun _ _ => rfl
      | exact (place _).last fun _ _ => rfl
      | refine (vref _).seq ?_
      | refine (tref _).seq ?_
      | refine (str _).seq ?_
      | refine (Transfers.u64 _).seq ?_
      | refine (Transfers.bool _).seq ?_
      | refine (usize _ _).seq ?_
      | refine (Transfers.ostr _).seq ?_
      | refine (Transfers.ovref _).seq ?_
      | refine (Transfers.semColumns _).seq ?_
      | refine (staticData _).seq ?_

theorem transfers_block (few : fnIndex.length ≤ 2 ^ 32) (block : LoweredBlock) :
    Transfers fnIndex (encodeBlock fnIndex block) (fun D depth => rblock D (rop D depth))
      (.ok block) := by
  cases block with
  | mk operations result =>
    rw [encodeBlock]
    refine (usize operations.length _).seq ?_
    refine (transfers_ops few operations).seq ?_
    exact (vref result).last fun _ _ => rfl

theorem transfers_ops (few : fnIndex.length ≤ 2 ^ 32) (operations : List LoweredOp) :
    Transfers fnIndex (encodeOps fnIndex operations)
      (fun D depth => Binary.times operations.length (rop D depth)) (.ok operations) := by
  cases operations with
  | nil =>
    rw [encodeOps]
    exact nothing []
  | cons op operations =>
    rw [encodeOps]
    refine (transfers_op few op).seq ?_
    exact (transfers_ops few operations).last fun _ _ => rfl

theorem transfers_arms (few : fnIndex.length ≤ 2 ^ 32) (arms : List LoweredCaseArm) :
    Transfers fnIndex (encodeArms fnIndex arms)
      (fun D depth => Binary.times arms.length (rarm D (rop D depth))) (.ok arms) := by
  cases arms with
  | nil =>
    rw [encodeArms]
    exact nothing []
  | cons arm arms =>
    cases arm with
    | mk variant variantSymbol tagValue payloadTypeHash payloadOffsetBytes block =>
      rw [encodeArms]
      have head : Transfers fnIndex
          (do
            writeStr variant
            Cir.ostr variantSymbol
            writeU64 tagValue
            writeTref payloadTypeHash
            writeU64 payloadOffsetBytes
            encodeBlock fnIndex block)
          (fun D depth => rarm D (rop D depth))
          (.ok (.mk variant variantSymbol tagValue payloadTypeHash payloadOffsetBytes block)) := by
        refine (str variant).seq ?_
        refine (Transfers.ostr variantSymbol).seq ?_
        refine (Transfers.u64 tagValue).seq ?_
        refine (tref payloadTypeHash).seq ?_
        refine (Transfers.u64 payloadOffsetBytes).seq ?_
        exact (transfers_block few block).last fun _ _ => rfl
      have both := head.seq (f := fun D depth arm => do
        let arms ← Binary.times arms.length (rarm D (rop D depth))
        return arm :: arms) ((transfers_arms few arms).last fun _ _ => rfl)
      simp only [bind_assoc] at both
      exact both

end

end Operations

end Cir

end CodeDb

import CodeDb.SelfHosted.Format
import CodeDb.SelfHosted.Sha256

/-!
# The canonical text of strings and numbers

The self-hosted front end writes canonical JSON in two passes. The first measures the text and
the second emits it into a string that has exactly the capacity measured. There is no bound
on the iterations of a compiled loop, so loops are recursions here.

## Main definitions

* `escStrLen`, `escStrEmit`, `jsonStr` — string literals
* `jsonIntLen`, `jsonIntEmit`, `jsonInt` — numbers that are not negative

## Main results

* `utf8_quote` — the literal of a string, byte by byte
* `escStrLen_eq`, `escStrEmit_eq` — what is measured is what is emitted
* `jsonIntLen_eq`, `jsonIntEmit_eq` — so it is for numbers
* `jsonStr_jsonInt_exact` — both passes agree, and with the store
-/

namespace CodeDb

namespace SelfHosted

/-! ### String literals -/

/-- How many bytes there have been, and where the next is. -/
structure LenC where
  i : I64
  n : I64

structure EscLen where
  mem : Buffer
  n : I64

/-- What has been emitted, and where the next byte is. -/
structure EmAcc where
  out : Buffer
  i : I64

structure EscR where
  mem : Buffer
  out : Buffer

def escByteLen (b : I64) : I64 :=
  if b == 0x22 then 2
  else if b == 0x5c then 2
  else if b == 0x08 then 2
  else if b == 0x09 then 2
  else if b == 0x0a then 2
  else if b == 0x0c then 2
  else if b == 0x0d then 2
  else if b.slt 0x20 then 6
  else 1

/-- The loop of `escStrLen`. -/
def measureFrom (mem : Buffer) (e : I64) (a : LenC) : Run LenC :=
  if _more : a.i.slt e then do
    let b := toI64 (← mem.get a.i)
    let add := escByteLen b
    measureFrom mem e { i := a.i + 1, n := a.n + add }
  else pure a
termination_by (e.toInt - a.i.toInt).toNat
decreasing_by exact toInt_sub_succ_lt _more

def escStrLen (mem : Buffer) (s e : I64) : Run EscLen := do
  let done ← measureFrom mem e { i := s, n := 0 }
  return { mem, n := done.n + 2 }

/-- What the loop of `escStrEmit` pushes for a byte. -/
def escByteEmit (oo : Buffer) (b : I64) : Run Buffer :=
  if b == 0x22 then do
    let oo ← oo.push (toU8 0x5c)
    oo.push (toU8 0x22)
  else if b == 0x5c then do
    let oo ← oo.push (toU8 0x5c)
    oo.push (toU8 0x5c)
  else if b == 0x08 then do
    let oo ← oo.push (toU8 0x5c)
    oo.push (toU8 0x62)
  else if b == 0x09 then do
    let oo ← oo.push (toU8 0x5c)
    oo.push (toU8 0x74)
  else if b == 0x0a then do
    let oo ← oo.push (toU8 0x5c)
    oo.push (toU8 0x6e)
  else if b == 0x0c then do
    let oo ← oo.push (toU8 0x5c)
    oo.push (toU8 0x66)
  else if b == 0x0d then do
    let oo ← oo.push (toU8 0x5c)
    oo.push (toU8 0x72)
  else if b.slt 0x20 then do
    let oo ← oo.push (toU8 0x5c)
    let oo ← oo.push (toU8 0x75)
    let oo ← oo.push (toU8 0x30)
    let oo ← oo.push (toU8 0x30)
    let oo ← oo.push (toU8 (hexNibble (sar b 4 &&& 0xf)))
    oo.push (toU8 (hexNibble (b &&& 0xf)))
  else oo.push (toU8 b)

/-- The loop of `escStrEmit`. -/
def emitFrom (mem : Buffer) (e : I64) (cur : EmAcc) : Run EmAcc :=
  if _more : cur.i.slt e then do
    let b := toI64 (← mem.get cur.i)
    let oo ← escByteEmit cur.out b
    emitFrom mem e { out := oo, i := cur.i + 1 }
  else pure cur
termination_by (e.toInt - cur.i.toInt).toNat
decreasing_by exact toInt_sub_succ_lt _more

def escStrEmit (out mem : Buffer) (s e : I64) : Run EscR := do
  let out ← out.push (toU8 0x22)
  let done ← emitFrom mem e { out, i := s }
  let oo2 ← done.out.push (toU8 0x22)
  return { mem, out := oo2 }

def jsonStr (mem : Buffer) (s e : I64) : Run EscR := do
  let ml ← escStrLen mem s e
  let buf ← Buffer.withCapacity ml.n
  escStrEmit buf ml.mem s e

/-! ### Numbers -/

/-- What is left of a number, and how many digits there have been. -/
structure DigC where
  m : I64
  c : I64

/-- There is less of a number without its last digit. -/
theorem natAbs_sdiv_ten_lt {n : I64} (some : n ≠ 0) :
    (n.sdiv 10).toInt.natAbs < n.toInt.natAbs := by
  have other : n.toInt ≠ 0 := fun zero => some (BitVec.eq_of_toInt_eq zero)
  rw [toInt_sdiv_ten, Int.natAbs_tdiv]
  change n.toInt.natAbs / 10 < n.toInt.natAbs
  omega

/-- The loop of `jsonIntLen`. -/
def countFrom (a : DigC) : DigC :=
  if _more : a.m != 0 then countFrom { m := a.m.sdiv 10, c := a.c + 1 } else a
termination_by a.m.toInt.natAbs
decreasing_by exact natAbs_sdiv_ten_lt (bne_iff_ne.mp _more)

def jsonIntLen (n : I64) : I64 :=
  if n == 0 then 1 else (countFrom { m := n, c := 0 }).c

def jsonIntEmit (out : Buffer) (n : I64) : Run Buffer :=
  if last : n.slt 10 then out.push (toU8 (48 + n))
  else do
    have _some : n ≠ 0 := by
      rintro rfl
      exact last (by decide)
    let hi ← jsonIntEmit out (n.sdiv 10)
    hi.push (toU8 (48 + n.srem 10))
termination_by n.toInt.natAbs
decreasing_by exact natAbs_sdiv_ten_lt _some

def jsonInt (n : I64) : Run Buffer := do
  let len := jsonIntLen n
  let buf ← Buffer.withCapacity len
  jsonIntEmit buf n

/-! ### The passes over a string -/

/-- The bytes of a string literal for a byte of the string. -/
def escBytes (b : UInt8) : List UInt8 :=
  if b.toNat < 128 then utf8 (.ofList (escapeChar (Char.ofNat b.toNat))) else [b]

/-- What is pushed for a byte. -/
def escPushed (b : I64) : List UInt8 :=
  if b == 0x22 then [0x5c, 0x22]
  else if b == 0x5c then [0x5c, 0x5c]
  else if b == 0x08 then [0x5c, 0x62]
  else if b == 0x09 then [0x5c, 0x74]
  else if b == 0x0a then [0x5c, 0x6e]
  else if b == 0x0c then [0x5c, 0x66]
  else if b == 0x0d then [0x5c, 0x72]
  else if b.slt 0x20 then
    [0x5c, 0x75, 0x30, 0x30, toU8 (hexNibble (sar b 4 &&& 0xf)), toU8 (hexNibble (b &&& 0xf))]
  else [toU8 b]

theorem push_push (oo : Buffer) (b c : UInt8) :
    (oo.push b >>= fun oo => oo.push c) = oo.append [b, c] := oo.append_append [b] [c]

theorem escByteEmit_eq (oo : Buffer) (b : I64) : escByteEmit oo b = oo.append (escPushed b) := by
  simp only [escByteEmit, escPushed, apply_ite oo.append, push_push, Buffer.push_bind_append]
  rfl

/-- Of every byte, both passes make what the store makes of it. -/
theorem escPushed_toI64 (b : UInt8) : escPushed (toI64 b) = escBytes b ∧
    escByteLen (toI64 b) = BitVec.ofNat 64 (escBytes b).length := by
  have all : ∀ n < 256, escPushed (toI64 (UInt8.ofNat n)) = escBytes (UInt8.ofNat n) ∧
      escByteLen (toI64 (UInt8.ofNat n)) =
        BitVec.ofNat 64 (escBytes (UInt8.ofNat n)).length := by decide +kernel
  have here := all b.toNat b.toNat_lt
  rwa [UInt8.ofNat_toNat] at here

/-- The literal of a string consists of what its bytes become. -/
theorem utf8_quote (s : String) :
    utf8 (.ofList (quote s)) = 0x22 :: ((utf8 s).flatMap escBytes ++ [0x22]) := by
  have char (c : Char) :
      Utf8.encode (escapeChar c) = (String.utf8EncodeChar c).flatMap escBytes := by
    by_cases ascii : c.toNat < 128
    · have byte : (UInt8.ofNat c.toNat).toNat = c.toNat :=
        UInt8.toNat_ofNat_of_lt' (Nat.lt_trans ascii (by decide))
      rw [Utf8.encodeChar_ascii ascii, List.flatMap_cons, List.flatMap_nil, List.append_nil,
        escBytes, byte, if_pos ascii, utf8_ofList, Char.ofNat_toNat]
    · have kept : escapeChar c = [c] := by
        have other (d : Char) (low : d.toNat < 128) : c ≠ d := by
          rintro rfl
          exact ascii low
        simp only [escapeChar, other _ (show ('"' : Char).toNat < 128 by decide),
          other _ (show ('\\' : Char).toNat < 128 by decide),
          other _ (show ('\x08' : Char).toNat < 128 by decide),
          other _ (show ('\x0c' : Char).toNat < 128 by decide),
          other _ (show ('\n' : Char).toNat < 128 by decide),
          other _ (show ('\x0d' : Char).toNat < 128 by decide),
          other _ (show ('\t' : Char).toNat < 128 by decide), if_false,
          if_neg (show ¬ c.toNat < 0x20 by omega)]
      have high : ∀ b ∈ String.utf8EncodeChar c, escBytes b = [b] := by
        intro b part
        exact if_neg (Nat.not_lt.mpr (Utf8.high (Nat.le_of_not_lt ascii) part))
      rw [kept, Utf8.encode_cons, Utf8.encode_nil, List.append_nil, List.flatMap_congr high,
        List.flatMap_singleton']
  have inner (l : List Char) :
      Utf8.encode (l.flatMap escapeChar) = (Utf8.encode l).flatMap escBytes := by
    rw [Utf8.encode, List.flatMap_assoc, Utf8.encode, List.flatMap_assoc]
    exact List.flatMap_congr fun c _ => char c
  have outer : Utf8.encode ['"'] = [0x22] := by decide
  rw [utf8_ofList, quote, ← List.singleton_append, Utf8.encode_append, Utf8.encode_append, outer,
    inner, ← utf8_ofList s.toList, String.ofList_toList]
  rfl

variable {mem : Buffer} {text after : List UInt8}

/-- Where the next byte is, and that it is there. -/
theorem next_byte {i : Nat} {b : UInt8} (there : mem.bytes.drop i = b :: text ++ after) :
    mem.bytes.drop (i + 1) = text ++ after ∧
      (BitVec.ofNat 64 i).slt (BitVec.ofNat 64 (i + (b :: text).length)) = true := by
  have length := congrArg List.length there
  rw [List.length_drop, List.length_append, List.length_cons] at length
  have small := mem.length_small
  constructor
  · rw [← List.drop_drop, there]
    rfl
  · rw [List.length_cons, slt_ofNat (by omega) (by omega), decide_eq_true]
    omega

theorem measureFrom_eq {i : Nat} (there : mem.bytes.drop i = text ++ after) (n : I64) :
    measureFrom mem (BitVec.ofNat 64 (i + text.length)) { i := BitVec.ofNat 64 i, n } =
      .ok { i := BitVec.ofNat 64 (i + text.length),
            n := n + BitVec.ofNat 64 (text.flatMap escBytes).length } := by
  induction text generalizing i n with
  | nil =>
    rw [List.length_nil, Nat.add_zero, measureFrom, dif_neg (by simp [BitVec.slt_eq_decide]),
      List.flatMap_nil, List.length_nil, BitVec.add_zero]
    rfl
  | cons b text ih =>
    obtain ⟨rest, more⟩ := next_byte there
    have after : i + (b :: text).length = i + 1 + text.length := by
      rw [List.length_cons]
      omega
    rw [measureFrom, dif_pos more, Buffer.get_drop there, pure_bind]
    simp only
    rw [after, ofNat_succ, (escPushed_toI64 b).2, ih rest, List.flatMap_cons, List.length_append,
      BitVec.add_assoc, ← BitVec.ofNat_add]

theorem emitFrom_eq {i : Nat} (there : mem.bytes.drop i = text ++ after) (out : Buffer) :
    emitFrom mem (BitVec.ofNat 64 (i + text.length)) { out, i := BitVec.ofNat 64 i } =
      out.append (text.flatMap escBytes) >>= fun out =>
        .ok { out, i := BitVec.ofNat 64 (i + text.length) } := by
  induction text generalizing i out with
  | nil =>
    rw [List.length_nil, Nat.add_zero, emitFrom, dif_neg (by simp [BitVec.slt_eq_decide]),
      List.flatMap_nil, Buffer.append_nil]
    rfl
  | cons b text ih =>
    obtain ⟨rest, more⟩ := next_byte there
    have after : i + (b :: text).length = i + 1 + text.length := by
      rw [List.length_cons]
      omega
    rw [emitFrom, dif_pos more, Buffer.get_drop there, pure_bind]
    simp only
    rw [after, escByteEmit_eq, (escPushed_toI64 b).1, List.flatMap_cons, ← Buffer.append_append,
      bind_assoc]
    refine bind_congr fun out => ?_
    rw [ofNat_succ, ih rest]

/-- The size of the literal of a range is measured, up to multiples of `2 ^ 64`. -/
theorem escStrLen_eq {s : Nat} (there : mem.bytes.drop s = text ++ after) :
    escStrLen mem (BitVec.ofNat 64 s) (BitVec.ofNat 64 (s + text.length)) =
      .ok { mem, n := BitVec.ofNat 64 (0x22 :: (text.flatMap escBytes ++ [0x22])).length } := by
  have seed := measureFrom_eq there 0
  have none : (0 : I64) + BitVec.ofNat 64 (text.flatMap escBytes).length =
      BitVec.ofNat 64 (text.flatMap escBytes).length := BitVec.zero_add _
  have quotes : BitVec.ofNat 64 (text.flatMap escBytes).length + 2 =
      BitVec.ofNat 64 (0x22 :: (text.flatMap escBytes ++ [0x22])).length := by
    rw [List.length_cons, List.length_append, List.length_singleton, ← ofNat_succ, ← ofNat_succ,
      BitVec.add_assoc]
    rfl
  rw [escStrLen, seed, Run.ok_bind, none, quotes]
  rfl

/-- The literal of a range is emitted, or there is no room for it. -/
theorem escStrEmit_eq {s : Nat} (there : mem.bytes.drop s = text ++ after) (out : Buffer) :
    escStrEmit out mem (BitVec.ofNat 64 s) (BitVec.ofNat 64 (s + text.length)) =
      out.append (0x22 :: (text.flatMap escBytes ++ [0x22])) >>= fun out => .ok { mem, out } := by
  rw [escStrEmit, ← Buffer.push_bind_append, bind_assoc]
  refine bind_congr fun out => ?_
  rw [emitFrom_eq there, ← Buffer.append_append, bind_assoc, bind_assoc]
  rfl

/-! ### The passes over a number -/

/-- A number has one digit more than it has without the last one. -/
theorem length_repr (k : Nat) :
    k.repr.length = 1 + if k / 10 = 0 then 0 else (k / 10).repr.length := by
  by_cases more : 10 ≤ k
  · rw [Nat.repr_of_ge more, String.length_append, String.length_singleton, Nat.add_comm,
      if_neg (by omega)]
  · rw [Nat.repr_of_lt (by omega), String.length_singleton, if_pos (by omega)]

/-- A number that is not negative, as a count. -/
theorem eq_ofNat {n : I64} {k : Nat} (value : n.toInt = k) : n = BitVec.ofNat 64 k := by
  have most := n.toInt_lt
  apply BitVec.eq_of_toInt_eq
  rw [value, toInt_ofNat (by omega)]

theorem toInt_eq_zero {n : I64} {k : Nat} (value : n.toInt = k) : n = 0 ↔ k = 0 := by
  have zero : (0 : I64).toInt = 0 := by decide
  rw [← BitVec.toInt_inj, value, zero]
  exact Int.natCast_eq_zero

theorem toInt_sdiv_natCast {n : I64} {k : Nat} (value : n.toInt = k) :
    (n.sdiv 10).toInt = (k / 10 : Nat) := by
  rw [toInt_sdiv_ten, value]
  rfl

theorem countFrom_eq (k : Nat) {a : DigC} (value : a.m.toInt = k) :
    (countFrom a).c = a.c + BitVec.ofNat 64 (if k = 0 then 0 else k.repr.length) := by
  induction k using Nat.strongRecOn generalizing a with
  | ind k ih =>
    rw [countFrom]
    by_cases zero : k = 0
    · rw [dif_neg (by simpa using (toInt_eq_zero value).mpr zero), if_pos zero, BitVec.add_zero]
    · have more : (a.m != 0) = true := bne_iff_ne.mpr fun none =>
        zero ((toInt_eq_zero value).mp none)
      have one : (1 : I64) = BitVec.ofNat 64 1 := rfl
      rw [dif_pos more, ih (k / 10) (by omega) (toInt_sdiv_natCast value), if_neg zero,
        length_repr k, BitVec.ofNat_add, BitVec.add_assoc, one]

/-- The digits of a number are counted. -/
theorem jsonIntLen_eq {k : Nat} {n : I64} (value : n.toInt = k) :
    jsonIntLen n = BitVec.ofNat 64 k.repr.length := by
  rw [jsonIntLen]
  by_cases zero : k = 0
  · rw [if_pos (by simpa using (toInt_eq_zero value).mpr zero), zero]
    rfl
  · have more : (n == 0) = false := beq_eq_false_iff_ne.mpr fun none =>
      zero ((toInt_eq_zero value).mp none)
    rw [more, if_neg Bool.false_ne_true, countFrom_eq k value, if_neg zero]
    exact BitVec.zero_add _

/-- The digits of a number are emitted, or there is no room for them. -/
theorem jsonIntEmit_eq (out : Buffer) (k : Nat) {n : I64} (value : n.toInt = k) :
    jsonIntEmit out n = out.append (utf8 k.repr) := by
  have digits : ∀ d < 10, [toU8 (48 + BitVec.ofNat 64 d)] = utf8 (.singleton d.digitChar) := by
    decide
  have ten : (10 : I64).toInt = 10 := by decide
  induction k using Nat.strongRecOn generalizing n with
  | ind k ih =>
    rw [jsonIntEmit]
    by_cases more : 10 ≤ k
    · have last : n.srem 10 = BitVec.ofNat 64 (k % 10) := by
        apply eq_ofNat
        rw [BitVec.toInt_srem, ten, value]
        rfl
      rw [dif_neg (by rw [BitVec.slt_eq_decide, value, ten, decide_eq_true_eq]; omega),
        ih (k / 10) (by omega) (toInt_sdiv_natCast value), Nat.repr_of_ge more, utf8_append,
        ← digits _ (Nat.mod_lt k (by decide)), last]
      exact out.append_append _ _
    · rw [dif_pos (by rw [BitVec.slt_eq_decide, value, ten, decide_eq_true_eq]; omega),
        Nat.repr_of_lt (by omega), ← digits k (by omega), eq_ofNat value]
      rfl

/-! ### Exact capacities -/

/-- A string that is full. -/
theorem append_exact {start : Buffer} {l : List UInt8} (fresh : start.bytes = [])
    (exact : start.capacity = l.length) : ∃ out, start.append l = .ok out ∧ out.bytes = l ∧
      out.capacity = l.length := by
  obtain ⟨out, appended, bytes, capacity⟩ := start.append_ok (l := l) (by
    rw [fresh, exact]
    simp)
  exact ⟨out, appended, by rw [bytes, fresh, List.nil_append], by rw [capacity, exact]⟩

theorem withCapacity_length {l : List UInt8} (small : l.length < 2 ^ 63) :
    ∃ start, Buffer.withCapacity (BitVec.ofNat 64 l.length) = .ok start ∧ start.bytes = [] ∧
      start.capacity = l.length := by
  have count := toNat_ofNat small
  rw [Buffer.withCapacity, dif_pos (by rwa [count])]
  exact ⟨_, rfl, rfl, count⟩

/-- The literal of a range of a string, between characters, is measured as it is emitted, and
emitted as the store writes it; the string for it is filled to its capacity. So it is with
numbers that are not negative. A literal of `2 ^ 63` bytes has no size. -/
theorem jsonStr_jsonInt_exact (floatText : UInt64 → List Char) (mem out : Buffer)
    (before text after : String) (there : mem.bytes = utf8 before ++ (utf8 text ++ utf8 after))
    (n : I64) (positive : 0 ≤ n.toInt) :
    let s := BitVec.ofNat 64 (utf8 before).length
    let e := BitVec.ofNat 64 ((utf8 before).length + (utf8 text).length)
    let literal := utf8 (canonicalJson floatText (.string text))
    let digits := utf8 n.toInt.repr
    (escStrLen mem s e = .ok { mem, n := BitVec.ofNat 64 literal.length } ∧
      (escStrEmit out mem s e = out.append literal >>= fun out => .ok { mem, out }) ∧
      (literal.length < 2 ^ 63 → ∃ r, jsonStr mem s e = .ok r ∧ r.mem = mem ∧
        r.out.bytes = literal ∧ r.out.capacity = literal.length)) ∧
    (jsonIntLen n = BitVec.ofNat 64 digits.length ∧ jsonIntEmit out n = out.append digits ∧
      ∃ r, jsonInt n = .ok r ∧ r.bytes = digits ∧ r.capacity = digits.length) := by
  intro s e literal digits
  have quoted : literal = 0x22 :: ((utf8 text).flatMap escBytes ++ [0x22]) := utf8_quote text
  -- the text is what the two passes read, from its first byte on
  have range : mem.bytes.drop (utf8 before).length = utf8 text ++ utf8 after := by
    rw [there, List.drop_left]
  have measured : escStrLen mem s e = .ok { mem, n := BitVec.ofNat 64 literal.length } := by
    rw [quoted]
    exact escStrLen_eq range
  have emitted (out : Buffer) :
      escStrEmit out mem s e = out.append literal >>= fun out => .ok { mem, out } := by
    rw [quoted]
    exact escStrEmit_eq range out
  -- the digits are those of a natural number, as nothing negative is written
  obtain ⟨k, value⟩ := Int.eq_ofNat_of_zero_le positive
  have decimal : digits = utf8 k.repr := by
    simp only [digits, value]
    rfl
  have counted : jsonIntLen n = BitVec.ofNat 64 digits.length := by
    rw [decimal, length_utf8_repr]
    exact jsonIntLen_eq value
  have pushed (out : Buffer) : jsonIntEmit out n = out.append digits := by
    rw [decimal]
    exact jsonIntEmit_eq out k value
  refine ⟨⟨measured, emitted out, ?_⟩, counted, pushed out, ?_⟩
  · intro small
    obtain ⟨start, created, fresh, exact⟩ := withCapacity_length small
    obtain ⟨full, appended, bytes, capacity⟩ := append_exact fresh exact
    refine ⟨{ mem, out := full }, ?_, rfl, bytes, capacity⟩
    simp only [jsonStr, measured, Run.ok_bind, created, emitted, appended]
  · have few : digits.length < 2 ^ 63 := by
      have bound : k.repr.length ≤ 20 := by
        have most := n.toInt_lt
        rw [Nat.length_repr_le_iff (by decide)]
        omega
      rw [decimal, length_utf8_repr]
      omega
    obtain ⟨start, created, fresh, exact⟩ := withCapacity_length few
    obtain ⟨full, appended, bytes, capacity⟩ := append_exact fresh exact
    refine ⟨full, ?_, bytes, capacity⟩
    simp only [jsonInt, counted, created, Run.ok_bind, pushed, appended]

/-- A string with a newline. -/
def newline : Buffer where
  bytes := utf8 "x\ny"
  capacity := 8
  fits := by decide
  sized := by decide

theorem jsonStr_jsonInt_exact_newline : ∃ r number, jsonStr newline 1 2 = .ok r ∧
    r.out.bytes = utf8 "\"\\n\"" ∧ r.out.capacity = 4 ∧ jsonInt 42 = .ok number ∧
    number.bytes = utf8 "42" ∧ number.capacity = 2 := by
  obtain ⟨⟨-, -, literal⟩, -, -, digits⟩ := jsonStr_jsonInt_exact (fun _ => []) newline newline
    "x" "\n" "y" (by decide) 42 (by decide)
  obtain ⟨r, run, -, bytes, capacity⟩ := literal (by decide)
  obtain ⟨number, counted, text, exact⟩ := digits
  exact ⟨r, number, run, bytes.trans (by decide), capacity.trans (by decide), counted,
    text.trans (by decide), exact.trans (by decide)⟩

end SelfHosted

end CodeDb

import CodeDb.SelfHosted.Sha256
import CodeDb.Store.JsonReader

/-!
# The self-hosted hash of objects

Two programs hash their standard input: `main` as it is, and `objHash` after making a kind, a
version and a payload on lines of their own into what the store hashes an object as.

Whatever does not fit in a string makes a program trap before it prints anything.

## Main definitions

* `main`, `objHash` — the programs

## Main results

* `hashString_eq` — a string is hashed, or there is no room for its padding
* `main_run`, `objHash_run` — what the programs print
-/

namespace CodeDb

namespace SelfHosted

open Sha256 (paddedLength digest)

def memCap : I64 := 1048576

/-- A new string. -/
def empty : Buffer :=
  { bytes := [], capacity := memCap.toNat, fits := by decide, sized := by decide }

/-! ### Output -/

/-- Write a state in hexadecimal, and a newline. -/
def printHex (s : State) : Process I64 := do
  let (out, ln) ← Process.ofRun do
    let o0 ← Buffer.withCapacity 80
    let o1 ← pushWordHex o0 s.a
    let o2 ← pushWordHex o1 s.b
    let o3 ← pushWordHex o2 s.c
    let o4 ← pushWordHex o3 s.d
    let o5 ← pushWordHex o4 s.e
    let o6 ← pushWordHex o5 s.f
    let o7 ← pushWordHex o6 s.g
    let o8 ← pushWordHex o7 s.h
    let ln := o8.len
    let filled ← loop { b := Vector.replicate 72 0, i := 0 : OutBuf 72 } (fun st => st.i.slt ln)
      fun st =>
      do return { b := ← arraySet st.b st.i (← o8.get st.i), i := st.i + 1 }
    return (← arraySet filled.b ln 0xa, ln)
  write out.toList (ln + 1)

/-- The digits of a state. -/
def hexText (s : State) : List UInt8 :=
  utf8 (String.ofList (hexEncode (s.toList.flatMap Sha256.bytesOfWord)))

/-- The words of a state are pushed in hexadecimal. -/
theorem push_words {α : Type} (o : Buffer) (s : State) (next : Buffer → Run α) :
    (do
      let o ← pushWordHex o s.a
      let o ← pushWordHex o s.b
      let o ← pushWordHex o s.c
      let o ← pushWordHex o s.d
      let o ← pushWordHex o s.e
      let o ← pushWordHex o s.f
      let o ← pushWordHex o s.g
      let o ← pushWordHex o s.h
      next o) = o.append (hexText s) >>= next := by
  have words : hexText s = s.toList.flatMap fun w =>
      utf8 (String.ofList (hexEncode (Sha256.bytesOfWord w))) := by
    simp [hexText, hexEncode, utf8_ofList, Utf8.encode, List.flatMap_assoc]
  rw [words]
  simp only [Sha256.State.toList, List.flatMap_cons, List.flatMap_nil, List.append_nil,
    ← Buffer.append_append, pushWordHex_eq, bind_assoc]

/-- The text of a state. -/
theorem length_hexText (s : State) : (hexText s).length = 64 := by
  rw [hexText, utf8_ofList, Utf8.encode_ascii (hexEncode_ascii _)]
  rfl

/-- A state is printed as 64 digits and a newline. -/
theorem printHex_run (s : State) (world : World) :
    (printHex s).run world = (.ok 65, world.print (hexText s ++ [10])) := by
  have length := length_hexText s
  let o0 : Buffer := { bytes := [], capacity := 80, fits := by decide, sized := by decide }
  obtain ⟨o8, appended, bytes, -⟩ := o0.append_ok (l := hexText s) (by rw [length]; decide)
  have text : o8.bytes = hexText s := bytes
  have ln : o8.len = BitVec.ofNat 64 64 := by rw [Buffer.len, text, length]
  have newline := arraySet_arrayOf 0 (l := hexText s) (i := 64) (n := 72) length.symm (by decide)
    (by decide) 0xa
  have whole : (hexText s ++ [10]).length = 65 := by simp [length]
  have taken := take_arrayOf 0 (l := hexText s ++ [10]) (n := 72) (by rw [whole]; decide)
  rw [whole] at taken
  rw [printHex]
  have empty : Buffer.withCapacity 80 = pure o0 := rfl
  have filled := fill_loop (n := 72) o8 (by decide) (by rw [text, length]; decide)
  rw [empty, pure_bind, push_words, appended]
  simp only [Run.ok_bind, filled, pure_bind]
  simp only [text, ln, newline, pure_bind]
  have count : (64#64 + 1).toNat = 65 := rfl
  rw [Process.run_ofRun_bind]
  simp only [pure, Except.pure]
  rw [run_write (by rw [count]; simp), count, taken]
  rfl

/-! ### Hashing a string -/

/-- A string is hashed, or there is no room for its padding. -/
theorem hashString_eq (mem : Buffer) (small : mem.capacity ≤ memCap.toNat) :
    (do
      let padded ← pad mem mem.len
      hashBlocks padded (padded.len.sdiv 64)) =
    if paddedLength mem.bytes.length ≤ mem.capacity then
      pure (Sha256.hashBlocks (Sha256.padded mem.bytes) (paddedLength mem.bytes.length / 64))
    else throw .full := by
  have length : (mem.bytes ++ Sha256.padding mem.bytes.length).length =
      paddedLength mem.bytes.length := by
    rw [List.length_append, Sha256.length_padding, paddedLength, Nat.add_assoc]
  rw [pad_eq]
  by_cases room : paddedLength mem.bytes.length ≤ mem.capacity
  · obtain ⟨padded, appended, bytes, capacity⟩ := Buffer.append_ok (b := mem)
      (l := Sha256.padding mem.bytes.length) (by rwa [← List.length_append, length])
    have few : paddedLength mem.bytes.length / 64 ≤ maxEvalLoopIterations := by
      change _ ≤ 1048576 at small
      rw [maxEvalLoopIterations]
      omega
    rw [appended, if_pos room]
    change hashBlocks padded (padded.len.sdiv 64) = _
    rw [len_sdiv, bytes, length, hashBlocks_eq padded (by rw [bytes, length]; omega) few, bytes]
    rfl
  · rw [Buffer.append_full (by rw [← List.length_append, length]; omega), if_neg room]
    rfl

/-! ### Reading lines -/

structure Pos where
  p : I64
  go : Bool

structure NlR where
  raw : Buffer
  idx : I64

/-- The position of the first newline from a position on, or the end. -/
def scanNl (raw : Buffer) (start len : I64) : Run NlR := do
  let done ← loop { p := start, go := true : Pos } (fun a => a.go) step
  return { raw, idx := done.p }
where
  step (a : Pos) : Run Pos := do
    if len.sle a.p then return { p := a.p, go := false }
    else if (← raw.get a.p) == toU8 10 then return { p := a.p, go := false }
    else return { p := a.p + 1, go := true }

/-- One step along a line. -/
theorem scanNl_step (raw : Buffer) {start : Nat} {byte : UInt8} {rest : List UInt8}
    (there : raw.bytes.drop start = byte :: rest) :
    scanNl.step raw raw.len { p := BitVec.ofNat 64 start, go := true } =
      pure (if byte = 10 then { p := BitVec.ofNat 64 start, go := false }
        else { p := BitVec.ofNat 64 (start + 1), go := true }) := by
  have inside := Buffer.lt_length there
  rw [scanNl.step, raw.len_sle (Nat.le_of_lt inside), if_neg (by simpa using inside),
    Buffer.get_drop there, pure_bind, ofNat_succ]
  have newline : toU8 10 = 10 := by decide
  by_cases stop : byte = 10
  · rw [if_pos stop, if_pos (by rw [stop, newline]; rfl)]
  · rw [if_neg stop, if_neg (by rw [newline]; simpa using stop)]

/-- The scan goes along a line to the newline after it. -/
theorem scan_loop (raw : Buffer) (start : Nat) (line after : List UInt8) (plain : 10 ∉ line)
    (there : raw.bytes.drop start = line ++ 10 :: after) (left : Nat)
    (bounded : line.length < left) :
    Loop.loop (throw .endless) (fun a : Pos => a.go) (scanNl.step raw raw.len) left
      { p := BitVec.ofNat 64 start, go := true } =
      pure { p := BitVec.ofNat 64 (start + line.length), go := false } := by
  obtain ⟨left, rfl⟩ := Nat.exists_eq_succ_of_ne_zero (show left ≠ 0 by omega)
  induction line generalizing start left with
  | nil =>
    rw [Loop.loop_step rfl, scanNl_step raw there, if_pos rfl, pure_bind, Loop.loop_done rfl]
    rfl
  | cons byte line ih =>
    have other : byte ≠ 10 := fun same => plain (same ▸ List.mem_cons_self)
    have tail : raw.bytes.drop (start + 1) = line ++ 10 :: after := by
      rw [← List.drop_drop, there]
      rfl
    simp only [List.length_cons] at bounded
    obtain ⟨left, rfl⟩ := Nat.exists_eq_succ_of_ne_zero (show left ≠ 0 by omega)
    rw [Loop.loop_step rfl, scanNl_step raw there, if_neg other, pure_bind,
      ih (start + 1) (fun listed => plain (List.mem_cons_of_mem _ listed)) tail left (by omega),
      List.length_cons, Nat.add_right_comm, Nat.add_assoc]

/-- The first newline is the one after the line. -/
theorem scanNl_eq (raw : Buffer) (start : Nat) (line after : List UInt8) (plain : 10 ∉ line)
    (there : raw.bytes.drop start = line ++ 10 :: after)
    (short : line.length < maxEvalLoopIterations) :
    scanNl raw (BitVec.ofNat 64 start) raw.len =
      pure { raw, idx := BitVec.ofNat 64 (start + line.length) } := by
  rw [scanNl, loop, scan_loop raw start line after plain there _ short]
  rfl

/-! ### Objects -/

structure PB where
  p : Buffer
  i : I64

structure PR where
  out : Buffer
  raw : Buffer

structure PRi where
  out : Buffer
  raw : Buffer
  i : I64

def pushDomain (out : Buffer) : Run Buffer := do
  let dom := utf8 "codedb/object/v1\x00"
  let n := BitVec.ofNat 64 dom.length
  let done ← loop { p := out, i := 0 : PB } (fun a => a.i.slt n) fun cur => do
    let pp ← cur.p.push (← sliceGet dom cur.i)
    return { p := pp, i := cur.i + 1 }
  return done.p

def appendAll (out raw : Buffer) (n : I64) : Run PR := do
  let done ← loop { out, raw, i := 0 : PRi } (fun a => a.i.slt n) fun cur => do
    let b ← cur.raw.get cur.i
    let oo ← cur.out.push b
    return { out := oo, raw := cur.raw, i := cur.i + 1 }
  return { out := done.out, raw := done.raw }

/-- The domain is appended, or there is no room for it. -/
theorem pushDomain_eq (out : Buffer) : pushDomain out = out.append (utf8 objectDomain) := by
  have small : (utf8 objectDomain).length = 17 := by decide
  let along (b : Buffer) (i : Nat) : PB := { p := b, i := BitVec.ofNat 64 i }
  have pushed := push_loop (throw .endless)
    (fun a : PB => a.i.slt (BitVec.ofNat 64 (utf8 objectDomain).length))
    (fun cur => do
      let pp ← cur.p.push (← sliceGet (utf8 objectDomain) cur.i)
      return { p := pp, i := cur.i + 1 }) (utf8 objectDomain) along
    (fun b i inside => slt_ofNat (by omega) (by omega))
    (fun b i inside => by
      have byte := sliceGet_eq _ (show i < 2 ^ 63 by omega) (List.getElem?_eq_getElem inside)
      have next : (along b i).i + 1 = BitVec.ofNat 64 (i + 1) := ofNat_succ i
      simp only [next]
      simp only [along, byte, pure_bind])
    out 0 (Nat.zero_le _) maxEvalLoopIterations (by rw [small, maxEvalLoopIterations]; omega)
  rw [pushDomain, loop]
  change Loop.loop _ _ _ _ (along out 0) >>= _ = _
  rw [objectDomain] at pushed ⊢
  rw [pushed, List.drop_zero, bind_assoc]
  simp only [pure_bind, along, bind_pure]

/-- A string is appended as a whole, or there is no room for it. -/
theorem appendAll_eq (out raw : Buffer) (short : raw.bytes.length ≤ maxEvalLoopIterations) :
    appendAll out raw raw.len = out.append raw.bytes >>= fun c => pure { out := c, raw } := by
  let along (b : Buffer) (i : Nat) : PRi := { out := b, raw, i := BitVec.ofNat 64 i }
  have small := raw.length_small
  rw [appendAll, loop]
  have pushed := push_loop (throw .endless) (fun a : PRi => a.i.slt raw.len)
    (fun cur => do
      let b ← cur.raw.get cur.i
      let oo ← cur.out.push b
      return { out := oo, raw := cur.raw, i := cur.i + 1 }) raw.bytes along
    (fun b i inside => slt_ofNat (by omega) small)
    (fun b i inside => by
      have byte := raw.get_eq (List.getElem?_eq_getElem inside)
      have next : (along b i).i + 1 = BitVec.ofNat 64 (i + 1) := ofNat_succ i
      simp only [next]
      simp only [along, byte, pure_bind])
    out 0 (Nat.zero_le _) maxEvalLoopIterations (by omega)
  change Loop.loop _ _ _ _ (along out 0) >>= _ = _
  rw [pushed, List.drop_zero, bind_assoc]
  simp only [pure_bind, along]

/-- Put a domain before an object and separators for its newlines. -/
def frame (raw : Buffer) : Run Buffer := do
  let rawlen := raw.len
  let n1 ← scanNl raw 0 rawlen
  let i1 := n1.idx
  let n2 ← scanNl n1.raw (i1 + 1) rawlen
  let i2 := n2.idx
  let r2 ← n2.raw.set i1 (toU8 0)
  let r2 ← r2.set i2 (toU8 0)
  let pre0 ← Buffer.withCapacity memCap
  let pre1 ← pushDomain pre0
  let app ← appendAll pre1 r2 rawlen
  return app.out

/-- What an object is hashed as. -/
def preimage (kind schema payload : List UInt8) : List UInt8 :=
  utf8 objectDomain ++ (kind ++ 0 :: (schema ++ 0 :: payload))

/-- An object is framed, or there is no room for it. -/
theorem frame_eq (raw : Buffer) (small : raw.capacity ≤ memCap.toNat)
    {kind schema payload : List UInt8} (plainKind : 10 ∉ kind) (plainSchema : 10 ∉ schema)
    (lines : raw.bytes = kind ++ 10 :: (schema ++ 10 :: payload)) :
    frame raw = empty.append (preimage kind schema payload) := by
  have fits := raw.fits
  have bounded : raw.bytes.length ≤ 1048576 := Nat.le_trans fits small
  have length : kind.length + schema.length + payload.length + 2 = raw.bytes.length := by
    rw [lines]
    simp
    omega
  have first : scanNl raw 0 raw.len = pure { raw, idx := BitVec.ofNat 64 kind.length } := by
    have found := scanNl_eq raw 0 kind _ plainKind (by rw [lines]; rfl)
      (by rw [maxEvalLoopIterations]; omega)
    rwa [Nat.zero_add] at found
  have rest : raw.bytes.drop (kind.length + 1) = schema ++ 10 :: payload := by
    rw [lines, ← List.drop_drop, List.drop_left]
    rfl
  have second := scanNl_eq raw (kind.length + 1) schema _ plainSchema rest
    (by rw [maxEvalLoopIterations]; omega)
  obtain ⟨r1, set₁, bytes₁⟩ := raw.set_ok (i := kind.length) (by omega) (toU8 0)
  obtain ⟨r2, set₂, bytes₂⟩ := r1.set_ok (i := kind.length + 1 + schema.length)
    (by rw [bytes₁, List.length_set]; omega) (toU8 0)
  have replaced : r2.bytes = kind ++ 0 :: (schema ++ 0 :: payload) := by
    rw [bytes₂, bytes₁, lines, List.set_append_right _ _ (Nat.le_refl _), Nat.sub_self,
      List.set_cons_zero, List.set_append_right _ _ (by omega)]
    have inner : kind.length + 1 + schema.length - kind.length = schema.length + 1 := by omega
    rw [inner, List.set_cons_succ, List.set_append_right _ _ (Nat.le_refl _), Nat.sub_self]
    rfl
  have len : raw.len = r2.len := by
    rw [Buffer.len, Buffer.len, bytes₂, bytes₁, List.length_set, List.length_set]
  have short : r2.bytes.length ≤ maxEvalLoopIterations := by
    rw [bytes₂, bytes₁, List.length_set, List.length_set, maxEvalLoopIterations]
    omega
  have room : Buffer.withCapacity memCap = .ok empty := rfl
  simp only [frame, first, pure_bind, ofNat_succ, second, set₁, set₂, Run.ok_bind, room,
    pushDomain_eq]
  simp only [len, appendAll_eq _ r2 short, bind_assoc, pure_bind, bind_pure]
  rw [Buffer.append_append, replaced]
  rfl

/-! ### Programs -/

def main : Process I64 := do
  let raw ← readAll (← Process.ofRun (Buffer.withCapacity memCap))
  let final ← Process.ofRun do
    let msglen := raw.len
    let padded ← pad raw msglen
    let nblocks := padded.len.sdiv 64
    hashBlocks padded nblocks
  let _ ← printHex final
  return 0

def objHash : Process I64 := do
  let raw ← readAll (← Process.ofRun (Buffer.withCapacity memCap))
  let st ← Process.ofRun do
    let preimage ← frame raw
    let msglen := preimage.len
    let padded ← pad preimage msglen
    let nblocks := padded.len.sdiv 64
    hashBlocks padded nblocks
  let _ ← printStatic (utf8 "sha256:")
  let _ ← printHex st
  return 0

/-- The digits of a hash. -/
theorem hexText_hashBlocks (message : List UInt8) :
    hexText (Sha256.hashBlocks (Sha256.padded message) (paddedLength message.length / 64)) =
      utf8 (String.ofList (hexEncode (digest message))) := rfl

/-- A string that is appended to an empty one is kept, or there is no room for it. -/
theorem append_empty (l : List UInt8) :
    (∃ raw : Buffer, empty.append l = .ok raw ∧ raw.bytes = l ∧ raw.capacity = memCap.toNat) ∨
      (memCap.toNat < l.length ∧ empty.append l = .error .full) := by
  by_cases room : l.length ≤ memCap.toNat
  · have fits : empty.bytes.length + l.length ≤ empty.capacity := by
      change 0 + l.length ≤ memCap.toNat
      omega
    exact .inl (Buffer.append_ok fits)
  · have full : empty.capacity < empty.bytes.length + l.length := by
      change memCap.toNat < 0 + l.length
      omega
    exact .inr ⟨Nat.lt_of_not_le room, Buffer.append_full full⟩

/-- `main` prints the digest of what it reads, or traps before it prints. -/
theorem main_run (stdin stdout : List UInt8) :
    ∃ rest, main.run { stdin, stdout } =
      if paddedLength stdin.length ≤ memCap.toNat then
        (.ok 0, World.print { stdin := rest, stdout }
          (utf8 (String.ofList (hexEncode (digest stdin))) ++ [10]))
      else (.error .full, { stdin := rest, stdout }) := by
  obtain ⟨rest, run⟩ := readAll_run empty stdin stdout (by decide)
  refine ⟨rest, ?_⟩
  have created : Buffer.withCapacity memCap = .ok empty := rfl
  rw [main, Process.run_ofRun_bind, created]
  simp only
  rw [Process.run_bind, run]
  rcases append_empty stdin with ⟨raw, appended, bytes, capacity⟩ | ⟨long, appended⟩
  · rw [appended]
    simp only
    rw [Process.run_ofRun_bind, hashString_eq raw (Nat.le_of_eq capacity), bytes, capacity]
    by_cases fits : paddedLength stdin.length ≤ memCap.toNat
    · rw [if_pos fits, if_pos fits]
      simp only [pure, Except.pure]
      rw [Process.run_bind, printHex_run, hexText_hashBlocks]
      rfl
    · rw [if_neg fits, if_neg fits]
      rfl
  · rw [appended, if_neg (by rw [paddedLength]; omega)]

/-- `objHash` prints the hash of an object, or traps before it prints. -/
theorem objHash_run {kind schema payload : List UInt8} (plainKind : 10 ∉ kind)
    (plainSchema : 10 ∉ schema) (stdout : List UInt8) :
    ∃ rest, objHash.run { stdin := kind ++ 10 :: (schema ++ 10 :: payload), stdout } =
      if paddedLength (preimage kind schema payload).length ≤ memCap.toNat then
        (.ok 0, World.print { stdin := rest, stdout } (utf8 "sha256:" ++
          (utf8 (String.ofList (hexEncode (digest (preimage kind schema payload)))) ++ [10])))
      else (.error .full, { stdin := rest, stdout }) := by
  obtain ⟨rest, run⟩ := readAll_run empty (kind ++ 10 :: (schema ++ 10 :: payload)) stdout
    (by decide)
  refine ⟨rest, ?_⟩
  have created : Buffer.withCapacity memCap = .ok empty := rfl
  have longer : (kind ++ 10 :: (schema ++ 10 :: payload)).length ≤
      (preimage kind schema payload).length := by
    simp [preimage]
  rw [objHash, Process.run_ofRun_bind, created]
  simp only
  rw [Process.run_bind, run]
  rcases append_empty (kind ++ 10 :: (schema ++ 10 :: payload)) with
    ⟨raw, appended, lines, capacity⟩ | ⟨long, appended⟩
  · rw [appended]
    simp only
    rw [Process.run_ofRun_bind, frame_eq raw (Nat.le_of_eq capacity) plainKind plainSchema lines]
    rcases append_empty (preimage kind schema payload) with
      ⟨framed, appended, bytes, capacity⟩ | ⟨long, appended⟩
    · rw [appended, Run.ok_bind, hashString_eq framed (Nat.le_of_eq capacity), bytes, capacity]
      by_cases fits : paddedLength (preimage kind schema payload).length ≤ memCap.toNat
      · rw [if_pos fits, if_pos fits]
        simp only [pure, Except.pure]
        obtain ⟨written, printed⟩ := printStatic_writes (s := utf8 "sha256:") (by decide)
          (by decide) { stdin := rest, stdout }
        rw [Process.run_bind, printed]
        simp only
        rw [Process.run_bind, printHex_run, hexText_hashBlocks, World.print_print]
        rfl
      · rw [if_neg fits, if_neg fits]
        rfl
    · rw [appended, Run.error_bind, if_neg (by rw [paddedLength]; omega)]
  · rw [appended, if_neg (by rw [paddedLength]; omega)]

/-! ### The hash the store computes -/

/-- A text without a newline has no byte of one. -/
theorem newline_utf8 {s : String} (plain : '\n' ∉ s.toList) : 10 ∉ utf8 s := by
  intro part
  rw [← String.ofList_toList (s := s), utf8_ofList] at part
  exact plain (Utf8.mem_encode (by decide) part)

/-- The text of a number has no newline. -/
theorem newline_toString (n : Int) : '\n' ∉ (toString n).toList := by
  have digits (m : Nat) : '\n' ∉ m.repr.toList := by
    rw [Nat.toList_repr]
    intro listed
    exact absurd (Nat.isDigit_of_mem_toDigits (by decide) (by decide) listed) (by decide)
  rw [Int.toString_eq_repr, Int.repr_eq_if]
  split
  · exact digits _
  · rw [String.toList_append, List.mem_append]
    rintro (sign | listed)
    · exact absurd sign (by decide)
    · exact digits _ listed

/-- Pushing the words of a state one after the other. -/
theorem foldlM_pushWordHex (out : Buffer) (s : State) :
    s.toList.foldlM pushWordHex out = out.append (hexText s) := by
  have pushed := push_words out s pure
  rw [bind_pure] at pushed
  rw [← pushed]
  rfl

/-- `objHash` prints a hash for an object given line by line, or there is no room for the object
and it traps before it prints. -/
def PrintsHash (kind schema payload : String) (hash : Hash) : Prop :=
  let (result, world) := objHash.run
    { stdin := utf8 (kind ++ "\n" ++ schema ++ "\n" ++ payload), stdout := [] }
  (result, world.stdout) =
    if paddedLength (preimage (utf8 kind) (utf8 schema) (utf8 payload)).length ≤ memCap.toNat then
      (.ok 0, utf8 (hash ++ "\n"))
    else (.error .full, [])

/-- What is printed for an object whose kind and version are texts of one line. -/
theorem printsHash (P : Primitives) {kind schema : String} (plainKind : '\n' ∉ kind.toList)
    (plainSchema : '\n' ∉ schema.toList) (payload : String) :
    PrintsHash kind schema payload (hashBytes { P with sha256 := digest } objectDomain
      (utf8 kind ++ [0] ++ utf8 schema ++ [0] ++ utf8 payload)) := by
  have newline : utf8 "\n" = [10] := by decide
  have lines : utf8 (kind ++ "\n" ++ schema ++ "\n" ++ payload) =
      utf8 kind ++ 10 :: (utf8 schema ++ 10 :: utf8 payload) := by
    simp [utf8_append, newline]
  obtain ⟨rest, run⟩ := @objHash_run _ _ (utf8 payload) (newline_utf8 plainKind)
    (newline_utf8 plainSchema) []
  rw [PrintsHash, lines, run]
  by_cases fits : paddedLength (preimage (utf8 kind) (utf8 schema) (utf8 payload)).length ≤
      memCap.toNat
  · rw [if_pos fits, if_pos fits]
    simp [World.print, hashBytes, utf8_append, newline, preimage]
  · rw [if_neg fits, if_neg fits]

/-- The self-hosted hash is SHA-256 of a string that has room for its padding, and it is the hash
the store computes of an object that has. -/
theorem selfHosted_sha256 (P : Primitives) :
    (∀ mem : Buffer, mem.capacity = memCap.toNat → paddedLength mem.bytes.length ≤ mem.capacity →
      ∃ padded st, pad mem mem.len = .ok padded ∧
        hashBlocks padded (padded.len.sdiv 64) = .ok st ∧
        ∀ out : Buffer, out.bytes.length + 64 ≤ out.capacity →
          ∃ written, st.toList.foldlM pushWordHex out = .ok written ∧
            written.bytes = out.bytes ++ utf8 (String.ofList (hexEncode (digest mem.bytes)))) ∧
    (∀ kind schema payload : String, '\n' ∉ kind.toList → '\n' ∉ schema.toList →
      PrintsHash kind schema payload (hashBytes { P with sha256 := digest } objectDomain
        (utf8 kind ++ [0] ++ utf8 schema ++ [0] ++ utf8 payload))) ∧
    (∀ (kind payload : String) (schemaVersion : Int), '\n' ∉ kind.toList →
      PrintsHash kind (toString schemaVersion) payload
        (hashObjectCanonical { P with sha256 := digest } kind schemaVersion payload)) := by
  refine ⟨fun mem capacity fits => ?_, fun kind schema payload plainKind plainSchema =>
    printsHash P plainKind plainSchema payload, fun kind payload schemaVersion plain =>
    printsHash P plain (newline_toString schemaVersion) payload⟩
  have hashed := hashString_eq mem (Nat.le_of_eq capacity)
  rw [if_pos fits] at hashed
  obtain ⟨padded, padding, hashed⟩ := Except.bind_eq_ok.mp hashed
  refine ⟨padded, _, padding, hashed, fun out room => ?_⟩
  obtain ⟨written, appended, bytes, -⟩ := out.append_ok
    (l := utf8 (String.ofList (hexEncode (digest mem.bytes))))
    (by rw [← hexText_hashBlocks mem.bytes, length_hexText]; exact room)
  exact ⟨written, by rw [foldlM_pushWordHex]; exact appended, bytes⟩

/-- A string with three letters. -/
def abc : Buffer :=
  { bytes := [0x61, 0x62, 0x63], capacity := memCap.toNat, fits := by decide, sized := by decide }

/-- Three letters are hashed, and so is an object with an empty payload. -/
theorem selfHosted_sha256_abc :
    (∃ padded st written, pad abc abc.len = .ok padded ∧
      hashBlocks padded (padded.len.sdiv 64) = .ok st ∧
      st.toList.foldlM pushWordHex empty = .ok written ∧
      written.bytes = utf8 "ba7816bf8f01cfea414140de5dae2223b00361a396177a9cb410ff61f20015ad") ∧
    PrintsHash "Symbol" "two" "{}" (hashBytes { plain with sha256 := digest } objectDomain
      (utf8 "Symbol" ++ [0] ++ utf8 "two" ++ [0] ++ utf8 "{}")) ∧
    PrintsHash "Symbol" (toString (1 : Int)) "{}"
      (hashObjectCanonical { plain with sha256 := digest } "Symbol" 1 "{}") := by
  obtain ⟨strings, texts, objects⟩ := selfHosted_sha256 plain
  obtain ⟨padded, st, padding, hashed, written⟩ := strings abc rfl (by decide)
  obtain ⟨written, pushed, bytes⟩ := written empty (by decide)
  refine ⟨⟨padded, st, written, padding, hashed, pushed, ?_⟩,
    texts "Symbol" "two" "{}" (by decide) (by decide), objects "Symbol" "{}" 1 (by decide)⟩
  have known : String.ofList (hexEncode (digest abc.bytes)) =
      "ba7816bf8f01cfea414140de5dae2223b00361a396177a9cb410ff61f20015ad" := by decide +kernel
  rw [bytes, known]
  rfl

end SelfHosted

end CodeDb

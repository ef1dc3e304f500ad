import CodeDb.SelfHosted.Runtime

/-!
# Reading and writing

Self-hosted programs read their standard input byte by byte into a string and write from arrays
and slices.

## Main definitions

* `World`, `Process` — computations that read and write
* `readAll`, `printStatic` — what the programs share

## Main results

* `readAll_run` — the standard input is read as a whole, or the program traps
* `fill_loop` — a string is copied into an array to be written from
-/

namespace CodeDb

namespace SelfHosted

/-- What a process has not read yet, and what it has written. -/
structure World where
  stdin : List UInt8
  stdout : List UInt8

namespace World

/-- A world in which more is written. -/
def print (world : World) (bytes : List UInt8) : World :=
  { world with stdout := world.stdout ++ bytes }

@[simp] theorem stdout_print (world : World) (bytes : List UInt8) :
    (world.print bytes).stdout = world.stdout ++ bytes := rfl

theorem print_print (world : World) (bytes bytes' : List UInt8) :
    (world.print bytes).print bytes' = world.print (bytes ++ bytes') := by
  simp [print]

end World

/-- Computations that read and write, and may trap. -/
abbrev Process (α : Type) := ExceptT Trap (StateM World) α

namespace Process

variable {α β : Type}

/-- Run a process in a world. -/
def run (p : Process α) (world : World) : Run α × World := ExceptT.run p world

/-- What neither reads nor writes. -/
def ofRun (r : Run α) : Process α := ExceptT.mk (pure r)

@[simp] theorem run_ofRun (r : Run α) (world : World) : (ofRun r).run world = (r, world) := rfl

@[simp] theorem run_pure (a : α) (world : World) :
    (pure a : Process α).run world = (.ok a, world) := rfl

theorem run_bind (p : Process α) (f : α → Process β) (world : World) :
    (p >>= f).run world = match p.run world with
      | (.ok a, next) => (f a).run next
      | (.error trap, next) => (.error trap, next) := by
  change (Prod.rec (fun r next => (ExceptT.bindCont f r : StateM World (Run β)) next)
    (p.run world) : Run β × World) = _
  rcases p.run world with ⟨r, next⟩
  cases r <;> rfl

/-- What is computed first, and then the rest. -/
theorem run_ofRun_bind (r : Run α) (f : α → Process β) (world : World) :
    (ofRun r >>= f).run world = match r with
      | .ok a => (f a).run world
      | .error trap => (.error trap, world) := by
  rw [run_bind, run_ofRun]
  cases r <;> rfl

/-- A process that writes bytes and comes to an end. -/
def Writes (p : Process α) (bytes : List UInt8) : Prop :=
  ∀ world, ∃ a, p.run world = (.ok a, world.print bytes)

/-- What one process writes, and then what another does. -/
theorem Writes.append {p : Process α} {q : Process β} {bytes bytes' : List UInt8}
    (first : Writes p bytes) (second : Writes q bytes') :
    Writes (p >>= fun _ => q) (bytes ++ bytes') := by
  intro world
  obtain ⟨a, one⟩ := first world
  obtain ⟨b, other⟩ := second (world.print bytes)
  refine ⟨b, ?_⟩
  rw [run_bind, one, ← World.print_print]
  exact other

end Process

/-- `std.platform.read` of a byte into an array of one: how many bytes there were. -/
def read (bounce : Vector UInt8 1) : Process (I64 × Vector UInt8 1) := do
  let world ← getThe World
  match world.stdin with
  | [] => return (0, bounce)
  | byte :: rest =>
    set { world with stdin := rest }
    return (1, bounce.set 0 byte Nat.zero_lt_one)

/-- `std.platform.write` of the first bytes of an array or a slice: how many bytes were
written. -/
def write (source : List UInt8) (count : I64) : Process I64 := do
  if count.toNat ≤ source.length then
    modify fun world => world.print (source.take count.toNat)
    return count
  else throw .outOfBounds

theorem run_read_cons (bounce : Vector UInt8 1) (byte : UInt8) (rest stdout : List UInt8) :
    (read bounce).run { stdin := byte :: rest, stdout } =
      (.ok (1, bounce.set 0 byte Nat.zero_lt_one), { stdin := rest, stdout }) := rfl

theorem run_write {source : List UInt8} {count : I64} (inside : count.toNat ≤ source.length)
    (world : World) :
    (write source count).run world = (.ok count, world.print (source.take count.toNat)) := by
  rw [write, if_pos inside]
  rfl

/-! ### The standard input -/

/-- What is read so far, and whether there may be more. -/
structure Pump where
  mem : Buffer
  more : Bool

/-- `read_all`. The array that bytes are read into lives across the iterations. -/
def readAll (mem : Buffer) : Process Buffer := do
  let bounce : Vector UInt8 1 := #v[0]
  let done ← loop (({ mem, more := true } : Pump), bounce) (fun s => s.1.more) pumpByte
  return done.1.mem
where
  pumpByte : Pump × Vector UInt8 1 → Process (Pump × Vector UInt8 1) := fun (cur, bounce) => do
    let (n, bounce) ← read bounce
    if n.sle 0 then return ({ mem := cur.mem, more := false }, bounce)
    else do
      let m ← Process.ofRun (cur.mem.push (bounce.get 0))
      return ({ mem := m, more := true }, bounce)

theorem readFrom_run (stdin stdout : List UInt8) (mem : Buffer) (bounce : Vector UInt8 1)
    (left : Nat) (bounded : mem.capacity < mem.bytes.length + left) :
    ∃ rest last, Process.run (Loop.loop (throw .endless) (fun s => s.1.more) readAll.pumpByte left
      (({ mem, more := true } : Pump), bounce)) { stdin, stdout } =
      (mem.append stdin >>= fun m => pure ({ mem := m, more := false }, last),
        { stdin := rest, stdout }) := by
  have fits := mem.fits
  obtain ⟨left, rfl⟩ := Nat.exists_eq_succ_of_ne_zero (show left ≠ 0 by omega)
  induction stdin generalizing mem bounce left with
  | nil =>
    refine ⟨[], bounce, ?_⟩
    have step : (readAll.pumpByte ({ mem, more := true }, bounce)).run { stdin := [], stdout } =
        (.ok ({ mem, more := false }, bounce), { stdin := [], stdout }) := rfl
    rw [Loop.loop_step rfl, Process.run_bind, step]
    simp only
    rw [Loop.loop_done rfl, Buffer.append_nil]
    rfl
  | cons byte stdin ih =>
    have step : (readAll.pumpByte ({ mem, more := true }, bounce)).run
        { stdin := byte :: stdin, stdout } =
        (mem.push byte >>= fun m =>
          pure ({ mem := m, more := true }, bounce.set 0 byte Nat.zero_lt_one),
          { stdin, stdout }) := by
      have kept : (bounce.set 0 byte Nat.zero_lt_one).get 0 = byte :=
        Vector.getElem_set_self Nat.zero_lt_one
      rw [readAll.pumpByte, Process.run_bind, run_read_cons]
      change Process.run (Process.ofRun (mem.push ((bounce.set 0 byte Nat.zero_lt_one).get 0)) >>=
        fun m =>
        (pure (({ mem := m, more := true } : Pump), bounce.set 0 byte Nat.zero_lt_one) :
          Process (Pump × Vector UInt8 1))) { stdin, stdout } = _
      rw [kept, Process.run_bind, Process.run_ofRun]
      cases mem.push byte <;> rfl
    rw [Loop.loop_step rfl, Process.run_bind, step, ← Buffer.push_bind_append]
    cases pushed : mem.push byte with
    | error trap => exact ⟨stdin, bounce, rfl⟩
    | ok next =>
      obtain ⟨bytes, capacity⟩ := Buffer.append_eq_ok.mp pushed
      have length : next.bytes.length = mem.bytes.length + 1 := by simp [bytes]
      have fits := next.fits
      obtain ⟨left, rfl⟩ := Nat.exists_eq_succ_of_ne_zero (show left ≠ 0 by omega)
      exact ih next (bounce.set 0 byte Nat.zero_lt_one) fits left (by omega)

/-- The standard input is read as a whole, or there is no room for it. -/
theorem readAll_run (mem : Buffer) (stdin stdout : List UInt8)
    (bounded : mem.capacity < maxEvalLoopIterations) :
    ∃ rest, (readAll mem).run { stdin, stdout } =
      (mem.append stdin, { stdin := rest, stdout }) := by
  obtain ⟨rest, last, run⟩ := readFrom_run stdin stdout mem #v[0] maxEvalLoopIterations (by omega)
  refine ⟨rest, ?_⟩
  rw [readAll, Process.run_bind, loop, run]
  cases mem.append stdin <;> rfl

/-! ### Output -/

/-- An array that output is put together in. -/
structure OutBuf (n : Nat) where
  b : Vector UInt8 n
  i : I64

/-- A string is copied into an array. -/
theorem fill_loop {n : Nat} (o : Buffer) (small : n ≤ maxEvalLoopIterations)
    (short : o.bytes.length ≤ n) :
    loop { b := Vector.replicate n 0, i := 0 : OutBuf n } (fun st => st.i.slt o.len) (fun st =>
      do return { b := ← arraySet st.b st.i (← o.get st.i), i := st.i + 1 }) =
      (pure { b := arrayOf 0 n o.bytes, i := o.len } : Run (OutBuf n)) := by
  let along (i : Nat) : OutBuf n := { b := arrayOf 0 n (o.bytes.take i), i := BitVec.ofNat 64 i }
  have more (i : Nat) (hi : i ≤ o.bytes.length) :
      (along i).i.slt o.len = decide (i < o.bytes.length) :=
    slt_ofNat (Nat.lt_of_le_of_lt hi o.length_small) o.length_small
  have seed : ({ b := Vector.replicate n 0, i := 0 } : OutBuf n) = along 0 := by
    rw [← arrayOf_nil]
    rfl
  have all : along o.bytes.length = { b := arrayOf 0 n o.bytes, i := o.len } := by
    simp only [along, List.take_length]
    rfl
  rw [seed, ← all, loop]
  apply Loop.loop_along along
  · intro i hi
    rw [more i (Nat.le_of_lt hi), decide_eq_true hi]
  · intro i hi
    have next : (along i).i + 1 = BitVec.ofNat 64 (i + 1) := ofNat_succ i
    have byte := o.get_eq (List.getElem?_eq_getElem hi)
    have put := arraySet_arrayOf 0 (l := o.bytes.take i) (i := i) (n := n)
      (by rw [List.length_take]; omega) (Nat.lt_of_le_of_lt small (by decide)) (by omega) o.bytes[i]
    rw [next]
    simp only [along, byte, pure_bind, put, List.take_append_getElem hi]
  · rw [more _ (Nat.le_refl _), decide_eq_false (Nat.lt_irrefl _)]
  · exact Nat.le_trans short small

def printStatic (s : List UInt8) : Process I64 := do
  let _ ← Process.ofRun (sliceGet s 0)
  write s (BitVec.ofNat 64 s.length)

/-- A text is written as a whole. -/
theorem printStatic_writes {s : List UInt8} (text : s ≠ []) (short : s.length < 2 ^ 63) :
    (printStatic s).Writes s := by
  intro world
  obtain ⟨first, rest, rfl⟩ := List.exists_cons_of_ne_nil text
  have there : sliceGet (first :: rest) 0 = .ok first := rfl
  have count := toNat_ofNat short
  refine ⟨BitVec.ofNat 64 (first :: rest).length, ?_⟩
  rw [printStatic, Process.run_ofRun_bind, there]
  simp only
  rw [run_write (by rw [count]), count, List.take_length]

end SelfHosted

end CodeDb

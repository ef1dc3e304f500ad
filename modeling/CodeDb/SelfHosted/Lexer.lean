import CodeDb.SelfHosted.Format
import CodeDb.SelfHosted.Platform

/-!
# The self-hosted lexer

The lexer of the self-hosted front end goes over the bytes of a source text and folds the kind
and the text of every token into a digest.

The digest is a parameter of the loops, so that what is folded into it can be told from what it
is: folding into a list gives the sequence of bytes.

## Main definitions

* `scanEnd`, `foldBytes`, `foldStrlit` — the inner loops
* `step`, `scan` — a token, and all of them
* `probe` — the program

The program reads its standard input and prints how many tokens there were and their digest.
-/

namespace CodeDb

namespace SelfHosted

namespace Lexer

/-! ### Bytes -/

def isWs (b : I64) : Bool := b == 32 || b == 9 || b == 10 || b == 13 || b == 11 || b == 12

def isAlpha (b : I64) : Bool :=
  BitVec.sle 97 b && BitVec.sle b 122 || BitVec.sle 65 b && BitVec.sle b 90

def isIdentStart (b : I64) : Bool := isAlpha b || b == 95

def isAlnumUs (b : I64) : Bool := isAlpha b || BitVec.sle 48 b && BitVec.sle b 57 || b == 95

def isDigit (b : I64) : Bool := BitVec.sle 48 b && BitVec.sle b 57

def isHex (b : I64) : Bool :=
  isDigit b || BitVec.sle 97 b && BitVec.sle b 102 || BitVec.sle 65 b && BitVec.sle b 70

def isTwoChar (a b : I64) : Bool :=
  a == 45 && b == 62 || a == 61 && b == 61 || a == 33 && b == 61 || a == 60 && b == 61 ||
    a == 62 && b == 61 || a == 38 && b == 38 || a == 124 && b == 124 || a == 58 && b == 58 ||
    a == 61 && b == 62 || a == 46 && b == 46

/-- The value of a hexadecimal digit. -/
def hexv (b : I64) : I64 :=
  if BitVec.sle 48 b && BitVec.sle b 57 then b - 48
  else if BitVec.sle 97 b && BitVec.sle b 102 then b - 97 + 10
  else if BitVec.sle 65 b && BitVec.sle b 70 then b - 65 + 10
  else 0

def decodeEscape (e : I64) : I64 :=
  if e == 110 then 10
  else if e == 116 then 9
  else if e == 48 then 0
  else e

/-! ### Scans -/

/-- A cursor, and whether to go on. -/
structure P2 where
  p : I64
  go : Bool

structure SE where
  mem : Buffer
  stop : I64

/-- Whether a byte belongs to the text that is scanned in a mode. -/
def continues (mode b : I64) : Bool :=
  if mode == 0 then isAlnumUs b
  else if mode == 1 then isDigit b
  else if mode == 2 then isHex b
  else b != 10

def scanEnd (mem : Buffer) (p0 len mode : I64) : Run SE := do
  let done ← loop { p := p0, go := true : P2 } (fun a => a.go) step
  return { mem, stop := done.p }
where
  step (a : P2) : Run P2 := do
    if len.sle a.p then return { p := a.p, go := false }
    else
      let b := toI64 (← mem.get a.p)
      if continues mode b then return { p := a.p + 1, go := true }
      else return { p := a.p, go := false }

section Digest

variable {δ : Type} (fold : δ → I64 → δ)

/-- A digest, and how far it has come. -/
structure P2h (δ : Type) where
  h : δ
  j : I64

structure HF (δ : Type) where
  mem : Buffer
  hash : δ

def foldBytes (mem : Buffer) (ts te : I64) (h0 : δ) : Run (HF δ) := do
  let done ← loop { h := h0, j := ts : P2h δ } (fun a => a.j.slt te) fun a => do
    return { h := fold a.h (toI64 (← mem.get a.j)), j := a.j + 1 }
  return { mem, hash := done.h }

/-- A digest, a cursor, and whether to go on. -/
structure StrAcc (δ : Type) where
  h : δ
  p : I64
  go : Bool

structure SF (δ : Type) where
  mem : Buffer
  hash : δ
  next : I64

def foldStrlit (mem : Buffer) (p0 len : I64) (h0 : δ) (isByte : Bool) : Run (SF δ) := do
  let done ← loop { h := h0, p := p0, go := true : StrAcc δ } (fun a => a.go) step
  return { mem, hash := done.h, next := done.p }
where
  step (a : StrAcc δ) : Run (StrAcc δ) := do
    if len.sle a.p then return { h := a.h, p := a.p, go := false }
    else
      let c := toI64 (← mem.get a.p)
      if c == 34 then return { h := a.h, p := a.p + 1, go := false }
      else if c == 92 && (a.p + 1).slt len then
        let e := toI64 (← mem.get (a.p + 1))
        if e == 120 && isByte && (a.p + 3).slt len then
          let hi := toI64 (← mem.get (a.p + 2))
          let lo := toI64 (← mem.get (a.p + 3))
          let byte := sal (hexv hi) 4 ||| hexv lo
          return { h := fold a.h byte, p := a.p + 4, go := true }
        else return { h := fold a.h (decodeEscape e), p := a.p + 2, go := true }
      else return { h := fold a.h c, p := a.p + 1, go := true }

/-! ### Tokens -/

/-- The text of a token, its kind, and where the next one starts. -/
structure Geo where
  mem : Buffer
  ts : I64
  te : I64
  kind : I64
  next : I64

def classify (mem : Buffer) (i b b1 len : I64) : Run Geo := do
  if isIdentStart b then
    let se ← scanEnd mem (i + 1) len 0
    return { mem := se.mem, ts := i, te := se.stop, kind := 1, next := se.stop }
  else if isDigit b then
    if b == 48 && (b1 == 120 || b1 == 88) then
      let se ← scanEnd mem (i + 2) len 2
      return { mem := se.mem, ts := i, te := se.stop, kind := 2, next := se.stop }
    else
      let se ← scanEnd mem (i + 1) len 1
      return { mem := se.mem, ts := i, te := se.stop, kind := 2, next := se.stop }
  else if b == 47 && b1 == 47 then
    let se ← scanEnd mem (i + 2) len 3
    return { mem := se.mem, ts := i + 2, te := se.stop, kind := 5, next := se.stop }
  else if isTwoChar b b1 then
    return { mem, ts := i, te := i + 2, kind := 6, next := i + 2 }
  else
    return { mem, ts := i, te := i + 1, kind := 6, next := i + 1 }

/-- The cursor, how many tokens there were, and their digest. -/
structure ScanS (δ : Type) where
  mem : Buffer
  i : I64
  count : I64
  hash : δ

/-- Skip a byte of white space, or emit a token. -/
def step (mem : Buffer) (i count : I64) (h : δ) (len : I64) : Run (ScanS δ) := do
  let b := toI64 (← mem.get i)
  if (i + 1).slt len then emit b (toI64 (← mem.get (i + 1)))
  else emit b 0
where
  emit (b b1 : I64) : Run (ScanS δ) := do
    if isWs b then return { mem, i := i + 1, count, hash := h }
    else if b == 98 && b1 == 34 then
      let h1 := fold h 4
      let sf ← foldStrlit fold mem (i + 2) len h1 true
      return { mem := sf.mem, i := sf.next, count := count + 1, hash := sf.hash }
    else if b == 34 then
      let h1 := fold h 3
      let sf ← foldStrlit fold mem (i + 1) len h1 false
      return { mem := sf.mem, i := sf.next, count := count + 1, hash := sf.hash }
    else
      let g ← classify mem i b b1 len
      let h1 := fold h g.kind
      let hf ← foldBytes fold g.mem g.ts g.te h1
      return { mem := hf.mem, i := g.next, count := count + 1, hash := hf.hash }

/-- All tokens but the end. -/
def scan (mem : Buffer) (seed : δ) : Run (ScanS δ) :=
  let len := mem.len
  loop { mem, i := 0, count := 0, hash := seed : ScanS δ } (fun s => s.i.slt len) fun cur =>
    step fold cur.mem cur.i cur.count cur.hash len

end Digest

/-! ### The program -/

def fnvSeed : U32 := toU32 0x811c9dc5

def fnvPrime : U32 := toU32 0x01000193

def fnvStep (h : U32) (b : I64) : U32 := (h ^^^ toU32 b) * fnvPrime

/-- Write a number in decimal. -/
def printNum (n : I64) : Process I64 := do
  let (out, ln) ← Process.ofRun do
    let s ← i64ToString n
    let ln := s.len
    let done ← loop { b := Vector.replicate 64 0, i := 0 : OutBuf 64 } (fun st => st.i.slt ln)
      fun st => do return { b := ← arraySet st.b st.i (← s.get st.i), i := st.i + 1 }
    return (done.b, ln)
  write out.toList ln

def printProbe (count hashv : I64) : Process I64 := do
  let _ ← printStatic (utf8 "tokens ")
  let _ ← printNum count
  let _ ← printStatic (utf8 " fnv32 ")
  let _ ← printNum hashv
  printStatic (utf8 "\n")

def probe (mem : Buffer) : Process I64 := do
  let final ← Process.ofRun (scan fnvStep mem fnvSeed)
  let hend := fnvStep final.hash 7
  let total := final.count + 1
  printProbe total (hend.setWidth 64)

def memCap : I64 := 1048576

def main : Process I64 := do
  let _ ← probe (← readAll (← Process.ofRun (Buffer.withCapacity memCap)))
  return 0

end Lexer

end SelfHosted

end CodeDb

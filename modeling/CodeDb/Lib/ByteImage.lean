import CodeDb.Lib.Binary
import Mathlib.Data.List.Forall2

/-!
# Files of parts at places

A file is put together by appending parts, each behind as many zeros as it takes to reach the
place that the part is to have. Where the places were worked out before and no part reaches into
the next, every part stands at its place, and what is read there is the part.

Records of such a file are numbers of fixed widths, and its names are ended by a zero.

## Main definitions

* `ByteImage.At` — some bytes stand at a place of a file
* `ByteImage.put`, `ByteImage.putAll` — appending parts at places
* `ByteImage.InTurn` — no part reaches into the next
* `ByteImage.readAt`, `ByteImage.cstringAt` — what is read at a place

## Main results

* `ByteImage.at_putAll` — parts in turn stand at their places
* `ByteImage.At.readAt` — what is read of bytes is read where they stand
* `ByteImage.At.cstringAt` — a name without zeros is read where it stands
-/

namespace ByteImage

open Binary

variable {bytes bytes' out part part' : List UInt8} {place start : Nat}

/-! ### Bytes at a place -/

/-- Some bytes stand at a place of a file. -/
def At (bytes : List UInt8) (place : Nat) (part : List UInt8) : Prop :=
  ∃ front rest, bytes = front ++ (part ++ rest) ∧ front.length = place

namespace At

theorem le (stands : At bytes place part) : place + part.length ≤ bytes.length := by
  obtain ⟨front, rest, rfl, rfl⟩ := stands
  simp only [List.length_append]
  omega

/-- What stands in a file stands in every longer one. -/
theorem mono (stands : At bytes place part) (longer : bytes <+: bytes') : At bytes' place part := by
  obtain ⟨front, rest, rfl, rfl⟩ := stands
  obtain ⟨more, rfl⟩ := longer
  exact ⟨front, rest ++ more, by simp only [List.append_assoc], rfl⟩

theorem left (stands : At bytes place (part ++ part')) : At bytes place part := by
  obtain ⟨front, rest, rfl, rfl⟩ := stands
  exact ⟨front, part' ++ rest, by simp only [List.append_assoc], rfl⟩

theorem right (stands : At bytes place (part ++ part')) : At bytes (place + part.length) part' := by
  obtain ⟨front, rest, rfl, rfl⟩ := stands
  exact ⟨front ++ part, rest, by simp only [List.append_assoc], List.length_append⟩

end At

theorem at_zero_of_started (front : part <+: bytes) : At bytes 0 part := by
  obtain ⟨rest, rfl⟩ := front
  exact ⟨[], rest, rfl, rfl⟩

theorem at_append (out part : List UInt8) : At (out ++ part) out.length part :=
  ⟨out, [], by rw [List.append_nil], rfl⟩

/-! ### Putting parts at places -/

/-- Append zeros up to a length. -/
def padTo (out : List UInt8) (len : Nat) : List UInt8 := out ++ List.replicate (len - out.length) 0

/-- Append a part behind zeros up to a place. -/
def put (out : List UInt8) (place : Nat) (part : List UInt8) : List UInt8 := padTo out place ++ part

theorem length_padTo (le : out.length ≤ place) : (padTo out place).length = place := by
  rw [padTo, List.length_append, List.length_replicate, Nat.add_sub_cancel' le]

theorem prefix_put (out : List UInt8) (place : Nat) (part : List UInt8) :
    out <+: put out place part :=
  ⟨List.replicate (place - out.length) 0 ++ part, by rw [put, padTo, List.append_assoc]⟩

theorem length_put (le : out.length ≤ place) :
    (put out place part).length = place + part.length := by
  rw [put, List.length_append, length_padTo le]

theorem at_put (le : out.length ≤ place) : At (put out place part) place part := by
  have stands := at_append (padTo out place) part
  rwa [length_padTo le] at stands

/-- Append parts, each at its place. -/
def putAll (out : List UInt8) (parts : List (Nat × List UInt8)) : List UInt8 :=
  parts.foldl (fun out part => put out part.1 part.2) out

/-- Each part has its place behind the part before. -/
def InTurn : Nat → List (Nat × List UInt8) → Prop
  | _, [] => True
  | start, (place, part) :: parts => start ≤ place ∧ InTurn (place + part.length) parts

namespace InTurn

variable {parts : List (Nat × List UInt8)}

theorem start_le (inTurn : InTurn start parts) : ∀ p ∈ parts, start ≤ p.1 := by
  induction parts generalizing start with
  | nil => exact fun p listed => absurd listed List.not_mem_nil
  | cons p parts ih =>
    have later := ih inTurn.2
    intro q listed
    rcases List.mem_cons.mp listed with rfl | listed
    · exact inTurn.1
    · have first := inTurn.1
      have next := later q listed
      omega

/-- No part reaches into a later one. -/
theorem pairwise (inTurn : InTurn start parts) :
    parts.Pairwise fun p q => p.1 + p.2.length ≤ q.1 := by
  induction parts generalizing start with
  | nil => exact List.Pairwise.nil
  | cons p parts ih => exact List.Pairwise.cons inTurn.2.start_le (ih inTurn.2)

end InTurn

/-- Where the last of some parts ends. -/
def endOf (start : Nat) (parts : List (Nat × List UInt8)) : Nat :=
  parts.foldl (fun _ part => part.1 + part.2.length) start

theorem inTurn_append {parts parts' : List (Nat × List UInt8)} :
    InTurn start (parts ++ parts') ↔ InTurn start parts ∧ InTurn (endOf start parts) parts' := by
  induction parts generalizing start with
  | nil => exact ⟨fun inTurn => ⟨trivial, inTurn⟩, And.right⟩
  | cons p parts ih =>
    rw [List.cons_append, InTurn, InTurn, ih, and_assoc]
    rfl

theorem prefix_putAll (out : List UInt8) (parts : List (Nat × List UInt8)) :
    out <+: putAll out parts := by
  induction parts generalizing out with
  | nil => exact List.prefix_rfl
  | cons p parts ih => exact (prefix_put ..).trans (ih _)

/-- Parts in turn stand at their places. -/
theorem at_putAll {parts : List (Nat × List UInt8)} (inTurn : InTurn out.length parts) :
    ∀ p ∈ parts, At (putAll out parts) p.1 p.2 := by
  induction parts generalizing out with
  | nil => exact fun p listed => absurd listed List.not_mem_nil
  | cons p parts ih =>
    have length : (put out p.1 p.2).length = p.1 + p.2.length := length_put inTurn.1
    intro q listed
    rcases List.mem_cons.mp listed with rfl | listed
    · exact (at_put inTurn.1).mono (prefix_putAll ..)
    · exact ih (length ▸ inTurn.2) q listed

/-- One more part is put behind the others. -/
theorem putAll_append_singleton (out : List UInt8) (parts : List (Nat × List UInt8)) :
    putAll out (parts ++ [(place, part)]) = put (putAll out parts) place part := by
  rw [putAll, List.foldl_append]
  rfl

/-! ### Reading at places -/

/-- What a reader reads at a place. -/
def readAt {α : Type} (r : ReadM Unit α) (bytes : List UInt8) (place : Nat) : Option α :=
  match r.run ⟨bytes, place⟩ with
  | .ok (a, _) => some a
  | .error _ => none

/-- Some bytes at a place. -/
def sliceAt (bytes : List UInt8) (place len : Nat) : Option (List UInt8) :=
  readAt (take (fun _ => ()) len) bytes place

/-- The bytes at a place up to the next zero. -/
def cstringAt (bytes : List UInt8) (place : Nat) : Option (List UInt8) :=
  let name := (bytes.drop place).takeWhile (· != 0)
  if place + name.length < bytes.length then some name else none

/-- What is read of some bytes is read where they stand. -/
theorem At.readAt {α : Type} {r : ReadM Unit α} {a : α} (stands : At bytes place part)
    (reads : Reads r part (.ok a)) : readAt r bytes place = some a := by
  obtain ⟨front, rest, rfl, rfl⟩ := stands
  rw [ByteImage.readAt, reads front rest]
  rfl

theorem At.sliceAt (stands : At bytes place part) : sliceAt bytes place part.length = some part :=
  stands.readAt (Reads.take _ _)

/-- A name without zeros is read where it stands with a zero behind it. -/
theorem At.cstringAt (stands : At bytes place (part ++ [0])) (plain : 0 ∉ part) :
    cstringAt bytes place = some part := by
  have room := stands.le
  obtain ⟨front, rest, rfl, rfl⟩ := stands
  have name : ((front ++ (part ++ [0] ++ rest)).drop front.length).takeWhile (· != 0) = part := by
    rw [List.drop_left, List.append_assoc, List.takeWhile_append_of_pos]
    · simp
    · intro b listed
      exact bne_iff_ne.mpr fun zero => plain (zero ▸ listed)
  rw [ByteImage.cstringAt, name, if_pos]
  rw [List.length_append, List.length_singleton] at room
  omega

/-- No name that is read has a zero in it. -/
theorem zero_notMem_of_cstringAt {name : List UInt8} (read : cstringAt bytes place = some name) :
    0 ∉ name := by
  rw [ByteImage.cstringAt] at read
  split at read
  next =>
    cases read
    intro listed
    have nonzero := List.all_eq_true.mp List.all_takeWhile 0 listed
    exact absurd nonzero (by decide)
  next => cases read

/-! ### Numbers of fixed widths -/

def putU16 (n : UInt16) : List UInt8 := leBytes 2 n.toNat

def putU32 (n : UInt32) : List UInt8 := leBytes 4 n.toNat

def putU64 (n : UInt64) : List UInt8 := leBytes 8 n.toNat

/-- A number of some bytes. -/
def number (width : Nat) : ReadM Unit Nat := do
  return ofLe (← take (fun _ => ()) width)

def u8 : ReadM Unit UInt8 := do return UInt8.ofNat (← number 1)

def u16 : ReadM Unit UInt16 := do return UInt16.ofNat (← number 2)

def u32 : ReadM Unit UInt32 := do return UInt32.ofNat (← number 4)

def u64 : ReadM Unit UInt64 := do return UInt64.ofNat (← number 8)

@[simp] theorem length_putU16 (n : UInt16) : (putU16 n).length = 2 := length_leBytes ..

@[simp] theorem length_putU32 (n : UInt32) : (putU32 n).length = 4 := length_leBytes ..

@[simp] theorem length_putU64 (n : UInt64) : (putU64 n).length = 8 := length_leBytes ..

theorem reads_number (bytes : List UInt8) : Reads (number bytes.length) bytes (.ok (ofLe bytes)) :=
  (Reads.take (fun _ => ()) bytes).last rfl

theorem reads_u8 (n : UInt8) : Reads u8 [n] (.ok n) := by
  refine (reads_number [n]).last ?_
  rw [ofLe, ofLe, Nat.mul_zero, Nat.add_zero, UInt8.ofNat_toNat]

theorem reads_u16 (n : UInt16) : Reads u16 (putU16 n) (.ok n) := by
  have reads := reads_number (putU16 n)
  rw [length_putU16] at reads
  refine reads.last ?_
  have small : n.toNat < 256 ^ 2 :=
    Nat.lt_of_lt_of_eq n.toNat_lt (by decide)
  rw [putU16, ofLe_leBytes, Nat.mod_eq_of_lt small, UInt16.ofNat_toNat]

theorem reads_u32 (n : UInt32) : Reads u32 (putU32 n) (.ok n) := by
  have reads := reads_number (putU32 n)
  rw [length_putU32] at reads
  refine reads.last ?_
  have small : n.toNat < 256 ^ 4 :=
    Nat.lt_of_lt_of_eq n.toNat_lt (by decide)
  rw [putU32, ofLe_leBytes, Nat.mod_eq_of_lt small, UInt32.ofNat_toNat]

theorem reads_u64 (n : UInt64) : Reads u64 (putU64 n) (.ok n) := by
  have reads := reads_number (putU64 n)
  rw [length_putU64] at reads
  refine reads.last ?_
  have small : n.toNat < 256 ^ 8 :=
    Nat.lt_of_lt_of_eq n.toNat_lt (by decide)
  rw [putU64, ofLe_leBytes, Nat.mod_eq_of_lt small, UInt64.ofNat_toNat]

/-- A table of records is read where it stands. -/
theorem At.readTable {α γ : Type} {r : ReadM Unit α} {write : γ → List UInt8} {value : γ → α}
    {l : List γ} (stands : At bytes place (l.flatMap write))
    (each : ∀ c ∈ l, Reads r (write c) (.ok (value c))) :
    ByteImage.readAt (times l.length r) bytes place = some (l.map value) := by
  have all : l.mapM (fun c => (.ok (value c) : Except Unit α)) = .ok (l.map value) :=
    List.mapM_pure
  have reads := Reads.times l each
  exact stands.readAt (by rwa [all] at reads)

/-! ### Entries that are resolved -/

section Resolve

variable {α β γ : Type}

/-- Where the entries of a table are each resolved, the table is. -/
theorem mapM_map_eq_some {resolve : α → Option β} {entry : γ → α} {value : γ → β} {l : List γ}
    (each : ∀ c ∈ l, resolve (entry c) = some (value c)) :
    (l.map entry).mapM resolve = some (l.map value) := by
  induction l with
  | nil => rfl
  | cons c l ih =>
    rw [List.map_cons, List.mapM_cons, each c List.mem_cons_self,
      ih fun d listed => each d (List.mem_cons_of_mem _ listed)]
    rfl

theorem mapM_cons_eq_some {resolve : α → Option β} {a : α} {b : β} {l : List α} {m : List β}
    (first : resolve a = some b) (next : l.mapM resolve = some m) :
    (a :: l).mapM resolve = some (b :: m) := by
  rw [List.mapM_cons, first, next]
  rfl

/-- Tables that are resolved stay so one behind the other. -/
theorem mapM_append_eq_some {resolve : α → Option β} {l l' : List α} {m m' : List β}
    (first : l.mapM resolve = some m) (next : l'.mapM resolve = some m') :
    (l ++ l').mapM resolve = some (m ++ m') := by
  rw [List.mapM_append, first, next]
  rfl

/-- Every entry of a table that is resolved is what one of its entries was resolved to. -/
theorem exists_of_mem_mapM {resolve : α → Option β} {l : List α} {m : List β}
    (resolved : l.mapM resolve = some m) : ∀ b ∈ m, ∃ a ∈ l, resolve a = some b := by
  induction l generalizing m with
  | nil =>
    cases resolved
    exact fun b listed => absurd listed List.not_mem_nil
  | cons a l ih =>
    rw [List.mapM_cons] at resolved
    obtain ⟨first, found, rest⟩ := Option.bind_eq_some_iff.mp resolved
    obtain ⟨others, all, same⟩ := Option.bind_eq_some_iff.mp rest
    cases same
    intro b listed
    rcases List.mem_cons.mp listed with rfl | listed
    · exact ⟨a, List.mem_cons_self, found⟩
    · obtain ⟨a', held, resolved'⟩ := ih all b listed
      exact ⟨a', List.mem_cons_of_mem _ held, resolved'⟩

/-- What is written for each of some things is resolved to what it was written for. -/
theorem exists_mapM_forall₂ {write : γ → Option (List UInt8)} {record : α → List UInt8}
    {resolve : α → Option β} {R : γ → β → Prop} {l : List γ}
    (each : ∀ c ∈ l, ∃ a b, write c = some (record a) ∧ resolve a = some b ∧ R c b) :
    ∃ (entries : List α) (found : List β), l.mapM write = some (entries.map record) ∧
      entries.mapM resolve = some found ∧ List.Forall₂ R l found := by
  induction l with
  | nil => exact ⟨[], [], rfl, rfl, List.Forall₂.nil⟩
  | cons c l ih =>
    obtain ⟨a, b, written, resolved, related⟩ := each c List.mem_cons_self
    obtain ⟨entries, found, rest, others, all⟩ :=
      ih fun d listed => each d (List.mem_cons_of_mem _ listed)
    refine ⟨a :: entries, b :: found, ?_, ?_, List.Forall₂.cons related all⟩
    · rw [List.mapM_cons, written, rest]
      rfl
    · rw [List.mapM_cons, resolved, others]
      rfl

/-- As before, where several entries are written for one thing. -/
theorem exists_mapM_groups {write : γ → Option (List UInt8)} {record : α → List UInt8}
    {resolve : α → Option β} {count : γ → Nat} {R : γ → List β → Prop} {l : List γ}
    (each : ∀ c ∈ l, ∃ (entries : List α) (found : List β),
      write c = some (entries.flatMap record) ∧ entries.mapM resolve = some found ∧
      entries.length = count c ∧ R c found) :
    ∃ (parts : List (List UInt8)) (entries : List α) (groups : List (List β)),
      l.mapM write = some parts ∧ parts.flatten = entries.flatMap record ∧
      entries.length = (l.map count).sum ∧ entries.mapM resolve = some groups.flatten ∧
      List.Forall₂ R l groups := by
  induction l with
  | nil => exact ⟨[], [], [], rfl, rfl, rfl, rfl, List.Forall₂.nil⟩
  | cons c l ih =>
    obtain ⟨first, found, written, resolved, length, related⟩ := each c List.mem_cons_self
    obtain ⟨parts, entries, groups, rest, bytes, lengths, others, all⟩ :=
      ih fun d listed => each d (List.mem_cons_of_mem _ listed)
    refine ⟨first.flatMap record :: parts, first ++ entries, found :: groups, ?_, ?_, ?_,
      mapM_append_eq_some resolved others, List.Forall₂.cons related all⟩
    · exact mapM_cons_eq_some written rest
    · rw [List.flatten_cons, bytes, List.flatMap_append]
    · rw [List.length_append, length, lengths, List.map_cons, List.sum_cons]

end Resolve

end ByteImage

import CodeDb.Lib.Utf8
import CodeDb.Model.ProgramRoot
import CodeDb.Store.CanonicalJson

/-!
# Content hashes

Objects, migrations and history points are named by the digest of a text that
lists their parts. The digest, the printer of doubles and the reader of JSON come
from libraries and are parameters here; all that is asked of the digest is that it
has no collisions.

## Main definitions

* `Primitives` — what the store takes from libraries
* `hashBytes`, `migrationHash`, `historyHash` — the hashes
* `objectPreimage`, `historyPreimage` — what hashes are taken of
* `Primitives.Reliable` — what is relied on

## Main results

* `historyHash_inj` — a history hash determines its parent, migration and root
* `migrationHash_inj` — a migration hash determines its parent and its two roots
* `hashObjectCanonical_inj` — the hash of an object determines its kind and text
-/

namespace CodeDb

open Delimited SortOn

/-- What the store takes from libraries. -/
structure Primitives where
  /-- The digest of a sequence of bytes. -/
  sha256 : List UInt8 → List UInt8
  /-- The text of a double, given its bits. -/
  floatText : UInt64 → List Char
  /-- Read a JSON value from its text. -/
  parseJson : String → Except String JsonValue

/-- The digest has no collisions, and doubles are printed plainly. -/
structure Primitives.Reliable (P : Primitives) : Prop where
  sha256_injective : Function.Injective P.sha256
  floats : PlainFloats P.floatText

/-- The bytes of a string. -/
def utf8 (s : String) : List UInt8 := s.toByteArray.data.toList

theorem utf8_injective : Function.Injective utf8 := by
  intro s t same
  exact String.toByteArray_inj.mp (ByteArray.ext (Array.toList_inj.mp same))

theorem utf8_append (s t : String) : utf8 (s ++ t) = utf8 s ++ utf8 t := by
  simp [utf8, String.toByteArray_append]

/-- The bytes of characters are the bytes of each. -/
theorem utf8_ofList (l : List Char) : utf8 (String.ofList l) = Utf8.encode l := by
  rw [utf8, String.toByteArray_ofList, List.utf8Encode, List.data_toByteArray]
  rfl

/-- Two hexadecimal digits. -/
def hexByte (b : UInt8) : List Char := [hexDigit (b.toNat / 16), hexDigit (b.toNat % 16)]

/-- Bytes in hexadecimal. -/
def hexEncode (bytes : List UInt8) : List Char := bytes.flatMap hexByte

private theorem hexByte_injective : Function.Injective hexByte := by
  intro a b same
  have high := hexDigit_inj (by have := a.toNat_lt; omega) (by have := b.toNat_lt; omega)
    (List.cons.inj same).1
  have low := hexDigit_inj (by omega) (by omega) (List.cons.inj (List.cons.inj same).2).1
  exact UInt8.toNat_inj.mp (by omega)

theorem hexEncode_injective : Function.Injective hexEncode := by
  intro a
  induction a with
  | nil =>
    intro b same
    cases b with
    | nil => rfl
    | cons y b => simp [hexEncode, hexByte] at same
  | cons x a ih =>
    intro b same
    cases b with
    | nil => simp [hexEncode, hexByte] at same
    | cons y b =>
      have split : hexByte x ++ hexEncode a = hexByte y ++ hexEncode b := same
      obtain ⟨byte, rest⟩ := List.append_inj split rfl
      rw [hexByte_injective byte, ih rest]

/-- The hash of some bytes under a domain separator. -/
def hashBytes (P : Primitives) (domain : String) (bytes : List UInt8) : Hash :=
  "sha256:" ++ String.ofList (hexEncode (P.sha256 (utf8 domain ++ bytes)))

/-- The separator of migrations. -/
def migrationDomain : String := "codedb/migration/v1\x00"

/-- The separator of history points. -/
def historyDomain : String := "codedb/history/v1\x00"

/-- The separator of objects. -/
def objectDomain : String := "codedb/object/v1\x00"

/-- The hash of an object. -/
def hashObjectCanonical (P : Primitives) (kind : String) (schemaVersion : Int)
    (canonicalPayload : String) : Hash :=
  hashBytes P objectDomain (utf8 kind ++ [0] ++ utf8 (toString schemaVersion) ++ [0] ++
    utf8 canonicalPayload)

/-- The JSON value a migration is hashed as. -/
def migrationPayload (parentHistoryHash : Option Hash) (inputRootHash outputRootHash : Hash)
    (operation preconditions postconditions : JsonValue) : JsonValue :=
  .object
    [("input_root_hash", .string inputRootHash),
     ("operation", operation),
     ("output_root_hash", .string outputRootHash),
     ("parent_history_hash", parentHistoryHash.elim .null .string),
     ("postconditions", postconditions),
     ("preconditions", preconditions)]

/-- The hash of a migration. -/
def migrationHash (P : Primitives) (parentHistoryHash : Option Hash)
    (inputRootHash outputRootHash : Hash) (operation preconditions postconditions : JsonValue) :
    Hash :=
  hashBytes P migrationDomain (utf8 (canonicalJson P.floatText
    (migrationPayload parentHistoryHash inputRootHash outputRootHash operation preconditions
      postconditions)))

/-- The hash of a history point. -/
def historyHash (P : Primitives) (parentHistoryHash : Option Hash)
    (migrationHash outputRootHash : Hash) : Hash :=
  hashBytes P historyDomain (utf8 (parentHistoryHash.getD "") ++ [0] ++ utf8 migrationHash ++
    [0] ++ utf8 outputRootHash)

/-- What the hash of an object is taken of. -/
def objectPreimage (kind : String) (schemaVersion : Int) (canonicalPayload : String) :
    List UInt8 :=
  utf8 objectDomain ++ (utf8 kind ++ [0] ++ utf8 (toString schemaVersion) ++ [0] ++
    utf8 canonicalPayload)

/-- What the hash of a history point is taken of. -/
def historyPreimage (parentHistoryHash : Option Hash) (migrationHash outputRootHash : Hash) :
    List UInt8 :=
  utf8 historyDomain ++ (utf8 (parentHistoryHash.getD "") ++ [0] ++ utf8 migrationHash ++ [0] ++
    utf8 outputRootHash)

/-! ### Collisions -/

theorem utf8_separator : ([0] : List UInt8) = utf8 "\x00" := by decide

theorem stops_separator (r : List Char) : Stops (· = '\x00') ("\x00".toList ++ r) :=
  stops_cons (r := r) rfl

section Reliable

variable {P : Primitives}

theorem hashBytes_inj (reliable : P.Reliable) {domain : String} {a b : List UInt8}
    (same : hashBytes P domain a = hashBytes P domain b) : a = b := by
  have hex := (String.append_right_inj _).mp same
  have digest := hexEncode_injective (String.ofList_injective hex)
  exact List.append_cancel_left (reliable.sha256_injective digest)

/-- A string that has the form of a hash. -/
def IsHash (s : Hash) : Prop := ∃ bytes, s = "sha256:" ++ String.ofList (hexEncode bytes)

theorem isHash_hashBytes (domain : String) (bytes : List UInt8) :
    IsHash (hashBytes P domain bytes) := ⟨_, rfl⟩

theorem IsHash.ne_empty {s : Hash} (h : IsHash s) : s ≠ "" := by
  obtain ⟨bytes, rfl⟩ := h
  intro same
  have chars := congrArg String.toList same
  simp at chars

private theorem hexDigit_mem (n : Nat) : hexDigit n ∈ "0123456789abcdef".toList := by
  by_cases small : n < 16
  · have all : ∀ m < 16, hexDigit m ∈ "0123456789abcdef".toList := by decide
    exact all n small
  · have beyond : "0123456789abcdef".toList.length ≤ n := not_lt.mp small
    rw [hexDigit, List.getD_eq_getElem?_getD, List.getElem?_eq_none beyond]
    decide

/-- The characters of a hash. -/
theorem IsHash.chars {s : Hash} (h : IsHash s) :
    ∀ c ∈ s.toList, c ∈ "sha256:0123456789abcdef".toList := by
  obtain ⟨bytes, rfl⟩ := h
  have all : "sha256:0123456789abcdef".toList = "sha256:".toList ++ "0123456789abcdef".toList := by
    decide
  intro c hc
  rw [String.toList_append, List.mem_append] at hc
  rw [all, List.mem_append]
  refine hc.imp_right fun hc => ?_
  rw [String.toList_ofList] at hc
  obtain ⟨b, -, hb⟩ := List.mem_flatMap.mp hc
  rcases List.mem_cons.mp hb with rfl | hb
  · exact hexDigit_mem _
  · rw [List.mem_singleton.mp hb]
    exact hexDigit_mem _

/-- A hash contains no separator. -/
theorem IsHash.plain {s : Hash} (h : IsHash s) : ∀ c ∈ s.toList, c ≠ '\x00' := by
  rintro c hc rfl
  exact absurd (h.chars _ hc) (by decide)

/-- What a history hash is taken of determines its parent, its migration and its root. -/
theorem historyPreimage_inj {parent parent' : Option Hash}
    {migration migration' output output' : Hash} (hp : ∀ h ∈ parent, IsHash h)
    (hp' : ∀ h ∈ parent', IsHash h) (hm : IsHash migration) (hm' : IsHash migration')
    (same : historyPreimage parent migration output = historyPreimage parent' migration' output') :
    parent = parent' ∧ migration = migration' ∧ output = output' := by
  have bytes := List.append_cancel_left same
  simp only [utf8_separator, ← utf8_append] at bytes
  have chars := congrArg String.toList (utf8_injective bytes)
  simp only [String.toList_append, List.append_assoc] at chars
  have plain : ∀ p : Option Hash, (∀ h ∈ p, IsHash h) → ∀ c ∈ (p.getD "").toList, c ≠ '\x00' := by
    intro p hp
    cases p with
    | none => simp
    | some h => exact (hp h rfl).plain
  obtain ⟨parents, rest⟩ := append_inj_of_plain (plain parent hp) (plain parent' hp')
    (stops_separator _) (stops_separator _) chars
  obtain ⟨migrations, rest'⟩ := append_inj_of_plain hm.plain hm'.plain (stops_separator _)
    (stops_separator _) (List.append_cancel_left rest)
  refine ⟨?_, String.toList_inj.mp migrations,
    String.toList_inj.mp (List.append_cancel_left rest')⟩
  have parents := String.toList_inj.mp parents
  cases parent with
  | none =>
    cases parent' with
    | none => rfl
    | some h => exact absurd parents.symm (hp' h rfl).ne_empty
  | some h =>
    cases parent' with
    | none => exact absurd parents (hp h rfl).ne_empty
    | some h' => exact congrArg some parents

/-- A history hash determines its parent, its migration and its root. -/
theorem historyHash_inj (reliable : P.Reliable) {parent parent' : Option Hash}
    {migration migration' output output' : Hash} (hp : ∀ h ∈ parent, IsHash h)
    (hp' : ∀ h ∈ parent', IsHash h) (hm : IsHash migration) (hm' : IsHash migration')
    (same : historyHash P parent migration output = historyHash P parent' migration' output') :
    parent = parent' ∧ migration = migration' ∧ output = output' :=
  historyPreimage_inj hp hp' hm hm' (congrArg _ (hashBytes_inj reliable same))

/-- A migration hash determines its parent, its roots and the text of its operation. -/
theorem migrationHash_texts (reliable : P.Reliable) {parent parent' : Option Hash}
    {input input' output output' : Hash} {op op' pre pre' post post' : JsonValue}
    (same : migrationHash P parent input output op pre post =
      migrationHash P parent' input' output' op' pre' post') :
    parent = parent' ∧ input = input' ∧ output = output' ∧
      canonicalJson P.floatText op = canonicalJson P.floatText op' := by
  have bytes := utf8_injective (hashBytes_inj reliable same)
  have texts := canonicalJson_object_inj reliable.floats bytes
  -- the entries are listed in order of their keys already
  rw [sortOn_canonicalEntries (by simp only [List.map_cons, List.map_nil]; decide),
    sortOn_canonicalEntries (by simp only [List.map_cons, List.map_nil]; decide)] at texts
  simp only [canonicalEntries, List.cons.injEq, Prod.mk.injEq, true_and] at texts
  obtain ⟨inputs, operations, outputs, parents, -⟩ := texts
  refine ⟨canonicalChars_optionString_inj parents, ?_, ?_, congrArg String.ofList operations⟩
  · simpa using canonicalChars_optionString_inj (s := some input) (t := some input') inputs
  · simpa using canonicalChars_optionString_inj (s := some output) (t := some output') outputs

/-- A migration hash determines its parent and its roots. -/
theorem migrationHash_inj (reliable : P.Reliable) {parent parent' : Option Hash}
    {input input' output output' : Hash} {op op' pre pre' post post' : JsonValue}
    (same : migrationHash P parent input output op pre post =
      migrationHash P parent' input' output' op' pre' post') :
    parent = parent' ∧ input = input' ∧ output = output' := by
  obtain ⟨parents, inputs, outputs, -⟩ := migrationHash_texts reliable same
  exact ⟨parents, inputs, outputs⟩

/-- The hash of an object determines its kind and its text: the text has no
separator in it, so the last separator is the one before it. -/
theorem hashObjectCanonical_inj (reliable : P.Reliable) {kind kind' : String} {version : Int}
    {text text' : String} (plain : ∀ c ∈ text.toList, c ≠ '\x00')
    (plain' : ∀ c ∈ text'.toList, c ≠ '\x00')
    (same : hashObjectCanonical P kind version text = hashObjectCanonical P kind' version text') :
    kind = kind' ∧ text = text' := by
  have bytes := hashBytes_inj reliable same
  simp only [utf8_separator, ← utf8_append] at bytes
  have chars := congrArg (List.reverse ∘ String.toList) (utf8_injective bytes)
  simp only [Function.comp_apply, String.toList_append, List.reverse_append] at chars
  have ends : ∀ r : List Char, Stops (· = '\x00') ("\x00".toList.reverse ++ r) :=
    fun r => stops_cons (r := r) rfl
  obtain ⟨texts, rest⟩ := append_inj_of_plain (by simpa using plain) (by simpa using plain')
    (ends _) (ends _) chars
  refine ⟨?_, String.toList_inj.mp (List.reverse_injective texts)⟩
  have kinds := List.append_cancel_left (List.append_cancel_left (List.append_cancel_left rest))
  exact String.toList_inj.mp (List.reverse_injective kinds)

end Reliable

end CodeDb

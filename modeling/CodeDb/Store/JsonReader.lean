import CodeDb.Store.ReadBack

/-!
# A reader of canonical JSON

A reader that reads every canonical text back as the value it was written from:
entries in order of their keys, and doubles by their bits. With it the primitives
of the store can be computed with.

## Main definitions

* `readValue` — the reader
* `readBack` — what a value is read back as
* `plain` — primitives that can be computed with

## Main results

* `readAs_canonicalChars` — a canonical text is read back
* `plain_reliable`, `plain_readsText` — the primitives are what is relied on
-/

namespace CodeDb

open Delimited SortOn

/-! ### The reader -/

/-- Read a string literal up to its closing quotation mark. -/
def readChars : Nat → List Char → Option (List Char × List Char)
  | 0, _ => none
  | _ + 1, '"' :: r => some ([], r)
  | fuel + 1, text =>
    match unescapeChar text with
    | some (c, r) => (readChars fuel r).map fun (cs, r) => (c :: cs, r)
    | none => none

/-- The characters numbers are made of. -/
def isNumberChar (c : Char) : Bool := c.isDigit || ['.', '-', '+', 'e'].contains c

/-- Read a number. Doubles are spelled by their bits. -/
def readNumber (text : List Char) : Option JsonNumber :=
  if !text.isEmpty && text.all isNumberChar then
    match text with
    | '-' :: digits => some (.negInt (Int64.ofInt (-(Nat.ofDigitChars 10 digits 0 : Nat))))
    | text =>
      let value := UInt64.ofNat (Nat.ofDigitChars 10 (text.takeWhile Char.isDigit) 0)
      some (if text.all Char.isDigit then .posInt value else .float value)
  else none

/-- Read a value that is neither a string nor an array nor an object. -/
def readScalar (text : List Char) : Option JsonValue :=
  if text = "null".toList then some .null
  else if text = "true".toList then some (.bool true)
  else if text = "false".toList then some (.bool false)
  else (readNumber text).map .number

/-- Read an entry of an object. -/
def readEntry (value : List Char → Option (JsonValue × List Char)) :
    List Char → Option ((String × JsonValue) × List Char)
  | '"' :: r =>
    match readChars (r.length + 1) r with
    | some (key, ':' :: r) => (value r).map fun (v, r) => ((String.ofList key, v), r)
    | _ => none
  | _ => none

/-- Read a value. -/
def readValue : Nat → List Char → Option (JsonValue × List Char)
  | 0, _ => none
  | _ + 1, '"' :: r =>
    (readChars (r.length + 1) r).map fun (cs, r) => (.string (String.ofList cs), r)
  | _ + 1, '[' :: ']' :: r => some (.array [], r)
  | fuel + 1, '[' :: r =>
    (readSequence ',' ']' (readValue fuel) (r.length + 1) r).map fun (values, r) =>
      (.array values, r)
  | _ + 1, '{' :: '}' :: r => some (.object [], r)
  | fuel + 1, '{' :: r =>
    (readSequence ',' '}' (readEntry (readValue fuel)) (r.length + 1) r).map fun (entries, r) =>
      (.object entries, r)
  | _ + 1, text =>
    (readScalar (text.takeWhile fun c => !decide (IsDelimiter c))).map fun v =>
      (v, text.dropWhile fun c => !decide (IsDelimiter c))

/-! ### Reading back -/

section ReadBack

variable (floatText : UInt64 → List Char)

/-- What a number is read back as. -/
def readBackNumber (n : JsonNumber) : JsonNumber := (readNumber (numberText floatText n)).getD n

mutual

/-- What a value is read back as. -/
def readBack : JsonValue → JsonValue
  | .number n => .number (readBackNumber floatText n)
  | .array values => .array (readBackValues values)
  | .object entries => .object (sortOn (·.1) (readBackEntries entries))
  | v => v

/-- What the elements of an array are read back as. -/
def readBackValues : List JsonValue → List JsonValue
  | [] => []
  | v :: values => readBack v :: readBackValues values

/-- What the entries of an object are read back as. -/
def readBackEntries : List (String × JsonValue) → List (String × JsonValue)
  | [] => []
  | (key, v) :: entries => (key, readBack v) :: readBackEntries entries

end

end ReadBack

theorem readChars_quote (cs : List Char) (r : List Char) (fuel : Nat) (enough : cs.length < fuel) :
    readChars fuel (cs.flatMap escapeChar ++ '"' :: r) = some (cs, r) := by
  induction cs generalizing fuel with
  | nil =>
    obtain ⟨fuel, rfl⟩ := Nat.exists_eq_succ_of_ne_zero (Nat.ne_zero_of_lt enough)
    rfl
  | cons c cs ih =>
    obtain ⟨fuel, rfl⟩ := Nat.exists_eq_succ_of_ne_zero (Nat.ne_zero_of_lt enough)
    rw [List.flatMap_cons, List.append_assoc]
    have other := escapeChar_append_ne c (cs.flatMap escapeChar ++ '"' :: r)
    rw [readChars.eq_3 _ _ other]
    simp [unescapeChar_escapeChar, ih fuel (Nat.lt_of_succ_lt_succ enough)]

/-- A string literal is read, whatever follows it. -/
theorem readChars_quote_append (s : String) (r : List Char) :
    ∃ body, quote s ++ r = '"' :: body ∧ readChars (body.length + 1) body = some (s.toList, r) := by
  refine ⟨s.toList.flatMap escapeChar ++ '"' :: r, by simp [quote], readChars_quote _ _ _ ?_⟩
  have spelled : s.toList.length ≤ (s.toList.flatMap escapeChar).length := by
    induction s.toList with
    | nil => simp
    | cons c cs ih =>
      have one : 0 < (escapeChar c).length := by
        unfold escapeChar
        split_ifs <;> simp
      simp only [List.flatMap_cons, List.length_append, List.length_cons]
      omega
  simp only [List.length_append, List.length_cons]
  omega

/-! ### Canonical texts are read back -/

section Canonical

variable {floatText : UInt64 → List Char}

/-- A scalar is read up to the next delimiter. -/
theorem readAs_scalar {text : List Char} {v : JsonValue}
    (nonempty : text ≠ []) (chars : ∀ c ∈ text, IsScalarChar c) (read : readScalar text = some v)
    (fuel : Nat) : ReadAs IsDelimiter (readValue (fuel + 1)) text v := by
  intro r stops
  have plain : ∀ c ∈ text, (!decide (IsDelimiter c)) = true := fun c hc => by
    simpa using (chars c hc).1
  have taken : (text ++ r).takeWhile (fun c => !decide (IsDelimiter c)) = text := by
    rw [List.takeWhile_append_of_pos plain]
    cases r with
    | nil => simp
    | cons d r =>
      have ends : IsDelimiter d := stops d rfl
      simp [ends]
  have dropped : (text ++ r).dropWhile (fun c => !decide (IsDelimiter c)) = r := by
    rw [List.dropWhile_append_of_pos plain]
    cases r with
    | nil => rfl
    | cons d r =>
      have ends : IsDelimiter d := stops d rfl
      simp [ends]
  obtain ⟨c, rest, rfl⟩ := List.exists_cons_of_ne_nil nonempty
  have plain := (chars c List.mem_cons_self).2
  simp only [List.mem_cons, List.not_mem_nil, or_false, not_or] at plain
  rw [readValue]
  · rw [taken, dropped, read]
    rfl
  all_goals
    intros
    simp_all

/-- An entry is read if its value is. -/
theorem readAs_entryText {value : List Char → Option (JsonValue × List Char)} {text : List Char}
    {v : JsonValue} (read : ReadAs IsDelimiter value text v) (key : String) :
    ReadAs IsDelimiter (readEntry value) (entryText (key, text)) (key, v) := by
  intro r stops
  obtain ⟨body, quoted, readKey⟩ := readChars_quote_append key (':' :: (text ++ r))
  have whole : entryText (key, text) ++ r = '"' :: body := by
    rw [← quoted]
    simp [entryText]
  rw [whole]
  simp [readEntry, readKey, read r stops]

private theorem length_lt_continued (X : List (List Char)) (close : Char) :
    X.length < (continued ',' close X).length ∧
      ∀ text ∈ X, text.length < (continued ',' close X).length := by
  induction X with
  | nil => simp [continued]
  | cons a X ih =>
    rw [continued_cons]
    simp only [List.length_cons, List.length_append, List.mem_cons, forall_eq_or_imp]
    obtain ⟨longer, longest⟩ := ih
    exact ⟨by omega, by omega, fun text mem => by have := longest text mem; omega⟩

private theorem length_lt_enclosed (X : List (List Char)) (close : Char) :
    X.length ≤ (enclosed ',' close X).length ∧
      ∀ text ∈ X, text.length < (enclosed ',' close X).length := by
  cases X with
  | nil => simp
  | cons a X =>
    obtain ⟨longer, longest⟩ := length_lt_continued X close
    simp only [enclosed, List.length_cons, List.length_append, List.mem_cons, forall_eq_or_imp]
    exact ⟨by omega, by omega, fun text mem => by have := longest text mem; omega⟩

/-- Enclosed texts that are not empty are read as a sequence, and do not begin with
the closing delimiter. -/
private theorem readSequence_body {α : Type} {item : List Char → Option (α × List Char)}
    {text : List Char} {a : α} {X : List (List Char)} {as : List α} {close : Char}
    (first : ReadAs IsDelimiter item text a) (rest : List.Forall₂ (ReadAs IsDelimiter item) X as)
    (starts : Starts IsDelimiter text) (closeStops : IsDelimiter close) (differs : ',' ≠ close)
    (r : List Char) :
    ∃ c body, enclosed ',' close (text :: X) ++ r = c :: body ∧ c ≠ close ∧
      readSequence ',' close item ((c :: body).length + 1) (c :: body) = some (a :: as, r) := by
  obtain ⟨c, tail, rfl, plain⟩ := starts
  refine ⟨c, tail ++ continued ',' close X ++ r, by simp [enclosed],
    fun same => plain (same ▸ closeStops), ?_⟩
  have text : c :: (tail ++ continued ',' close X ++ r) =
      enclosed ',' close ((c :: tail) :: X) ++ r := by simp [enclosed]
  rw [text]
  refine readSequence_enclosed (show IsDelimiter ',' from Or.inl rfl) closeStops differs first
    rest _ ?_
  have short := (length_lt_enclosed ((c :: tail) :: X) close).1
  simp only [List.length_append, List.length_cons] at short ⊢
  omega

private theorem readNumber_isSome {text : List Char}
    (plain : (!text.isEmpty && text.all isNumberChar) = true) : (readNumber text).isSome := by
  unfold readNumber
  rw [if_pos plain]
  split <;> rfl

/-- The text of a number is read as one. -/
theorem readScalar_numberText (floats : PlainFloats floatText) (n : JsonNumber) :
    readScalar (numberText floatText n) = some (.number (readBackNumber floatText n)) := by
  have digits : ∀ m : Nat, ∀ c ∈ Nat.toDigits 10 m, isNumberChar c := fun m c hc => by
    simp [isNumberChar, Nat.isDigit_of_mem_toDigits (by decide) (by decide) hc]
  have plain : numberText floatText n ≠ [] ∧ ∀ c ∈ numberText floatText n, isNumberChar c := by
    cases n with
    | posInt n => exact ⟨Nat.toDigits_ne_nil, digits _⟩
    | negInt n => exact ⟨List.cons_ne_nil _ _, List.forall_mem_cons.mpr ⟨by decide, digits _⟩⟩
    | float bits =>
      exact ⟨floats.nonempty bits, fun c hc => by simpa [isNumberChar] using floats.plain bits c hc⟩
  have word : ∀ word : List Char, (∃ c ∈ word, isNumberChar c = false) →
      numberText floatText n ≠ word := by
    rintro word ⟨c, hc, other⟩ rfl
    exact Bool.false_ne_true (other.symm.trans (plain.2 c hc))
  have read : readNumber (numberText floatText n) = some (readBackNumber floatText n) := by
    unfold readBackNumber
    cases found : readNumber (numberText floatText n) with
    | some m => rfl
    | none =>
      have some : (readNumber (numberText floatText n)).isSome :=
        readNumber_isSome (by simpa using plain)
      rw [found] at some
      cases some
  rw [readScalar, if_neg (word _ ⟨'n', by decide, by decide⟩),
    if_neg (word _ ⟨'t', by decide, by decide⟩), if_neg (word _ ⟨'f', by decide, by decide⟩), read]
  rfl

mutual

/-- The canonical text of a value is read back. -/
theorem readAs_canonicalChars (floats : PlainFloats floatText) (v : JsonValue) (fuel : Nat)
    (enough : (canonicalChars floatText v).length ≤ fuel) :
    ReadAs IsDelimiter (readValue fuel) (canonicalChars floatText v) (readBack floatText v) := by
  have positive : canonicalChars floatText v ≠ [] := by
    obtain ⟨c, rest, text, -⟩ := starts_canonicalChars floats v
    simp [text]
  -- a value has at least one character, which pays for reading it
  obtain ⟨fuel, rfl⟩ := Nat.exists_eq_succ_of_ne_zero
    (Nat.ne_zero_of_lt (Nat.lt_of_lt_of_le (List.length_pos_of_ne_nil positive) enough))
  cases v with
  | null =>
    obtain ⟨nonempty, chars⟩ := canonicalChars_scalar floats (v := .null) rfl
    exact readAs_scalar nonempty chars rfl fuel
  | bool b =>
    obtain ⟨nonempty, chars⟩ := canonicalChars_scalar floats (v := .bool b) rfl
    exact readAs_scalar nonempty chars (by cases b <;> rfl) fuel
  | number n =>
    obtain ⟨nonempty, chars⟩ := canonicalChars_scalar floats (v := .number n) rfl
    exact readAs_scalar nonempty chars (readScalar_numberText floats n) fuel
  | string s =>
    intro r _
    obtain ⟨body, quoted, read⟩ := readChars_quote_append s r
    simp only [canonicalChars, quoted, readValue, read, readBack]
    simp
  | array values =>
    rw [canonicalChars, intercalate_append_close] at enough ⊢
    -- what is inside the brackets is shorter, so the fuel is enough for it
    have items := readAs_canonicalValues floats values fuel fun text mem => by
      have short := (length_lt_enclosed (canonicalValues floatText values) ']').2 text mem
      simp only [List.length_cons] at enough
      omega
    intro r _
    cases values with
    | nil => rfl
    | cons v values =>
      cases items with
      | cons first rest =>
        obtain ⟨c, body, text, other, read⟩ := readSequence_body first rest
          (starts_canonicalChars floats v) (Or.inr (Or.inl rfl)) (by decide) r
        rw [List.cons_append, canonicalValues, text,
          readValue.eq_4 _ _ (by simpa using other), read]
        rfl
  | object entries =>
    rw [canonicalChars, intercalate_append_close] at enough ⊢
    have items := readAs_canonicalEntries floats entries fuel fun e mem => by
      have short := (length_lt_enclosed ((sortOn (·.1) (canonicalEntries floatText entries)).map
        entryText) '}').2 (entryText e) (List.mem_map_of_mem ((mem_sortOn _).mpr mem))
      simp only [entryText, List.length_cons, List.length_append] at enough short
      omega
    -- keys are written in order, and read in the order they are written in
    have sorted := forall₂_sortOn (fun _ _ => And.left) items
    intro r _
    rw [readBack]
    generalize sortOn (·.1) (canonicalEntries floatText entries) = texts at sorted ⊢
    generalize sortOn (·.1) (readBackEntries floatText entries) = values at sorted ⊢
    cases sorted with
    | nil => rfl
    | @cons e b texts values first rest =>
      obtain ⟨key, text⟩ := e
      obtain ⟨key', v⟩ := b
      obtain ⟨rfl, first⟩ := first
      have rest' : List.Forall₂ (ReadAs IsDelimiter (readEntry (readValue fuel)))
          (texts.map entryText) values := by
        rw [List.forall₂_map_left_iff]
        refine rest.imp fun e b read => ?_
        obtain ⟨key, text⟩ := e
        obtain ⟨key', v⟩ := b
        obtain ⟨rfl, read⟩ := read
        exact readAs_entryText read key
      obtain ⟨c, body, text, other, read⟩ := readSequence_body (readAs_entryText first key) rest'
        (starts_entryText (key, text)) (Or.inr (Or.inr rfl)) (by decide) r
      rw [List.cons_append, List.map_cons, text, readValue.eq_6 _ _ (by simpa using other), read]
      rfl

/-- The canonical texts of the elements of an array are read back. -/
theorem readAs_canonicalValues (floats : PlainFloats floatText) (values : List JsonValue)
    (fuel : Nat) (enough : ∀ text ∈ canonicalValues floatText values, text.length ≤ fuel) :
    List.Forall₂ (ReadAs IsDelimiter (readValue fuel)) (canonicalValues floatText values)
      (readBackValues floatText values) := by
  cases values with
  | nil => exact .nil
  | cons v values =>
    exact .cons (readAs_canonicalChars floats v fuel (enough _ List.mem_cons_self))
      (readAs_canonicalValues floats values fuel fun text mem =>
        enough text (List.mem_cons_of_mem _ mem))

/-- The canonical texts of the entries of an object are read back. -/
theorem readAs_canonicalEntries (floats : PlainFloats floatText)
    (entries : List (String × JsonValue)) (fuel : Nat)
    (enough : ∀ e ∈ canonicalEntries floatText entries, e.2.length ≤ fuel) :
    List.Forall₂ (fun e b => e.1 = b.1 ∧ ReadAs IsDelimiter (readValue fuel) e.2 b.2)
      (canonicalEntries floatText entries) (readBackEntries floatText entries) := by
  cases entries with
  | nil => exact .nil
  | cons e entries =>
    obtain ⟨key, v⟩ := e
    exact .cons ⟨rfl, readAs_canonicalChars floats v fuel (enough _ List.mem_cons_self)⟩
      (readAs_canonicalEntries floats entries fuel fun e mem =>
        enough e (List.mem_cons_of_mem _ mem))

end

end Canonical

/-! ### Primitives that can be computed with -/

/-- Read a text as a value, all of it. -/
def parseCanonical (text : String) : Except Error JsonValue :=
  match readValue text.toList.length text.toList with
  | some (v, []) => .ok v
  | _ => .error "invalid JSON"

/-- The bits of a double, as if they were a whole number. -/
def bitsText (bits : UInt64) : List Char := Nat.toDigits 10 bits.toNat ++ ['.', '0']

/-- Primitives that can be computed with. The digest of a text is the text. -/
def plain : Primitives where
  sha256 := id
  floatText := bitsText
  parseJson := parseCanonical

theorem plain_reliable : plain.Reliable where
  sha256_injective := Function.injective_id
  floats :=
    { nonempty := fun bits => by simp [plain, bitsText]
      plain := fun bits c hc => by
        rcases List.mem_append.mp hc with hc | hc
        · exact Or.inl (Nat.isDigit_of_mem_toDigits (by decide) (by decide) hc)
        · rcases List.mem_cons.mp hc with rfl | hc
          · exact Or.inr (by decide)
          · rw [List.mem_singleton.mp hc]
            exact Or.inl (by decide) }

/-- Every canonical text is read. -/
theorem plain_reads {v read : JsonValue} :
    plain.Reads v read ↔ read = readBack plain.floatText v := by
  have text := readAs_canonicalChars plain_reliable.floats v _ le_rfl [] (stops_nil _)
  rw [List.append_nil] at text
  simp only [Primitives.Reads, canonicalJson, plain, parseCanonical, String.toList_ofList]
  rw [show bitsText = plain.floatText from rfl, text]
  exact ⟨fun same => (Except.ok.inj same).symm, fun same => congrArg _ same.symm⟩

theorem readBackValues_reads (values : List JsonValue) :
    List.Forall₂ plain.Reads values (readBackValues plain.floatText values) := by
  induction values with
  | nil => exact .nil
  | cons v values ih => exact .cons (plain_reads.mpr rfl) ih

theorem readBackEntries_reads (entries : List (String × JsonValue)) :
    List.Forall₂ (fun e r => e.1 = r.1 ∧ plain.Reads e.2 r.2) entries
      (readBackEntries plain.floatText entries) := by
  induction entries with
  | nil => exact .nil
  | cons e entries ih => exact .cons ⟨rfl, plain_reads.mpr rfl⟩ ih

theorem readBackEntries_keys (floatText : UInt64 → List Char)
    (entries : List (String × JsonValue)) :
    (readBackEntries floatText entries).map (·.1) = entries.map (·.1) := by
  induction entries with
  | nil => rfl
  | cons e entries ih => simp [readBackEntries, ih]

/-- Entries that are in order stay where they are. -/
theorem readBack_object {floatText : UInt64 → List Char} {entries : List (String × JsonValue)}
    (sorted : (entries.map (·.1)).Pairwise (· < ·)) :
    readBack floatText (.object entries) = .object (readBackEntries floatText entries) := by
  rw [readBack]
  refine congrArg _ (sortOn_eq_self _ ?_)
  rw [← readBackEntries_keys floatText] at sorted
  exact (List.pairwise_map.mp sorted).imp le_of_lt

theorem plain_readsText : plain.ReadsText where
  string text := plain_reads.mp text
  bool text := plain_reads.mp text
  array {values _} text := ⟨_, plain_reads.mp text, readBackValues_reads values⟩
  object {entries _} sorted text :=
    ⟨_, (plain_reads.mp text).trans (readBack_object sorted), readBackEntries_reads entries⟩

end CodeDb

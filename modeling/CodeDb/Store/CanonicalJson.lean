import CodeDb.Lib.Delimited
import CodeDb.Lib.SortOn
import CodeDb.Model.Json

/-!
# Canonical JSON

The text of a JSON value that content hashes are taken of: no white space, the
entries of an object in order of their keys. The text of a double is left to the
printer in use.

Canonical texts are delimited, so the texts of the entries can be read off the
text of an object. That is what lets a hash of an object stand for its fields.

## Main definitions

* `quote` — a string literal
* `canonicalJson` — the canonical text of a value

## Main results

* `quote_append_inj` — string literals are read off, whatever follows
* `readsOff_canonicalChars` — values are read off before a delimiter
* `canonicalJson_object_inj` — objects of one text have entries of the same texts
* `canonicalChars_plain` — a canonical text has no null character in it
-/

namespace CodeDb

open Delimited SortOn

/-! ### String literals -/

/-- A hexadecimal digit. -/
def hexDigit (n : Nat) : Char := "0123456789abcdef".toList.getD n '0'

/-- A character as a string literal spells it. -/
def escapeChar (c : Char) : List Char :=
  if c = '"' then ['\\', '"']
  else if c = '\\' then ['\\', '\\']
  else if c = '\x08' then ['\\', 'b']
  else if c = '\x0c' then ['\\', 'f']
  else if c = '\n' then ['\\', 'n']
  else if c = '\x0d' then ['\\', 'r']
  else if c = '\t' then ['\\', 't']
  else if c.toNat < 0x20 then
    ['\\', 'u', '0', '0', hexDigit (c.toNat / 16), hexDigit (c.toNat % 16)]
  else [c]

/-- A string literal. -/
def quote (s : String) : List Char := '"' :: (s.toList.flatMap escapeChar ++ ['"'])

/-- Read one character of a string literal. -/
def unescapeChar : List Char → Option (Char × List Char)
  | '\\' :: 'u' :: '0' :: '0' :: h :: l :: r =>
    some (Char.ofNat (16 * "0123456789abcdef".toList.idxOf h +
      "0123456789abcdef".toList.idxOf l), r)
  | '\\' :: 'b' :: r => some ('\x08', r)
  | '\\' :: 'f' :: r => some ('\x0c', r)
  | '\\' :: 'n' :: r => some ('\n', r)
  | '\\' :: 'r' :: r => some ('\x0d', r)
  | '\\' :: 't' :: r => some ('\t', r)
  | '\\' :: c :: r => some (c, r)
  | c :: r => some (c, r)
  | [] => none

private theorem idxOf_hexDigit : ∀ n < 16,
    "0123456789abcdef".toList.idxOf (hexDigit n) = n := by decide

theorem hexDigit_inj {m n : Nat} (hm : m < 16) (hn : n < 16) (same : hexDigit m = hexDigit n) :
    m = n := by
  rw [← idxOf_hexDigit m hm, ← idxOf_hexDigit n hn, same]

theorem unescapeChar_escapeChar (c : Char) (r : List Char) :
    unescapeChar (escapeChar c ++ r) = some (c, r) := by
  unfold escapeChar
  split_ifs with h1 h2 h3 h4 h5 h6 h7 h8
  · simp [unescapeChar, h1]
  · simp [unescapeChar, h2]
  · simp [unescapeChar, h3]
  · simp [unescapeChar, h4]
  · simp [unescapeChar, h5]
  · simp [unescapeChar, h6]
  · simp [unescapeChar, h7]
  · have digits : 16 * (c.toNat / 16) + c.toNat % 16 = c.toNat := by omega
    have high := idxOf_hexDigit (c.toNat / 16) (by omega)
    have low := idxOf_hexDigit (c.toNat % 16) (by omega)
    simp only [List.cons_append, List.nil_append, unescapeChar, high, low, digits,
      Char.ofNat_toNat]
  · simp [unescapeChar, h2]

private theorem escapeChar_append_inj {c d : Char} {r s : List Char}
    (same : escapeChar c ++ r = escapeChar d ++ s) : c = d ∧ r = s := by
  have read := congrArg unescapeChar same
  simpa [unescapeChar_escapeChar] using read

/-- No character is spelled with a leading quotation mark. -/
theorem escapeChar_append_ne (c : Char) (r s : List Char) :
    escapeChar c ++ r ≠ '"' :: s := by
  unfold escapeChar
  split_ifs with h1 <;> simp [h1]

/-- String literals are read off, whatever follows. -/
theorem quote_append_inj {s t : String} {q r : List Char}
    (same : quote s ++ q = quote t ++ r) : s = t ∧ q = r := by
  have body : ∀ a b : List Char, a.flatMap escapeChar ++ '"' :: q =
      b.flatMap escapeChar ++ '"' :: r → a = b ∧ q = r := by
    intro a
    induction a with
    | nil =>
      intro b same
      cases b with
      | nil => simpa using same
      | cons d b =>
        rw [List.flatMap_cons, List.append_assoc] at same
        exact absurd same.symm (escapeChar_append_ne d _ _)
    | cons c a ih =>
      intro b same
      cases b with
      | nil =>
        rw [List.flatMap_cons, List.append_assoc] at same
        exact absurd same (escapeChar_append_ne c _ _)
      | cons d b =>
        simp only [List.flatMap_cons, List.append_assoc] at same
        obtain ⟨rfl, rest⟩ := escapeChar_append_inj same
        obtain ⟨rfl, rest'⟩ := ih b rest
        exact ⟨rfl, rest'⟩
  obtain ⟨chars, rest⟩ := body s.toList t.toList (by simpa [quote] using same)
  exact ⟨String.toList_inj.mp chars, rest⟩

/-! ### Values -/

section Values

variable (floatText : UInt64 → List Char)

/-- The text of a number. -/
def numberText : JsonNumber → List Char
  | .posInt n => Nat.toDigits 10 n.toNat
  | .negInt n => '-' :: Nat.toDigits 10 n.toInt.natAbs
  | .float bits => floatText bits

/-- The text of an object entry, given the text of its value. -/
def entryText (entry : String × List Char) : List Char := quote entry.1 ++ ':' :: entry.2

mutual

/-- The canonical text of a value. -/
def canonicalChars : JsonValue → List Char
  | .null => "null".toList
  | .bool b => if b then "true".toList else "false".toList
  | .number n => numberText floatText n
  | .string s => quote s
  | .array values => '[' :: ([','].intercalate (canonicalValues values) ++ [']'])
  | .object entries =>
    '{' :: ([','].intercalate ((sortOn (·.1) (canonicalEntries entries)).map entryText) ++ ['}'])

/-- The canonical texts of the elements of an array. -/
def canonicalValues : List JsonValue → List (List Char)
  | [] => []
  | v :: values => canonicalChars v :: canonicalValues values

/-- The keys of an object with the canonical texts of their values. -/
def canonicalEntries : List (String × JsonValue) → List (String × List Char)
  | [] => []
  | (key, v) :: entries => (key, canonicalChars v) :: canonicalEntries entries

end

/-- The canonical text of a value. -/
def canonicalJson (v : JsonValue) : String := String.ofList (canonicalChars floatText v)

variable {floatText}

/-- What the printer of doubles is relied on for: the text of a double is not
empty and is made of digits, a point, signs and an exponent mark. -/
structure PlainFloats (floatText : UInt64 → List Char) : Prop where
  nonempty : ∀ bits, floatText bits ≠ []
  plain : ∀ bits, ∀ c ∈ floatText bits, c.isDigit ∨ c ∈ ['.', '-', '+', 'e']

/-- The delimiters of values. -/
def IsDelimiter (c : Char) : Prop := c = ',' ∨ c = ']' ∨ c = '}'

instance : DecidablePred IsDelimiter := fun _ => inferInstanceAs (Decidable (_ ∨ _ ∨ _))

/-- The first character of the text of a value that is not a scalar. -/
def lead : JsonValue → Option Char
  | .string _ => some '"'
  | .array _ => some '['
  | .object _ => some '{'
  | _ => none

/-- The characters of the texts of scalars. -/
def IsScalarChar (c : Char) : Prop := ¬ IsDelimiter c ∧ c ∉ ['"', '[', '{']

private theorem isScalarChar_of_isDigit {c : Char} (h : c.isDigit) : IsScalarChar c := by
  have apart : ∀ d : Char, d.isDigit = false → c ≠ d := fun d hd same => by simp_all
  simp [IsScalarChar, IsDelimiter, apart]

/-- The text of a number is that of a scalar. -/
private theorem numberText_scalar (floats : PlainFloats floatText) (n : JsonNumber) :
    numberText floatText n ≠ [] ∧ ∀ c ∈ numberText floatText n, IsScalarChar c := by
  have digits : ∀ m : Nat, ∀ c ∈ Nat.toDigits 10 m, IsScalarChar c := fun m c hc =>
    isScalarChar_of_isDigit (Nat.isDigit_of_mem_toDigits (by decide) (by decide) hc)
  cases n with
  | posInt n => exact ⟨Nat.toDigits_ne_nil, digits _⟩
  | negInt n =>
    refine ⟨by simp [numberText], fun c hc => ?_⟩
    rcases List.mem_cons.mp hc with rfl | hc
    · simp [IsScalarChar, IsDelimiter]
    · exact digits _ c hc
  | float bits =>
    refine ⟨floats.nonempty bits, fun c hc => ?_⟩
    rcases floats.plain bits c hc with h | h
    · exact isScalarChar_of_isDigit h
    · rcases List.mem_cons.mp h with rfl | h
      · simp [IsScalarChar, IsDelimiter]
      · simp only [List.mem_cons, List.not_mem_nil, or_false] at h
        rcases h with rfl | rfl | rfl <;> simp [IsScalarChar, IsDelimiter]

/-- A value without a lead is a scalar. -/
theorem canonicalChars_scalar (floats : PlainFloats floatText) {v : JsonValue}
    (scalar : lead v = none) :
    canonicalChars floatText v ≠ [] ∧ ∀ c ∈ canonicalChars floatText v, IsScalarChar c := by
  cases v with
  | null => simp [canonicalChars, IsScalarChar, IsDelimiter]
  | bool b => cases b <;> simp [canonicalChars, IsScalarChar, IsDelimiter]
  | number n => simpa [canonicalChars] using numberText_scalar floats n
  | string s => simp [lead] at scalar
  | array values => simp [lead] at scalar
  | object entries => simp [lead] at scalar

/-- The first character of a text tells its lead, and is no delimiter. -/
private theorem canonicalChars_head (floats : PlainFloats floatText) (v : JsonValue) :
    ∃ c rest, canonicalChars floatText v = c :: rest ∧ ¬ IsDelimiter c ∧
      lead v = if c ∈ ['"', '[', '{'] then some c else none := by
  cases scalar : lead v with
  | none =>
    obtain ⟨nonempty, chars⟩ := canonicalChars_scalar floats scalar
    obtain ⟨c, rest, text⟩ := List.exists_cons_of_ne_nil nonempty
    have plain := chars c (by simp [text])
    exact ⟨c, rest, text, plain.1, by rw [if_neg plain.2]⟩
  | some d =>
    cases v <;> simp [lead] at scalar <;> subst scalar <;>
      simp [canonicalChars, quote, IsDelimiter]

theorem starts_canonicalChars (floats : PlainFloats floatText) (v : JsonValue) :
    Starts IsDelimiter (canonicalChars floatText v) := by
  obtain ⟨c, rest, text, plain, -⟩ := canonicalChars_head floats v
  exact ⟨c, rest, text, plain⟩

/-- Texts that agree begin alike. -/
theorem lead_eq_of_append (floats : PlainFloats floatText) {v w : JsonValue} {r s : List Char}
    (same : canonicalChars floatText v ++ r = canonicalChars floatText w ++ s) :
    lead v = lead w := by
  obtain ⟨c, _, textV, -, leadV⟩ := canonicalChars_head floats v
  obtain ⟨d, _, textW, -, leadW⟩ := canonicalChars_head floats w
  rw [textV, textW] at same
  obtain ⟨rfl, -⟩ := List.cons.inj same
  rw [leadV, leadW]

/-- The texts of values. -/
abbrev ValueTexts (floatText : UInt64 → List Char) : Set (List Char) :=
  Set.range (canonicalChars floatText)

/-- The texts of object entries. -/
def EntryTexts (floatText : UInt64 → List Char) : Set (List Char) :=
  {text | ∃ key v, text = entryText (key, canonicalChars floatText v)}

private theorem readsOff_entryText {key : String} {text : List Char}
    (reads : ReadsOff IsDelimiter (ValueTexts floatText) text) :
    ReadsOff IsDelimiter (EntryTexts floatText) (entryText (key, text)) := by
  rintro b ⟨key', v, rfl⟩ r s endsR endsS same
  simp only [entryText, List.append_assoc, List.cons_append] at same
  obtain ⟨rfl, same'⟩ := quote_append_inj same
  obtain ⟨rfl, rest⟩ := reads _ ⟨v, rfl⟩ r s endsR endsS (List.cons.inj same').2
  exact ⟨rfl, rest⟩

theorem starts_entryText (entry : String × List Char) :
    Starts IsDelimiter (entryText entry) :=
  ⟨'"', _, rfl, by simp [IsDelimiter]⟩

theorem mem_canonicalValues {values : List JsonValue} {a : List Char}
    (h : a ∈ canonicalValues floatText values) : a ∈ ValueTexts floatText := by
  induction values with
  | nil => simp [canonicalValues] at h
  | cons v values ih =>
    rcases List.mem_cons.mp h with rfl | h
    · exact ⟨v, rfl⟩
    · exact ih h

theorem mem_canonicalEntries {entries : List (String × JsonValue)} {e : String × List Char}
    (h : e ∈ canonicalEntries floatText entries) : entryText e ∈ EntryTexts floatText := by
  induction entries with
  | nil => simp [canonicalEntries] at h
  | cons entry entries ih =>
    rcases List.mem_cons.mp h with rfl | h
    · exact ⟨entry.1, entry.2, rfl⟩
    · exact ih h

/-- Arrays of one text have elements of the same texts. -/
theorem arrayText_append_inj (floats : PlainFloats floatText)
    {values values' : List JsonValue} {r s : List Char}
    (elements : ∀ a ∈ canonicalValues floatText values,
      ReadsOff IsDelimiter (ValueTexts floatText) a)
    (same : canonicalChars floatText (.array values) ++ r =
      canonicalChars floatText (.array values') ++ s) :
    canonicalValues floatText values = canonicalValues floatText values' ∧ r = s := by
  have starts : ∀ (vs : List JsonValue), ∀ a ∈ canonicalValues floatText vs,
      Starts IsDelimiter a := by
    intro vs a ha
    obtain ⟨u, rfl⟩ := mem_canonicalValues ha
    exact starts_canonicalChars floats u
  refine enclosed_append_inj IsDelimiter ',' ']'
    (by simp [IsDelimiter]) (by simp [IsDelimiter]) (by decide) elements (starts values)
    (fun a ha => mem_canonicalValues ha) (starts values') ?_
  simpa [canonicalChars, intercalate_append_close] using same

private theorem entryText_injective : Function.Injective entryText := by
  rintro ⟨key, text⟩ ⟨key', text'⟩ same
  obtain ⟨rfl, same'⟩ := quote_append_inj same
  obtain ⟨-, rfl⟩ := List.cons.inj same'
  rfl

/-- Objects of one text have entries of the same texts. -/
theorem objectText_append_inj {entries entries' : List (String × JsonValue)}
    {r s : List Char}
    (fields : ∀ e ∈ canonicalEntries floatText entries,
      ReadsOff IsDelimiter (EntryTexts floatText) (entryText e))
    (same : canonicalChars floatText (.object entries) ++ r =
      canonicalChars floatText (.object entries') ++ s) :
    sortOn (·.1) (canonicalEntries floatText entries) =
      sortOn (·.1) (canonicalEntries floatText entries') ∧ r = s := by
  have reads : ∀ a ∈ (sortOn (·.1) (canonicalEntries floatText entries)).map entryText,
      ReadsOff IsDelimiter (EntryTexts floatText) a := by
    intro a ha
    obtain ⟨e, he, rfl⟩ := List.mem_map.mp ha
    exact fields e ((mem_sortOn _).mp he)
  have language : ∀ a ∈ (sortOn (·.1) (canonicalEntries floatText entries')).map entryText,
      a ∈ EntryTexts floatText := by
    intro a ha
    obtain ⟨e, he, rfl⟩ := List.mem_map.mp ha
    exact mem_canonicalEntries ((mem_sortOn _).mp he)
  have starts : ∀ (es : List (String × List Char)), ∀ a ∈ es.map entryText,
      Starts IsDelimiter a := by
    intro es a ha
    obtain ⟨e, -, rfl⟩ := List.mem_map.mp ha
    exact starts_entryText e
  obtain ⟨texts, rest⟩ := enclosed_append_inj IsDelimiter ',' '}' (r := r) (s := s)
    (by simp [IsDelimiter]) (by simp [IsDelimiter]) (by decide) reads
    (starts _) language (starts _)
    (by simpa [canonicalChars, intercalate_append_close] using same)
  exact ⟨List.map_injective_iff.mpr entryText_injective texts, rest⟩

mutual

/-- The text of a value is read off before a delimiter. -/
theorem readsOff_canonicalChars (floats : PlainFloats floatText) (v : JsonValue) :
    ReadsOff IsDelimiter (ValueTexts floatText) (canonicalChars floatText v) := by
  rintro b ⟨w, rfl⟩ r s endsR endsS same
  have leads := lead_eq_of_append floats same
  cases scalar : lead v with
  | none =>
    -- two scalars: neither text has a delimiter in it
    have plainV := (canonicalChars_scalar floats scalar).2
    have plainW := (canonicalChars_scalar floats (leads ▸ scalar)).2
    exact readsOff_of_plain (T := {canonicalChars floatText w}) (fun c hc => (plainV c hc).1)
      (by rintro b rfl c hc; exact (plainW c hc).1) _ rfl r s endsR endsS same
  | some c =>
    match v, w with
    | .string k, .string k' =>
      obtain ⟨rfl, rest⟩ := quote_append_inj (by simpa [canonicalChars] using same)
      exact ⟨rfl, rest⟩
    | .array values, .array values' =>
      obtain ⟨texts, rest⟩ :=
        arrayText_append_inj floats (readsOff_canonicalValues floats values) same
      exact ⟨by simp [canonicalChars, texts], rest⟩
    | .object entries, .object entries' =>
      obtain ⟨texts, rest⟩ := objectText_append_inj (readsOff_canonicalEntries floats entries) same
      exact ⟨by simp [canonicalChars, texts], rest⟩

theorem readsOff_canonicalValues (floats : PlainFloats floatText) (values : List JsonValue) :
    ∀ a ∈ canonicalValues floatText values, ReadsOff IsDelimiter (ValueTexts floatText) a := by
  match values with
  | [] => simp [canonicalValues]
  | v :: values =>
    intro a ha
    rcases List.mem_cons.mp ha with rfl | ha
    · exact readsOff_canonicalChars floats v
    · exact readsOff_canonicalValues floats values a ha

theorem readsOff_canonicalEntries (floats : PlainFloats floatText)
    (entries : List (String × JsonValue)) :
    ∀ e ∈ canonicalEntries floatText entries,
      ReadsOff IsDelimiter (EntryTexts floatText) (entryText e) := by
  match entries with
  | [] => simp [canonicalEntries]
  | (key, v) :: entries =>
    intro e he
    rcases List.mem_cons.mp he with rfl | he
    · exact readsOff_entryText (readsOff_canonicalChars floats v)
    · exact readsOff_canonicalEntries floats entries e he

end

/-- Objects of one canonical text have entries of the same texts. -/
theorem canonicalJson_object_inj (floats : PlainFloats floatText)
    {entries entries' : List (String × JsonValue)}
    (same : canonicalJson floatText (.object entries) =
      canonicalJson floatText (.object entries')) :
    sortOn (·.1) (canonicalEntries floatText entries) =
      sortOn (·.1) (canonicalEntries floatText entries') := by
  have chars := congrArg String.toList same
  rw [canonicalJson, canonicalJson, String.toList_ofList, String.toList_ofList] at chars
  exact (objectText_append_inj (r := []) (s := []) (readsOff_canonicalEntries floats entries)
    (by simpa using chars)).1

theorem canonicalEntries_keys (entries : List (String × JsonValue)) :
    (canonicalEntries floatText entries).map (·.1) = entries.map (·.1) := by
  induction entries with
  | nil => rfl
  | cons entry entries ih => simp [canonicalEntries, ih]

/-- Entries listed in order of their keys are not moved. -/
theorem sortOn_canonicalEntries {entries : List (String × JsonValue)}
    (sorted : (entries.map (·.1)).Pairwise (· ≤ ·)) :
    sortOn (·.1) (canonicalEntries floatText entries) = canonicalEntries floatText entries := by
  rw [← @canonicalEntries_keys floatText] at sorted
  exact sortOn_eq_self _ (List.pairwise_map.mp sorted)

/-- Strings, and the absence of one, are told apart by their texts. -/
theorem canonicalChars_optionString_inj {s t : Option String}
    (same : canonicalChars floatText (s.elim .null .string) =
      canonicalChars floatText (t.elim .null .string)) : s = t := by
  cases s with
  | none =>
    cases t with
    | none => rfl
    | some t => simp [canonicalChars, quote] at same
  | some s =>
    cases t with
    | none => simp [canonicalChars, quote] at same
    | some t =>
      obtain ⟨rfl, -⟩ := quote_append_inj (s := s) (t := t) (q := []) (r := [])
        (by simpa [canonicalChars] using same)
      rfl

end Values

/-! ### No control characters -/

section Plain

private theorem hexDigit_ne_nul : ∀ n < 32, hexDigit (n / 16) ≠ '\x00' ∧
    hexDigit (n % 16) ≠ '\x00' := by decide

private theorem escapeChar_plain (c : Char) : ∀ d ∈ escapeChar c, d ≠ '\x00' := by
  unfold escapeChar
  split_ifs with h1 h2 h3 h4 h5 h6 h7 control
  rotate_right 2
  · obtain ⟨high, low⟩ := hexDigit_ne_nul c.toNat control
    simp [high, low]
  · intro d hd same
    obtain rfl := List.mem_singleton.mp hd
    subst same
    exact control (by decide)
  all_goals simp

private theorem quote_plain (s : String) : ∀ c ∈ quote s, c ≠ '\x00' := by
  intro c hc
  simp only [quote, List.mem_cons, List.mem_append, List.mem_flatMap, List.not_mem_nil,
    or_false] at hc
  rcases hc with rfl | ⟨d, -, hd⟩ | rfl
  · decide
  · exact escapeChar_plain d c hd
  · decide

private theorem intercalate_plain {texts : List (List Char)}
    (plain : ∀ a ∈ texts, ∀ c ∈ a, c ≠ '\x00') : ∀ c ∈ [','].intercalate texts, c ≠ '\x00' := by
  induction texts with
  | nil => simp
  | cons a texts ih =>
    have rest := ih fun b hb => plain b (List.mem_cons_of_mem _ hb)
    cases texts with
    | nil => simpa using plain
    | cons b texts =>
      intro c hc
      rw [List.intercalate_cons_cons, List.mem_append, List.mem_append] at hc
      rcases hc with (hc | hc) | hc
      · exact plain a List.mem_cons_self c hc
      · rw [List.mem_singleton.mp hc]
        decide
      · exact rest c hc

variable {floatText : UInt64 → List Char}

private theorem numberText_plain (floats : PlainFloats floatText) (n : JsonNumber) :
    ∀ c ∈ numberText floatText n, c ≠ '\x00' := by
  have digits : ∀ m : Nat, ∀ c ∈ Nat.toDigits 10 m, c ≠ '\x00' := by
    rintro m c hc rfl
    exact absurd (Nat.isDigit_of_mem_toDigits (by decide) (by decide) hc) (by decide)
  cases n with
  | posInt n => exact digits _
  | negInt n =>
    intro c hc
    rcases List.mem_cons.mp hc with rfl | hc
    · decide
    · exact digits _ c hc
  | float bits =>
    rintro c hc rfl
    exact absurd (floats.plain bits _ hc) (by decide)

mutual

/-- A canonical text has no null character in it. -/
theorem canonicalChars_plain (floats : PlainFloats floatText) (v : JsonValue) :
    ∀ c ∈ canonicalChars floatText v, c ≠ '\x00' := by
  match v with
  | .null => simp [canonicalChars]
  | .bool b => cases b <;> simp [canonicalChars]
  | .number n => simpa [canonicalChars] using numberText_plain floats n
  | .string s => simpa [canonicalChars] using quote_plain s
  | .array values =>
    have elements := intercalate_plain (canonicalValues_plain floats values)
    intro c hc
    simp only [canonicalChars, List.mem_cons, List.mem_append, List.not_mem_nil, or_false] at hc
    rcases hc with rfl | hc | rfl
    · decide
    · exact elements c hc
    · decide
  | .object entries =>
    have fields : ∀ a ∈ (sortOn (·.1) (canonicalEntries floatText entries)).map entryText,
        ∀ c ∈ a, c ≠ '\x00' := by
      intro a ha
      obtain ⟨e, he, rfl⟩ := List.mem_map.mp ha
      intro c hc
      simp only [entryText, List.mem_append, List.mem_cons] at hc
      rcases hc with hc | rfl | hc
      · exact quote_plain e.1 c hc
      · decide
      · exact canonicalEntries_plain floats entries e ((mem_sortOn _).mp he) c hc
    intro c hc
    simp only [canonicalChars, List.mem_cons, List.mem_append, List.not_mem_nil, or_false] at hc
    rcases hc with rfl | hc | rfl
    · decide
    · exact intercalate_plain fields c hc
    · decide

theorem canonicalValues_plain (floats : PlainFloats floatText) (values : List JsonValue) :
    ∀ a ∈ canonicalValues floatText values, ∀ c ∈ a, c ≠ '\x00' := by
  match values with
  | [] => simp [canonicalValues]
  | v :: values =>
    intro a ha
    rcases List.mem_cons.mp ha with rfl | ha
    · exact canonicalChars_plain floats v
    · exact canonicalValues_plain floats values a ha

theorem canonicalEntries_plain (floats : PlainFloats floatText)
    (entries : List (String × JsonValue)) :
    ∀ e ∈ canonicalEntries floatText entries, ∀ c ∈ e.2, c ≠ '\x00' := by
  match entries with
  | [] => simp [canonicalEntries]
  | (key, v) :: entries =>
    intro e he
    rcases List.mem_cons.mp he with rfl | he
    · exact canonicalChars_plain floats v
    · exact canonicalEntries_plain floats entries e he

end

end Plain

end CodeDb

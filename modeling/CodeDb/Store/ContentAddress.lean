import CodeDb.Store.Hashing

/-!
# Content addresses

What a hash is taken of tells apart everything that the hash stands for: the canonical
text of a value determines the value, but for the order in which its objects list their
keys, and the bytes an object or a history point is hashed as determine its parts.

## Main definitions

* `JsonValue.Valid` — the values that can occur
* `SameBits` — equality of values up to the order of keys and the bits of doubles
* `DistinctFloats` — what the printer of doubles is relied on for

## Main results

* `canonicalJson_eq_iff` — values of one text are the same up to the bits of doubles
* `objectPreimage_inj` — the bytes an object is hashed as determine its parts
* `contentAddresses_injective` — all three at once
-/

namespace CodeDb

open Delimited SortOn

/-! ### Values up to the order of keys -/

/-- The bits are those of a double that is a number. -/
def IsFinite (bits : UInt64) : Prop := bits.toNat / 2 ^ 52 % 2 ^ 11 ≠ 2 ^ 11 - 1

instance : DecidablePred IsFinite := fun _ => inferInstanceAs (Decidable (_ ≠ _))

/-- A number that can occur: a negative integer is below zero, and a double is finite. -/
def JsonNumber.Valid : JsonNumber → Prop
  | .posInt _ => True
  | .negInt n => n.toInt < 0
  | .float bits => IsFinite bits

namespace JsonValue

mutual

/-- A value all of whose numbers can occur. -/
def Valid : JsonValue → Prop
  | .number n => n.Valid
  | .array values => ValidValues values
  | .object entries => ValidEntries entries
  | _ => True

def ValidValues : List JsonValue → Prop
  | [] => True
  | v :: values => v.Valid ∧ ValidValues values

def ValidEntries : List (String × JsonValue) → Prop
  | [] => True
  | (_, v) :: entries => v.Valid ∧ ValidEntries entries

end

end JsonValue

/-- Equality of values up to the order of keys, with doubles compared by their bits. -/
def SameBits (a b : JsonValue) : Prop := a.normal id = b.normal id

instance : DecidableRel SameBits := fun _ _ => inferInstanceAs (Decidable (_ = _))

/-- What the printer of doubles is relied on for: texts are plain, a point or an exponent
marks them as those of doubles, and a number can be read back from its text. -/
structure DistinctFloats (floatText : UInt64 → List Char) : Prop extends
    PlainFloats floatText where
  marked : ∀ bits, IsFinite bits → ∃ c ∈ floatText bits, c = '.' ∨ c = 'e'
  readBack : ∃ read : List Char → UInt64, ∀ bits, IsFinite bits → read (floatText bits) = bits

variable {floatText : UInt64 → List Char}

theorem canonicalValues_eq_map (values : List JsonValue) :
    canonicalValues floatText values = values.map (canonicalChars floatText) := by
  induction values with
  | nil => rfl
  | cons v values ih => rw [canonicalValues, ih, List.map_cons]

theorem canonicalEntries_eq_map (entries : List (String × JsonValue)) :
    canonicalEntries floatText entries =
      entries.map fun e => (e.1, canonicalChars floatText e.2) := by
  induction entries with
  | nil => rfl
  | cons e entries ih => rw [canonicalEntries, ih, List.map_cons]

namespace JsonValue

variable {onFloat : UInt64 → UInt64}

theorem normalValues_eq_map (values : List JsonValue) :
    normalValues onFloat values = values.map (normal onFloat) := by
  induction values with
  | nil => rfl
  | cons v values ih => rw [normalValues, ih, List.map_cons]

theorem normalEntries_eq_map (entries : List (String × JsonValue)) :
    normalEntries onFloat entries = entries.map fun e => (e.1, e.2.normal onFloat) := by
  induction entries with
  | nil => rfl
  | cons e entries ih => rw [normalEntries, ih, List.map_cons]

theorem ValidValues.of_mem {values : List JsonValue} (valid : ValidValues values) :
    ∀ v ∈ values, v.Valid := by
  induction values with
  | nil => simp
  | cons v values ih => exact List.forall_mem_cons.mpr ⟨valid.1, ih valid.2⟩

theorem ValidEntries.of_mem {entries : List (String × JsonValue)} (valid : ValidEntries entries) :
    ∀ e ∈ entries, e.2.Valid := by
  induction entries with
  | nil => simp
  | cons e entries ih => exact List.forall_mem_cons.mpr ⟨valid.1, ih valid.2⟩

end JsonValue

/-! ### Numbers -/

private theorem toDigits_injective : Function.Injective (Nat.toDigits 10) := by
  intro m n same
  have read := congrArg (fun digits => Nat.ofDigitChars 10 digits 0) same
  simpa using read

private theorem isDigit_of_mem_toDigits {n : Nat} {c : Char} (listed : c ∈ Nat.toDigits 10 n) :
    c.isDigit :=
  Nat.isDigit_of_mem_toDigits (by decide) (by decide) listed

/-- The text of an integer has no mark of a double in it. -/
private theorem unmarked_toDigits (n : Nat) :
    ∀ c ∈ Nat.toDigits 10 n, ¬ (c = '.' ∨ c = 'e') := by
  rintro c listed (rfl | rfl) <;> exact absurd (isDigit_of_mem_toDigits listed) (by decide)

private theorem unmarked_neg_toDigits (n : Nat) :
    ∀ c ∈ '-' :: Nat.toDigits 10 n, ¬ (c = '.' ∨ c = 'e') :=
  List.forall_mem_cons.mpr ⟨by decide, unmarked_toDigits n⟩

private theorem toDigits_ne_neg (m n : Nat) : Nat.toDigits 10 m ≠ '-' :: Nat.toDigits 10 n := by
  intro same
  have sign : '-' ∈ Nat.toDigits 10 m := same ▸ List.mem_cons_self
  exact absurd (isDigit_of_mem_toDigits sign) (by decide)

/-- Numbers of one text are the same number. -/
theorem numberText_inj (floats : DistinctFloats floatText) {m n : JsonNumber} (hm : m.Valid)
    (hn : n.Valid) (same : numberText floatText m = numberText floatText n) : m = n := by
  -- only the text of a double is marked
  have apart : ∀ {bits : UInt64} {text : List Char}, IsFinite bits →
      (∀ c ∈ text, ¬ (c = '.' ∨ c = 'e')) → floatText bits ≠ text := by
    rintro bits text finite unmarked rfl
    obtain ⟨c, listed, mark⟩ := floats.marked bits finite
    exact unmarked c listed mark
  cases m with
  | posInt m =>
    cases n with
    | posInt n => rw [UInt64.toNat_inj.mp (toDigits_injective same)]
    | negInt n => exact absurd same (toDigits_ne_neg _ _)
    | float bits => exact absurd same.symm (apart hn (unmarked_toDigits _))
  | negInt m =>
    cases n with
    | posInt n => exact absurd same.symm (toDigits_ne_neg _ _)
    | negInt n =>
      have size := toDigits_injective (List.cons.inj same).2
      simp only [JsonNumber.Valid] at hm hn
      rw [Int64.toInt_inj.mp (show m.toInt = n.toInt by omega)]
    | float bits => exact absurd same.symm (apart hn (unmarked_neg_toDigits _))
  | float bits =>
    cases n with
    | posInt n => exact absurd same (apart hm (unmarked_toDigits _))
    | negInt n => exact absurd same (apart hm (unmarked_neg_toDigits _))
    | float bits' =>
      obtain ⟨read, reads⟩ := floats.readBack
      have readSame : read (floatText bits) = read (floatText bits') := congrArg read same
      rw [reads bits hm, reads bits' hn] at readSame
      rw [readSame]

/-! ### Values -/

/-- Sorting keeps entries beside the entries they come from. -/
private theorem sortOn_map {α β : Type*} (f : α → β) (entries : List (String × α)) :
    sortOn (·.1) (entries.map fun e => (e.1, f e.2)) =
      (sortOn (·.1) entries).map fun e => (e.1, f e.2) := by
  have beside : List.Forall₂ (fun (e : String × α) (t : String × β) => (e.1, f e.2) = t) entries
      (entries.map fun e => (e.1, f e.2)) := by
    simp [List.forall₂_map_right_iff, List.forall₂_same]
  have sorted : List.Forall₂ (fun (e : String × α) (t : String × β) => (e.1, f e.2) = t)
      (sortOn (·.1) entries) (sortOn (·.1) (entries.map fun e => (e.1, f e.2))) :=
    forall₂_sortOn (fun e t same => by rw [← same]) beside
  rw [← List.forall₂_map_left_iff, List.forall₂_eq_eq_eq] at sorted
  exact sorted.symm

mutual

/-- The text of a value does not depend on the order of keys. -/
theorem canonicalChars_normal (v : JsonValue) :
    canonicalChars floatText (v.normal id) = canonicalChars floatText v := by
  match v with
  | .null | .bool _ | .string _ => simp [JsonValue.normal]
  | .number n => cases n <;> simp [JsonValue.normal]
  | .array values =>
    have elements := canonicalValues_normal values
    rw [JsonValue.normal, canonicalChars, canonicalChars, elements]
  | .object entries =>
    have fields := canonicalEntries_normal entries
    rw [JsonValue.normal, canonicalChars, canonicalChars, ← fields, canonicalEntries_eq_map,
      canonicalEntries_eq_map, sortOn_map, sortOn_map, sortOn_sortOn]

theorem canonicalValues_normal (values : List JsonValue) :
    canonicalValues floatText (JsonValue.normalValues id values) =
      canonicalValues floatText values := by
  match values with
  | [] => rfl
  | v :: values =>
    rw [JsonValue.normalValues, canonicalValues, canonicalValues, canonicalChars_normal v,
      canonicalValues_normal values]

theorem canonicalEntries_normal (entries : List (String × JsonValue)) :
    canonicalEntries floatText (JsonValue.normalEntries id entries) =
      canonicalEntries floatText entries := by
  match entries with
  | [] => rfl
  | (key, v) :: entries =>
    rw [JsonValue.normalEntries, canonicalEntries, canonicalEntries, canonicalChars_normal v,
      canonicalEntries_normal entries]

end

/-- A value is told apart by its text from every value that is not the same. -/
def ToldApart (floatText : UInt64 → List Char) (v : JsonValue) : Prop :=
  ∀ w : JsonValue, w.Valid → canonicalChars floatText v = canonicalChars floatText w →
    v.normal id = w.normal id

/-- Numbers and words are told apart. -/
private theorem toldApart_scalar (floats : DistinctFloats floatText) {v : JsonValue}
    (valid : v.Valid) (scalar : lead v = none) : ToldApart floatText v := by
  intro w validW same
  have leads := lead_eq_of_append floats.toPlainFloats (congrArg (· ++ []) same)
  -- no word is spelled with the characters of numbers
  have numeral : ∀ n : JsonNumber, ∀ c ∈ numberText floatText n,
      c ∉ ['n', 't', 'f', 'u', 'r', 'a'] := by
    have digits : ∀ m, ∀ c ∈ Nat.toDigits 10 m, c ∉ ['n', 't', 'f', 'u', 'r', 'a'] := by
      intro m c listed word
      have digit := isDigit_of_mem_toDigits listed
      simp only [List.mem_cons, List.not_mem_nil, or_false] at word
      rcases word with rfl | rfl | rfl | rfl | rfl | rfl <;> exact absurd digit (by decide)
    intro n
    cases n with
    | posInt n => exact digits _
    | negInt n => exact List.forall_mem_cons.mpr ⟨by decide, digits _⟩
    | float bits =>
      intro c listed word
      have plain := floats.plain bits c listed
      simp only [List.mem_cons, List.not_mem_nil, or_false] at word
      rcases word with rfl | rfl | rfl | rfl | rfl | rfl <;> exact absurd plain (by decide)
  have spelled : ∀ (n : JsonNumber) (word : List Char) (c : Char), c ∈ word →
      c ∈ ['n', 't', 'f', 'u', 'r', 'a'] → numberText floatText n ≠ word := by
    rintro n word c listed letter rfl
    exact numeral n c listed letter
  cases v with
  | string _ => simp [lead] at scalar
  | array _ => simp [lead] at scalar
  | object _ => simp [lead] at scalar
  | null =>
    cases w with
    | null => rfl
    | bool b => cases b <;> simp [canonicalChars] at same
    | number n =>
      exact absurd same.symm (spelled n "null".toList 'n' (by decide) (by decide))
    | string _ | array _ | object _ => simp [lead] at leads
  | bool b =>
    cases w with
    | null => cases b <;> simp [canonicalChars] at same
    | bool b' => cases b <;> cases b' <;> simp [canonicalChars] at same <;> rfl
    | number n =>
      cases b
      · exact absurd same.symm (spelled n "false".toList 'f' (by decide) (by decide))
      · exact absurd same.symm (spelled n "true".toList 't' (by decide) (by decide))
    | string _ | array _ | object _ => simp [lead] at leads
  | number n =>
    cases w with
    | null => exact absurd same (spelled n "null".toList 'n' (by decide) (by decide))
    | bool b =>
      cases b
      · exact absurd same (spelled n "false".toList 'f' (by decide) (by decide))
      · exact absurd same (spelled n "true".toList 't' (by decide) (by decide))
    | number n' => rw [numberText_inj floats valid validW same]
    | string _ | array _ | object _ => simp [lead] at leads

/-- Lists are told apart by what tells their elements apart. -/
private theorem map_eq_map_of_told {α β γ : Type*} {text : α → β} (value : α → γ)
    (ok : α → Prop) {as : List α} (told : ∀ a ∈ as, ∀ b, ok b → text a = text b → value a = value b)
    {bs : List α} (valid : ∀ b ∈ bs, ok b) (same : as.map text = bs.map text) :
    as.map value = bs.map value := by
  induction as generalizing bs with
  | nil =>
    cases bs with
    | nil => rfl
    | cons b bs => cases same
  | cons a as ih =>
    cases bs with
    | nil => cases same
    | cons b bs =>
      obtain ⟨head, tail⟩ := List.cons.inj same
      obtain ⟨validB, valid⟩ := List.forall_mem_cons.mp valid
      obtain ⟨toldA, told⟩ := List.forall_mem_cons.mp told
      rw [List.map_cons, List.map_cons, toldA b validB head, ih told valid tail]

mutual

/-- Every value is told apart by its text. -/
theorem toldApart (floats : DistinctFloats floatText) (v : JsonValue) (valid : v.Valid) :
    ToldApart floatText v := by
  cases scalar : lead v with
  | none => exact toldApart_scalar floats valid scalar
  | some c =>
    intro w validW same
    have leads := lead_eq_of_append floats.toPlainFloats (congrArg (· ++ []) same)
    match v, w with
    | .string s, .string t =>
      obtain ⟨rfl, -⟩ := quote_append_inj (q := []) (r := []) (by simpa [canonicalChars] using same)
      rfl
    | .array values, .array values' =>
      have whole := congrArg (· ++ ([] : List Char)) same
      have texts := (arrayText_append_inj floats.toPlainFloats
        (readsOff_canonicalValues floats.toPlainFloats values) whole).1
      rw [canonicalValues_eq_map, canonicalValues_eq_map] at texts
      rw [JsonValue.normal, JsonValue.normal, JsonValue.normalValues_eq_map,
        JsonValue.normalValues_eq_map,
        map_eq_map_of_told _ _ (toldApart_values floats values valid) validW.of_mem texts]
    | .object entries, .object entries' =>
      have whole := congrArg (· ++ ([] : List Char)) same
      have texts := (objectText_append_inj
        (readsOff_canonicalEntries floats.toPlainFloats entries) whole).1
      rw [canonicalEntries_eq_map, canonicalEntries_eq_map, sortOn_map, sortOn_map] at texts
      have told := toldApart_entries floats entries valid
      have values := map_eq_map_of_told (fun e => (e.1, e.2.normal id)) (fun e => e.2.Valid)
        ?_ ?_ texts
      rw [JsonValue.normal, JsonValue.normal, JsonValue.normalEntries_eq_map,
        JsonValue.normalEntries_eq_map, sortOn_map, sortOn_map, values]
      · intro e listed e' validE sameText
        obtain ⟨key, text⟩ := Prod.mk.inj sameText
        exact Prod.ext key (told e ((mem_sortOn _).mp listed) e'.2 validE text)
      · exact fun e listed => validW.of_mem e ((mem_sortOn _).mp listed)

theorem toldApart_values (floats : DistinctFloats floatText) (values : List JsonValue)
    (valid : JsonValue.ValidValues values) : ∀ v ∈ values, ToldApart floatText v := by
  match values with
  | [] => simp
  | v :: values =>
    exact List.forall_mem_cons.mpr
      ⟨toldApart floats v valid.1, toldApart_values floats values valid.2⟩

theorem toldApart_entries (floats : DistinctFloats floatText)
    (entries : List (String × JsonValue)) (valid : JsonValue.ValidEntries entries) :
    ∀ e ∈ entries, ToldApart floatText e.2 := by
  match entries with
  | [] => simp
  | (key, v) :: entries =>
    exact List.forall_mem_cons.mpr
      ⟨toldApart floats v valid.1, toldApart_entries floats entries valid.2⟩

end

/-- Values have one canonical text exactly when they are the same, key order ignored and
doubles compared by their bits. -/
theorem canonicalJson_eq_iff (floats : DistinctFloats floatText) {a b : JsonValue}
    (validA : a.Valid) (validB : b.Valid) :
    canonicalJson floatText a = canonicalJson floatText b ↔ SameBits a b := by
  constructor
  · intro same
    exact toldApart floats a validA b validB (String.ofList_injective same)
  · intro same
    rw [canonicalJson, canonicalJson, ← canonicalChars_normal a, ← canonicalChars_normal b, same]

/-! ### Preimages -/

/-- The text of an integer: a sign below zero, and digits. -/
private theorem toList_toString_int (n : Int) :
    (toString n).toList = if 0 ≤ n then Nat.toDigits 10 n.toNat
      else '-' :: Nat.toDigits 10 (-n).toNat := by
  rw [Int.toString_eq_repr, Int.repr_eq_if]
  split_ifs <;> simp [Nat.repr_eq_ofList_toDigits]

private theorem plain_toString (n : Int) : ∀ c ∈ (toString n).toList, c ≠ '\x00' := by
  have digits : ∀ m, ∀ c ∈ Nat.toDigits 10 m, c ≠ '\x00' := by
    rintro m c listed rfl
    exact absurd (isDigit_of_mem_toDigits listed) (by decide)
  rw [toList_toString_int]
  split_ifs
  · exact digits _
  · exact List.forall_mem_cons.mpr ⟨by decide, digits _⟩

private theorem toString_int_injective : Function.Injective (toString : Int → String) := by
  intro m n same
  have texts := congrArg String.toList same
  simp only [toList_toString_int] at texts
  split_ifs at texts with hm hn hn
  · have size := toDigits_injective texts
    omega
  · exact absurd texts (toDigits_ne_neg _ _)
  · exact absurd texts.symm (toDigits_ne_neg _ _)
  · have size := toDigits_injective (List.cons.inj texts).2
    omega

/-- The bytes an object is hashed as determine its parts. -/
theorem objectPreimage_inj {kind kind' : String} {version version' : Int} {text text' : String}
    (plain : ∀ c ∈ kind.toList, c ≠ '\x00') (plain' : ∀ c ∈ kind'.toList, c ≠ '\x00')
    (same : objectPreimage kind version text = objectPreimage kind' version' text') :
    kind = kind' ∧ version = version' ∧ text = text' := by
  have bytes := List.append_cancel_left same
  simp only [utf8_separator, ← utf8_append] at bytes
  have chars := congrArg String.toList (utf8_injective bytes)
  simp only [String.toList_append, List.append_assoc] at chars
  obtain ⟨kinds, rest⟩ := append_inj_of_plain plain plain' (stops_separator _)
    (stops_separator _) chars
  obtain ⟨versions, rest'⟩ := append_inj_of_plain (plain_toString version)
    (plain_toString version') (stops_separator _) (stops_separator _)
    (List.append_cancel_left rest)
  exact ⟨String.toList_inj.mp kinds, toString_int_injective (String.toList_inj.mp versions),
    String.toList_inj.mp (List.append_cancel_left rest')⟩

/-- Content addresses are injective up to collisions of the digest: texts determine
values, and what is hashed determines what is named by the hash. -/
theorem contentAddresses_injective (floats : DistinctFloats floatText) :
    (∀ a b : JsonValue, a.Valid → b.Valid →
      (canonicalJson floatText a = canonicalJson floatText b ↔ SameBits a b)) ∧
    (∀ (kind kind' : String) (version version' : Int) (payload payload' : String),
      (∀ c ∈ kind.toList, c ≠ '\x00') → (∀ c ∈ kind'.toList, c ≠ '\x00') →
      (objectPreimage kind version payload = objectPreimage kind' version' payload' ↔
        (kind, version, payload) = (kind', version', payload'))) ∧
    (∀ (parent parent' : Option Hash) (migration migration' output output' : Hash),
      (∀ h ∈ parent, IsHash h) → (∀ h ∈ parent', IsHash h) → IsHash migration →
      IsHash migration' → IsHash output → IsHash output' →
      (parent, migration, output) ≠ (parent', migration', output') →
      historyPreimage parent migration output ≠ historyPreimage parent' migration' output') := by
  refine ⟨fun a b validA validB => canonicalJson_eq_iff floats validA validB, ?_, ?_⟩
  · intro kind kind' version version' payload payload' plain plain'
    constructor
    · intro same
      obtain ⟨rfl, rfl, rfl⟩ := objectPreimage_inj plain plain' same
      rfl
    · rintro ⟨⟩
      rfl
  · intro parent parent' migration migration' output output' hp hp' hm hm' _ _ differs same
    obtain ⟨rfl, rfl, rfl⟩ := historyPreimage_inj hp hp' hm hm' same
    exact differs rfl

/-- Doubles spelled by their bits, with a sign. Both zeros are spelled as a printer of
doubles spells them. -/
def signedText (bits : UInt64) : List Char :=
  if bits.toNat < 2 ^ 63 then Nat.toDigits 10 bits.toNat ++ ['.', '0']
  else '-' :: (Nat.toDigits 10 (bits.toNat - 2 ^ 63) ++ ['.', '0'])

/-- Read a double that is spelled by its bits. -/
def readSigned : List Char → UInt64
  | '-' :: digits => .ofNat (2 ^ 63 + Nat.ofDigitChars 10 (digits.takeWhile Char.isDigit) 0)
  | digits => .ofNat (Nat.ofDigitChars 10 (digits.takeWhile Char.isDigit) 0)

private theorem readSigned_signedText (bits : UInt64) : readSigned (signedText bits) = bits := by
  have whole : ∀ n, (Nat.toDigits 10 n ++ ['.', '0']).takeWhile Char.isDigit =
      Nat.toDigits 10 n := by
    intro n
    rw [List.takeWhile_append_of_pos fun c listed => isDigit_of_mem_toDigits listed]
    simp
  unfold signedText
  split_ifs with small
  · have unsigned : ∀ rest, Nat.toDigits 10 bits.toNat ++ ['.', '0'] ≠ '-' :: rest := by
      intro rest same
      obtain ⟨c, digits, spelled⟩ :=
        List.exists_cons_of_ne_nil (Nat.toDigits_ne_nil (n := bits.toNat) (b := 10))
      rw [spelled, List.cons_append] at same
      have sign : '-' ∈ Nat.toDigits 10 bits.toNat := by
        rw [spelled, (List.cons.inj same).1]
        exact List.mem_cons_self
      exact absurd (isDigit_of_mem_toDigits sign) (by decide)
    rw [readSigned, whole, Nat.ofDigitChars_ten_toDigits, UInt64.ofNat_toNat]
    exact unsigned
  · rw [readSigned, whole, Nat.ofDigitChars_ten_toDigits,
      Nat.add_sub_cancel' (not_lt.mp small), UInt64.ofNat_toNat]

theorem signedText_distinct : DistinctFloats signedText where
  nonempty bits := by
    unfold signedText
    split_ifs <;> simp
  plain bits := by
    have digits : ∀ n, ∀ c ∈ Nat.toDigits 10 n ++ ['.', '0'],
        c.isDigit ∨ c ∈ ['.', '-', '+', 'e'] := by
      intro n c listed
      rcases List.mem_append.mp listed with listed | listed
      · exact Or.inl (isDigit_of_mem_toDigits listed)
      · have suffix : ∀ d ∈ ['.', '0'], d.isDigit ∨ d ∈ ['.', '-', '+', 'e'] := by
          simp only [List.mem_cons, List.not_mem_nil, or_false, forall_eq_or_imp, forall_eq]
          decide
        exact suffix c listed
    unfold signedText
    split_ifs
    · exact digits _
    · exact List.forall_mem_cons.mpr ⟨by decide, digits _⟩
  marked bits _ := by
    refine ⟨'.', ?_, Or.inl rfl⟩
    unfold signedText
    split_ifs <;> simp
  readBack := ⟨readSigned, fun bits _ => readSigned_signedText bits⟩

/-- The values of the two zeros are the same, and their texts are not. -/
theorem canonicalJson_signedZero :
    ¬ ∀ a b : JsonValue, a.Valid → b.Valid →
      (canonicalJson signedText a = canonicalJson signedText b ↔ SameValue a b) := by
  intro told
  have zeros := told (.number (.float 0)) (.number (.float 0x8000000000000000))
    (show IsFinite 0 by decide) (show IsFinite 0x8000000000000000 by decide)
  exact absurd (zeros.mpr (by decide)) (by decide)

/-- An object is the same with its keys in another order, zero and negative zero have
other texts, a kind does not run into what is behind it, and the first history point is
not that of a parent. -/
theorem contentAddresses_injective_signed :
    canonicalJson signedText (.object [("b", .number (.float 0)), ("a", .null)]) =
      canonicalJson signedText (.object [("a", .null), ("b", .number (.float 0))]) ∧
    canonicalJson signedText (.number (.float 0)) ≠
      canonicalJson signedText (.number (.float 0x8000000000000000)) ∧
    objectPreimage "Type" 1 "\x7b\x7d" ≠ objectPreimage "Typ" 1 "e\x7b\x7d" ∧
    historyPreimage none "sha256:ab" "sha256:cd" ≠
      historyPreimage (some "sha256:ab") "sha256:ab" "sha256:cd" := by
  obtain ⟨texts, preimages, histories⟩ := contentAddresses_injective signedText_distinct
  have zero : (JsonValue.number (.float 0)).Valid := show IsFinite 0 by decide
  have signed : (JsonValue.number (.float 0x8000000000000000)).Valid :=
    show IsFinite 0x8000000000000000 by decide
  have zeros := texts _ _ zero signed
  have orders := texts (.object [("b", .number (.float 0)), ("a", .null)])
    (.object [("a", .null), ("b", .number (.float 0))]) ⟨zero, trivial, trivial⟩
    ⟨trivial, zero, trivial⟩
  have kinds := preimages "Type" "Typ" 1 1 "\x7b\x7d" "e\x7b\x7d" (by simp) (by simp)
  have ab : IsHash "sha256:ab" := ⟨[0xab], by decide⟩
  have cd : IsHash "sha256:cd" := ⟨[0xcd], by decide⟩
  refine ⟨orders.mpr (by decide), fun same => absurd (zeros.mp same) (by decide),
    fun same => absurd (kinds.mp same) (by decide), ?_⟩
  exact histories none (some "sha256:ab") "sha256:ab" "sha256:ab" "sha256:cd" "sha256:cd"
    (by simp) (by simpa using ab) ab ab cd cd (by simp)

end CodeDb

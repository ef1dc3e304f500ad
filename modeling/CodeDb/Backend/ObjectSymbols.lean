import CodeDb.Lib.ByteImage
import CodeDb.Lib.SortOn
import CodeDb.Store.Hashing

/-!
# Names and symbols of object files

The compiled text of a function refers to other functions and to its static data. An object file
has a symbol for each, and a relocation refers to its symbol by the index in the table of symbols.
A symbol refers to its name by the place in the table of strings, where a name stands once and is
ended by a zero.

Both tables are filled in passes, one symbol after the other. An index that a pass notes for a key
is the index of the symbol that it adds for this key, and a place in the table of strings stays
right when more strings are added.

## Main definitions

* `TextRelocation`, `StaticDataEntry` — what is to be written, next to text and data
* `StringTable` — names, each once
* `SymbolPass` — symbols with their names and indices, as they are added

## Main results

* `StringTable.Sound.cstringAt` — a name is read where the table says
* `SymbolPass.symbols_pushAll`, `SymbolPass.mem_indexes_pushAll` — what a pass adds
* `SymbolPass.pushStatics_eq`, `SymbolPass.isSome_lookup` — no lookup of a pass fails
-/

namespace CodeDb

open ByteImage SortOn

/-! ### What is to be written -/

/-- A blob of static data, and where it lies in the read-only data. -/
structure StaticDataEntry where
  staticDataHash : Hash
  offset : UInt64
  len : UInt64
deriving DecidableEq

structure CallRelocation where
  offset : UInt64
  targetAbiSymbol : String
deriving DecidableEq

structure StaticDataAddressRelocation where
  offset : UInt64
  staticDataHash : Hash
deriving DecidableEq

/-- A place of the text where an address is missing. -/
inductive TextRelocation
  | call (relocation : CallRelocation)
  | staticDataAddress (relocation : StaticDataAddressRelocation)
deriving DecidableEq

def TextRelocation.asCall : TextRelocation → Option CallRelocation
  | .call relocation => some relocation
  | .staticDataAddress _ => none

/-- What is known of a function once it is compiled: its text, its read-only data, and what is to
be made known of both. -/
structure CompiledFunction where
  text : List UInt8
  rodata : List UInt8
  relocations : List TextRelocation
  staticData : List StaticDataEntry

/-- How many bytes of the text a relocation is about, where the address of static data takes a
given number of them. -/
def TextRelocation.width (dataWidth : Nat) : TextRelocation → Nat
  | .call _ => 4
  | .staticDataAddress _ => dataWidth

def TextRelocation.offset : TextRelocation → UInt64
  | .call relocation => relocation.offset
  | .staticDataAddress relocation => relocation.offset

/-- Static data lies inside the read-only data, each blob once, and relocations lie inside the text
and refer to static data that is listed. -/
structure CompiledFunction.WellPlaced (function : CompiledFunction) (dataWidth : Nat) : Prop where
  entries : ∀ entry ∈ function.staticData,
    entry.offset.toNat + entry.len.toNat ≤ function.rodata.length
  distinct : (function.staticData.map (·.staticDataHash)).Nodup
  inside : ∀ r ∈ function.relocations, r.offset.toNat + r.width dataWidth ≤ function.text.length
  listed : ∀ offset hash, .staticDataAddress ⟨offset, hash⟩ ∈ function.relocations →
    ∃ entry ∈ function.staticData, entry.staticDataHash = hash

/-- The functions that are called, other than the function itself. -/
def externalSymbols (functionSymbol : String) (relocations : List TextRelocation) : List String :=
  sortedSet (((relocations.filterMap TextRelocation.asCall).map (·.targetAbiSymbol)).filter
    (· ≠ functionSymbol))

theorem mem_externalSymbols {functionSymbol name : String} {relocations : List TextRelocation} :
    name ∈ externalSymbols functionSymbol relocations ↔
      (∃ offset, .call ⟨offset, name⟩ ∈ relocations) ∧ name ≠ functionSymbol := by
  have called : (∃ r ∈ relocations, ∃ c, r.asCall = some c ∧ c.targetAbiSymbol = name) ↔
      ∃ offset, .call ⟨offset, name⟩ ∈ relocations := by
    constructor
    · rintro ⟨r, listed, c, call, rfl⟩
      cases r with
      | call relocation =>
        cases call
        exact ⟨c.offset, listed⟩
      | staticDataAddress relocation => cases call
    · rintro ⟨offset, listed⟩
      exact ⟨_, listed, ⟨offset, name⟩, rfl, rfl⟩
  rw [externalSymbols, mem_sortedSet, List.mem_filter, decide_eq_true_iff, List.mem_map, ← called]
  simp only [List.mem_filterMap]
  grind

/-- Where a file keeps its static data. -/
structure StaticDataSectionPlacement where
  name : String
  fileOffset : Nat
deriving DecidableEq

structure NativeObjectImage where
  bytes : List UInt8
  staticDataSection : Option StaticDataSectionPlacement

/-- The first multiple of an alignment from a value on. -/
def alignTo (value align : Nat) : Nat :=
  if align ≤ 1 then value else (value + align - 1) / align * align

theorem le_alignTo (value align : Nat) : value ≤ alignTo value align := by
  rw [alignTo]
  split
  · exact le_rfl
  · have split := Nat.div_add_mod' (value + align - 1) align
    have rest := Nat.mod_lt (value + align - 1) (by omega : align > 0)
    omega

/-! ### Names -/

/-- Names, each ended by a zero, and where they stand. A later insertion is found first. -/
structure StringTable where
  bytes : List UInt8 := []
  offsets : List (String × UInt32) := []

namespace StringTable

/-- Where a name stands. There is none where the source panics. -/
def offset (table : StringTable) (value : String) : Option UInt32 := table.offsets.lookup value

/-- A table begins with a zero, which is the empty name. -/
def started (table : StringTable) : List UInt8 :=
  if table.bytes.isEmpty then [0] else table.bytes

/-- The place of a name, which is appended if it is not there. -/
def insert (table : StringTable) (value : String) : StringTable × UInt32 :=
  match table.offset value with
  | some offset => ({ table with bytes := table.started }, offset)
  | none =>
    let offset := UInt32.ofNat table.started.length
    (⟨table.started ++ utf8 value ++ [0], (value, offset) :: table.offsets⟩, offset)

/-- A table has the names of another one at the same places. -/
structure Extends (table larger : StringTable) : Prop where
  bytes : table.bytes <+: larger.bytes
  offsets : ∀ {value offset}, table.offset value = some offset → larger.offset value = some offset

/-- Names stand at their places, as far as there is room for the place in the table. -/
structure Sound (table : StringTable) : Prop where
  first : table.bytes = [] ∨ At table.bytes 0 [0]
  names : ∀ {value offset}, table.offset value = some offset → ∃ place,
    offset = UInt32.ofNat place ∧ At table.bytes place (utf8 value ++ [0])

variable {table table' table'' : StringTable} {value : String} {place : UInt32}

theorem Extends.refl (table : StringTable) : table.Extends table := ⟨List.prefix_rfl, id⟩

theorem Extends.trans (first : table.Extends table') (next : table'.Extends table'') :
    table.Extends table'' :=
  ⟨first.bytes.trans next.bytes, fun found => next.offsets (first.offsets found)⟩

theorem prefix_started (table : StringTable) : table.bytes <+: table.started := by
  rw [started]
  split
  next empty => simp [List.isEmpty_iff.mp empty]
  next => exact List.prefix_rfl

theorem insert_of_found {offset : UInt32} (found : table.offset value = some offset) :
    table.insert value = ({ table with bytes := table.started }, offset) := by
  rw [insert, found]

theorem insert_of_absent (absent : table.offset value = none) :
    table.insert value = (⟨table.started ++ utf8 value ++ [0],
      (value, UInt32.ofNat table.started.length) :: table.offsets⟩,
      UInt32.ofNat table.started.length) := by
  rw [insert, absent]

theorem extends_insert (table : StringTable) (value : String) :
    table.Extends (table.insert value).1 := by
  cases known : table.offset value with
  | some offset =>
    rw [insert_of_found known]
    exact ⟨prefix_started table, id⟩
  | none =>
    rw [insert_of_absent known]
    constructor
    · exact (prefix_started table).trans ⟨utf8 value ++ [0], (List.append_assoc ..).symm⟩
    · intro v offset found
      have other : (v == value) = false := by
        apply beq_false_of_ne
        rintro rfl
        cases known.symm.trans found
      rw [StringTable.offset, List.lookup_cons, other]
      exact found

theorem offset_insert (table : StringTable) (value : String) :
    (table.insert value).1.offset value = some (table.insert value).2 := by
  cases known : table.offset value with
  | some offset =>
    rw [insert_of_found known]
    exact known
  | none =>
    rw [insert_of_absent known]
    exact List.lookup_cons_self

theorem started_prefix_insert (table : StringTable) (value : String) :
    table.started <+: (table.insert value).1.bytes := by
  cases known : table.offset value with
  | some offset => exact insert_of_found known ▸ List.prefix_rfl
  | none =>
    rw [insert_of_absent known]
    exact ⟨utf8 value ++ [0], (List.append_assoc ..).symm⟩

/-- There is a first zero for the empty name. -/
theorem Sound.at_zero (sound : table.Sound) (value : String) :
    At (table.insert value).1.bytes 0 [0] := by
  have started : At table.started 0 [0] := by
    rcases sound.first with empty | zero
    · rw [started, empty]
      exact ⟨[], [], rfl, rfl⟩
    · exact zero.mono (prefix_started table)
  exact started.mono (started_prefix_insert table value)

theorem Sound.insert (sound : table.Sound) (value : String) : (table.insert value).1.Sound := by
  refine ⟨Or.inr (sound.at_zero value), ?_⟩
  intro v offset found
  have grown := (extends_insert table value).bytes
  by_cases same : v = value ∧ table.offset value = none
  · obtain ⟨rfl, absent⟩ := same
    rw [insert_of_absent absent] at found ⊢
    cases List.lookup_cons_self.symm.trans found
    refine ⟨_, rfl, ?_⟩
    rw [List.append_assoc]
    exact at_append ..
  · -- the other names stand where they stood
    have kept : table.offset v = some offset := by
      cases known : table.offset value with
      | some place =>
        rw [insert_of_found known] at found
        exact found
      | none =>
        rw [insert_of_absent known] at found
        have other : (v == value) = false := beq_false_of_ne fun equal => same ⟨equal, known⟩
        rwa [StringTable.offset, List.lookup_cons, other] at found
    obtain ⟨place, equal, stands⟩ := sound.names kept
    exact ⟨place, equal, stands.mono grown⟩

theorem sound_empty : ({} : StringTable).Sound :=
  ⟨Or.inl rfl, fun found => absurd found (by simp [StringTable.offset])⟩

/-- A name is read at its place, if there was room for the places. -/
theorem Sound.cstringAt (sound : table.Sound) (room : table.bytes.length ≤ 2 ^ 32)
    (found : table.offset value = some place) (plain : 0 ∉ utf8 value) :
    ByteImage.cstringAt table.bytes place.toNat = some (utf8 value) := by
  obtain ⟨n, rfl, stands⟩ := sound.names found
  have within := stands.le
  rw [List.length_append, List.length_singleton] at within
  rw [UInt32.toNat_ofNat_of_lt' (by change n < 2 ^ 32; omega)]
  exact stands.cstringAt plain

end StringTable

/-! ### Symbols -/

/-- Symbols as they are added, with their names and with the index of the symbol of a key. -/
structure SymbolPass (σ : Type) where
  strtab : StringTable
  symbols : List σ
  indexes : List (String × UInt32) := []

/-- A symbol to be added: its key, its name, and what it is once its name has a place. -/
structure Addition (σ : Type) where
  key : String
  name : String
  symbol : UInt32 → σ

namespace SymbolPass

variable {σ : Type}

def push (pass : SymbolPass σ) (added : Addition σ) : SymbolPass σ :=
  let (strtab, name) := pass.strtab.insert added.name
  { strtab
    symbols := pass.symbols ++ [added.symbol name]
    indexes := (added.key, UInt32.ofNat pass.symbols.length) :: pass.indexes }

def pushAll (pass : SymbolPass σ) (additions : List (Addition σ)) : SymbolPass σ :=
  additions.foldl push pass

/-- The names of the symbols of static data. A later entry replaces one of the same hash. -/
def staticSymbolNames (stem : String) (staticData : List StaticDataEntry) : List (Hash × String) :=
  (staticData.zipIdx.map fun (entry, idx) => (entry.staticDataHash, stem ++ toString idx)).reverse

/-- Add a symbol for each entry of static data. There are none where the source panics. -/
def pushStatics (pass : SymbolPass σ) (names : List (Hash × String))
    (symbol : StaticDataEntry → UInt32 → σ) (staticData : List StaticDataEntry) :
    Option (SymbolPass σ) :=
  staticData.foldlM (fun pass entry => do
    let name ← names.lookup entry.staticDataHash
    return pass.push ⟨entry.staticDataHash, name, symbol entry⟩) pass

variable {pass : SymbolPass σ} {additions : List (Addition σ)}

theorem pushAll_cons (pass : SymbolPass σ) (added : Addition σ) (additions : List (Addition σ)) :
    pass.pushAll (added :: additions) = (pass.push added).pushAll additions := rfl

theorem extends_pushAll (pass : SymbolPass σ) (additions : List (Addition σ)) :
    pass.strtab.Extends (pass.pushAll additions).strtab := by
  induction additions generalizing pass with
  | nil => exact .refl _
  | cons added additions ih =>
    exact (StringTable.extends_insert pass.strtab added.name).trans (ih (pass.push added))

theorem sound_pushAll (pass : SymbolPass σ) (sound : pass.strtab.Sound)
    (additions : List (Addition σ)) : (pass.pushAll additions).strtab.Sound := by
  induction additions generalizing pass with
  | nil => exact sound
  | cons added additions ih => exact ih (pass.push added) (sound.insert added.name)

/-- The names that are added have places. -/
theorem offset_pushAll (pass : SymbolPass σ) {additions : List (Addition σ)} : ∀ added ∈ additions,
    ∃ place, (pass.pushAll additions).strtab.offset added.name = some place := by
  induction additions generalizing pass with
  | nil => exact fun added listed => absurd listed List.not_mem_nil
  | cons first additions ih =>
    intro added listed
    rcases List.mem_cons.mp listed with rfl | listed
    · exact ⟨_, (extends_pushAll (pass.push added) additions).offsets
        (StringTable.offset_insert pass.strtab added.name)⟩
    · exact ih (pass.push first) added listed

/-- The symbols that are added, with the places that their names have in the end. -/
theorem symbols_pushAll {table : StringTable}
    (larger : (pass.pushAll additions).strtab.Extends table) :
    (pass.pushAll additions).symbols = pass.symbols ++
      additions.map fun added => added.symbol ((table.offset added.name).getD 0) := by
  induction additions generalizing pass with
  | nil => exact (List.append_nil _).symm
  | cons added additions ih =>
    have place : table.offset added.name = some (pass.strtab.insert added.name).2 :=
      larger.offsets ((extends_pushAll (pass.push added) additions).offsets
        (StringTable.offset_insert pass.strtab added.name))
    rw [pushAll_cons, ih larger, List.map_cons, place]
    exact List.append_assoc ..

/-- An index that is noted for a key is that of the symbol added for it. -/
theorem mem_indexes_pushAll {key : String} {index : UInt32}
    (noted : (key, index) ∈ (pass.pushAll additions).indexes) :
    (key, index) ∈ pass.indexes ∨ ∃ i added, additions[i]? = some added ∧ added.key = key ∧
      index = UInt32.ofNat (pass.symbols.length + i) := by
  induction additions generalizing pass with
  | nil => exact Or.inl noted
  | cons first additions ih =>
    rcases ih noted with before | ⟨i, added, found, same, rfl⟩
    · rcases List.mem_cons.mp before with same | before
      · cases same
        exact Or.inr ⟨0, first, rfl, rfl, rfl⟩
      · exact Or.inl before
    · refine Or.inr ⟨i + 1, added, found, same, ?_⟩
      rw [push, List.length_append, List.length_singleton, Nat.add_assoc, Nat.add_comm 1 i]

/-- What is noted before stays. -/
theorem indexes_suffix_pushAll (pass : SymbolPass σ) (additions : List (Addition σ)) :
    pass.indexes <:+ (pass.pushAll additions).indexes := by
  induction additions generalizing pass with
  | nil => exact List.suffix_rfl
  | cons first additions ih => exact (List.suffix_cons _ pass.indexes).trans (ih (pass.push first))

/-- An index is noted for every key. -/
theorem noted_pushAll (pass : SymbolPass σ) {additions : List (Addition σ)} : ∀ added ∈ additions,
    ∃ index, (added.key, index) ∈ (pass.pushAll additions).indexes := by
  induction additions generalizing pass with
  | nil => exact fun added listed => absurd listed List.not_mem_nil
  | cons first additions ih =>
    intro added listed
    rcases List.mem_cons.mp listed with rfl | listed
    · exact ⟨_, (indexes_suffix_pushAll (pass.push added) additions).subset List.mem_cons_self⟩
    · exact ih (pass.push first) added listed

/-- What each entry of static data adds. -/
def staticAdditions (stem : String) (symbol : StaticDataEntry → UInt32 → σ)
    (staticData : List StaticDataEntry) : List (Addition σ) :=
  staticData.zipIdx.map fun (entry, idx) =>
    ⟨entry.staticDataHash, stem ++ toString idx, symbol entry⟩

/-- Where the hashes differ, every entry has the name of its position. -/
theorem lookup_staticSymbolNames (stem : String) {staticData : List StaticDataEntry}
    (distinct : (staticData.map (·.staticDataHash)).Nodup) {entry : StaticDataEntry} {idx : Nat}
    (listed : (entry, idx) ∈ staticData.zipIdx) :
    (staticSymbolNames stem staticData).lookup entry.staticDataHash =
      some (stem ++ toString idx) := by
  have keys : ((staticSymbolNames stem staticData).map Prod.fst).Nodup := by
    rw [staticSymbolNames, List.map_reverse, List.nodup_reverse, List.map_map]
    have same : (staticData.zipIdx.map (Prod.fst ∘ fun (entry, idx) =>
        (entry.staticDataHash, stem ++ toString idx))) = staticData.map (·.staticDataHash) := by
      conv_rhs => rw [← List.zipIdx_map_fst (i := 0) (l := staticData), List.map_map]
      rfl
    rwa [same]
  rw [lookup_eq_some_iff keys, staticSymbolNames, List.mem_reverse]
  exact List.mem_map_of_mem (f := fun (entry, idx) => (entry.staticDataHash, stem ++ toString idx))
    listed

theorem pushStatics_eq (pass : SymbolPass σ) (stem : String) (symbol : StaticDataEntry → UInt32 → σ)
    {staticData : List StaticDataEntry} (distinct : (staticData.map (·.staticDataHash)).Nodup) :
    pass.pushStatics (staticSymbolNames stem staticData) symbol staticData =
      some (pass.pushAll (staticAdditions stem symbol staticData)) := by
  -- over a part of the entries, which have the names of their positions in the whole
  have partwise : ∀ (part : List StaticDataEntry) (from_ : Nat) (pass : SymbolPass σ),
      (∀ e ∈ part.zipIdx from_, e ∈ staticData.zipIdx) →
      pass.pushStatics (staticSymbolNames stem staticData) symbol part =
        some (pass.pushAll ((part.zipIdx from_).map fun (entry, idx) =>
          ⟨entry.staticDataHash, stem ++ toString idx, symbol entry⟩)) := by
    intro part
    induction part with
    | nil => exact fun _ _ _ => rfl
    | cons entry part ih =>
      intro from_ pass listed
      rw [List.zipIdx_cons] at listed ⊢
      have name := lookup_staticSymbolNames stem distinct (listed _ List.mem_cons_self)
      rw [pushStatics, List.foldlM_cons, name]
      exact ih _ _ fun e later => listed e (List.mem_cons_of_mem _ later)
  exact partwise staticData 0 pass fun e listed => listed

end SymbolPass

/-- A noted key is found, with an index that is noted for it. -/
theorem exists_lookup {indexes : List (String × UInt32)} {key : String} {index : UInt32}
    (noted : (key, index) ∈ indexes) :
    ∃ found, indexes.lookup key = some found ∧ (key, found) ∈ indexes := by
  obtain ⟨found, known⟩ := Option.isSome_iff_exists.mp
    (List.lookup_isSome_iff.mpr ⟨(key, index), noted, beq_self_eq_true key⟩)
  obtain ⟨front, rest, rfl, -⟩ := List.lookup_eq_some_iff.mp known
  exact ⟨found, known, List.mem_append_right _ List.mem_cons_self⟩

/-- Numbers are written without zeros. -/
theorem zero_notMem_utf8_append_toString {stem : String} (plain : 0 ∉ utf8 stem) (n : Nat) :
    0 ∉ utf8 (stem ++ toString n) := by
  rw [utf8_append, List.mem_append]
  rintro (listed | listed)
  · exact plain listed
  · rw [Nat.toString_eq_ofList_toDigits, utf8_ofList] at listed
    have digit := Utf8.mem_encode (by decide) listed
    exact absurd (Nat.isDigit_of_mem_toDigits (by decide) (by decide) digit) (by decide)

/-! ### Positions -/

section Positions

variable {α : Type} {symbol : α} {i : Nat} (before locals externals : List α) (function : α)

theorem getElem?_local (found : locals[i]? = some symbol) :
    (before ++ locals ++ function :: externals)[before.length + i]? = some symbol := by
  obtain ⟨bound, -⟩ := List.getElem?_eq_some_iff.mp found
  rw [List.append_assoc, List.getElem?_append_right (Nat.le_add_right ..), Nat.add_sub_cancel_left,
    List.getElem?_append_left bound, found]

theorem getElem?_function :
    (before ++ locals ++ function :: externals)[before.length + locals.length]? =
      some function := by
  rw [← List.length_append, List.getElem?_append_right le_rfl, Nat.sub_self]
  rfl

theorem getElem?_external (found : externals[i]? = some symbol) :
    (before ++ locals ++ function :: externals)[before.length + locals.length + 1 + i]? =
      some symbol := by
  rw [← List.length_append, List.getElem?_append_right (by omega), Nat.add_assoc,
    Nat.add_sub_cancel_left, Nat.add_comm 1 i, List.getElem?_cons_succ, found]

end Positions

/-! ### The passes of a writer -/

/-- How a format makes symbols of their names: those of static data, that of the function and those
of the functions that it calls, behind some symbols that are always there. -/
structure SymbolFormat (σ : Type) where
  before : List σ
  stem : String
  static : StaticDataEntry → UInt32 → σ
  function : UInt32 → σ
  external : UInt32 → σ

namespace SymbolFormat

variable {σ : Type} (format : SymbolFormat σ) (functionSymbol : String)
  (staticData : List StaticDataEntry) (relocations : List TextRelocation)

/-- The symbols of an object: first those that are local, and then all of them. There are none
where the source panics. -/
def symbolPasses : Option (SymbolPass σ × SymbolPass σ) := do
  let (strtab, functionName) := StringTable.insert {} functionSymbol
  let staticSymbolNames := SymbolPass.staticSymbolNames format.stem staticData
  let statics ← SymbolPass.pushStatics { strtab, symbols := format.before } staticSymbolNames
    format.static staticData
  let functionIndex := UInt32.ofNat statics.symbols.length
  let globals := SymbolPass.pushAll
    { strtab := statics.strtab
      symbols := statics.symbols ++ [format.function functionName]
      indexes := [(functionSymbol, functionIndex)] }
    ((externalSymbols functionSymbol relocations).map fun external =>
      ⟨external, external, format.external⟩)
  return (statics, globals)

/-- The symbols, where the names have their places. -/
def symbols (place : String → UInt32) : List σ :=
  format.before ++ staticData.zipIdx.map (fun (entry, idx) =>
    format.static entry (place (format.stem ++ toString idx))) ++
    format.function (place functionSymbol) ::
      (externalSymbols functionSymbol relocations).map fun external =>
        format.external (place external)

/-- What there is before the symbols of static data. -/
def firstPass : SymbolPass σ :=
  { strtab := (StringTable.insert {} functionSymbol).1, symbols := format.before }

/-- The symbols up to those of static data. -/
def staticPass : SymbolPass σ :=
  (format.firstPass functionSymbol).pushAll
    (SymbolPass.staticAdditions format.stem format.static staticData)

/-- The symbols up to that of the function. -/
def functionPass : SymbolPass σ :=
  { strtab := (format.staticPass functionSymbol staticData).strtab
    symbols := (format.staticPass functionSymbol staticData).symbols ++
      [format.function (StringTable.insert {} functionSymbol).2]
    indexes := [(functionSymbol,
      UInt32.ofNat (format.staticPass functionSymbol staticData).symbols.length)] }

/-- All symbols. -/
def globalPass : SymbolPass σ :=
  (format.functionPass functionSymbol staticData).pushAll
    ((externalSymbols functionSymbol relocations).map fun external =>
      ⟨external, external, format.external⟩)

/-- The place of a name in the end. -/
def place (name : String) : UInt32 :=
  ((format.globalPass functionSymbol staticData relocations).strtab.offset name).getD 0

variable {format functionSymbol staticData relocations}

/-- Where the hashes differ the passes do not panic. -/
theorem symbolPasses_eq (distinct : (staticData.map (·.staticDataHash)).Nodup) :
    format.symbolPasses functionSymbol staticData relocations =
      some (format.staticPass functionSymbol staticData,
        format.globalPass functionSymbol staticData relocations) := by
  have added := (format.firstPass functionSymbol).pushStatics_eq format.stem format.static distinct
  change Option.bind ((format.firstPass functionSymbol).pushStatics _ _ staticData) _ = _
  rw [added]
  rfl

theorem extends_staticPass : (format.firstPass functionSymbol).strtab.Extends
    (format.staticPass functionSymbol staticData).strtab :=
  SymbolPass.extends_pushAll ..

theorem extends_globalPass : (format.staticPass functionSymbol staticData).strtab.Extends
    (format.globalPass functionSymbol staticData relocations).strtab :=
  (format.functionPass functionSymbol staticData).extends_pushAll _

theorem sound_globalPass :
    (format.globalPass functionSymbol staticData relocations).strtab.Sound := by
  have first : (format.firstPass functionSymbol).strtab.Sound :=
    StringTable.sound_empty.insert functionSymbol
  have statics : (format.staticPass functionSymbol staticData).strtab.Sound :=
    (format.firstPass functionSymbol).sound_pushAll first _
  exact (format.functionPass functionSymbol staticData).sound_pushAll statics _

/-- The empty name stands at the start. -/
theorem at_zero_globalPass :
    At (format.globalPass functionSymbol staticData relocations).strtab.bytes 0 ([] ++ [0]) :=
  (StringTable.sound_empty.at_zero functionSymbol).mono
    (extends_staticPass.trans extends_globalPass).bytes

theorem offset_functionSymbol :
    (format.globalPass functionSymbol staticData relocations).strtab.offset functionSymbol =
      some (StringTable.insert {} functionSymbol).2 :=
  (extends_staticPass.trans extends_globalPass).offsets
    (StringTable.offset_insert {} functionSymbol)

theorem offset_static : ∀ e ∈ staticData.zipIdx, ∃ place,
    (format.globalPass functionSymbol staticData relocations).strtab.offset
      (format.stem ++ toString e.2) = some place := by
  intro e listed
  obtain ⟨place, found⟩ := (format.firstPass functionSymbol).offset_pushAll _
    (List.mem_map_of_mem (f := fun (entry, idx) => (⟨entry.staticDataHash,
      format.stem ++ toString idx, format.static entry⟩ : Addition σ)) listed)
  exact ⟨place, extends_globalPass.offsets found⟩

theorem offset_external : ∀ external ∈ externalSymbols functionSymbol relocations, ∃ place,
    (format.globalPass functionSymbol staticData relocations).strtab.offset external =
      some place := by
  intro external listed
  exact (format.functionPass functionSymbol staticData).offset_pushAll _
    (List.mem_map_of_mem (f := fun external =>
      (⟨external, external, format.external⟩ : Addition σ)) listed)

theorem symbols_staticPass {table : StringTable}
    (larger : (format.staticPass functionSymbol staticData).strtab.Extends table) :
    (format.staticPass functionSymbol staticData).symbols =
      format.before ++ staticData.zipIdx.map fun (entry, idx) =>
        format.static entry ((table.offset (format.stem ++ toString idx)).getD 0) := by
  rw [staticPass, SymbolPass.symbols_pushAll larger, SymbolPass.staticAdditions, List.map_map]
  rfl

theorem length_staticPass : (format.staticPass functionSymbol staticData).symbols.length =
    format.before.length + staticData.length := by
  rw [symbols_staticPass (.refl _), List.length_append, List.length_map, List.length_zipIdx]

/-- The symbols of the passes are those of the format, with the places of their names. -/
theorem symbols_globalPass :
    (format.globalPass functionSymbol staticData relocations).symbols =
      format.symbols functionSymbol staticData relocations
        (format.place functionSymbol staticData relocations) := by
  have function : format.place functionSymbol staticData relocations functionSymbol =
      (StringTable.insert {} functionSymbol).2 := by
    rw [place, offset_functionSymbol, Option.getD_some]
  have all : (format.globalPass functionSymbol staticData relocations).symbols =
      (format.functionPass functionSymbol staticData).symbols ++ _ :=
    SymbolPass.symbols_pushAll (.refl _)
  have before : (format.functionPass functionSymbol staticData).symbols =
      (format.staticPass functionSymbol staticData).symbols ++
        [format.function (StringTable.insert {} functionSymbol).2] := rfl
  have larger : (format.staticPass functionSymbol staticData).strtab.Extends
      (format.globalPass functionSymbol staticData relocations).strtab := extends_globalPass
  rw [all, before, symbols_staticPass larger, symbols, function, List.map_map, List.append_assoc]
  rfl

/-- An index that is noted for a name is that of the function or of an external. -/
theorem mem_indexes_globalPass {name : String} {index : UInt32}
    (noted : (name, index) ∈ (format.globalPass functionSymbol staticData relocations).indexes) :
    (name = functionSymbol ∧
        index = UInt32.ofNat (format.before.length + staticData.length)) ∨
      ∃ i, index = UInt32.ofNat (format.before.length + staticData.length + 1 + i) ∧
        (externalSymbols functionSymbol relocations)[i]? = some name := by
  rcases SymbolPass.mem_indexes_pushAll noted with before | ⟨i, added, found, rfl, rfl⟩
  · cases List.mem_singleton.mp before
    exact Or.inl ⟨rfl, congrArg UInt32.ofNat length_staticPass⟩
  · rw [List.getElem?_map] at found
    obtain ⟨external, listed, rfl⟩ := Option.map_eq_some_iff.mp found
    refine Or.inr ⟨i, ?_, listed⟩
    rw [functionPass, List.length_append, length_staticPass, List.length_singleton]

/-- The index of the function is found. -/
theorem lookup_function (format : SymbolFormat σ) (functionSymbol : String)
    (staticData : List StaticDataEntry) (relocations : List TextRelocation) :
    (format.globalPass functionSymbol staticData relocations).indexes.lookup functionSymbol =
      some (UInt32.ofNat (format.before.length + staticData.length)) := by
  have first := (SymbolPass.indexes_suffix_pushAll (format.functionPass functionSymbol staticData)
    ((externalSymbols functionSymbol relocations).map fun external =>
      ⟨external, external, format.external⟩)).subset List.mem_cons_self
  obtain ⟨index, found, noted⟩ := exists_lookup first
  rcases mem_indexes_globalPass noted with ⟨-, rfl⟩ | ⟨i, -, listed⟩
  · exact found
  · exact absurd rfl (mem_externalSymbols.mp (List.mem_of_getElem? listed)).2

/-- The index of an external is found. -/
theorem lookup_external (format : SymbolFormat σ) (staticData : List StaticDataEntry)
    {external : String} (listed : external ∈ externalSymbols functionSymbol relocations) : ∃ i,
    (format.globalPass functionSymbol staticData relocations).indexes.lookup external =
        some (UInt32.ofNat (format.before.length + staticData.length + 1 + i)) ∧
      (externalSymbols functionSymbol relocations)[i]? = some external := by
  obtain ⟨index, first⟩ := (format.functionPass functionSymbol staticData).noted_pushAll _
    (List.mem_map_of_mem (f := fun external =>
      (⟨external, external, format.external⟩ : Addition σ)) listed)
  obtain ⟨found, known, noted⟩ := exists_lookup first
  rcases mem_indexes_globalPass noted with ⟨same, -⟩ | ⟨i, rfl, position⟩
  · exact absurd same (mem_externalSymbols.mp listed).2
  · exact ⟨i, known, position⟩

/-- The index of an entry of static data is found. -/
theorem lookup_static (format : SymbolFormat σ) (functionSymbol : String) {entry : StaticDataEntry}
    (listed : entry ∈ staticData) : ∃ i found,
    (format.staticPass functionSymbol staticData).indexes.lookup entry.staticDataHash =
        some (UInt32.ofNat (format.before.length + i)) ∧
      staticData[i]? = some found ∧ found.staticDataHash = entry.staticDataHash := by
  obtain ⟨idx, position⟩ := List.mem_iff_getElem?.mp listed
  have indexed : (entry, idx) ∈ staticData.zipIdx := List.mem_zipIdx_iff_getElem?.mpr position
  obtain ⟨index, first⟩ := (format.firstPass functionSymbol).noted_pushAll _
    (List.mem_map_of_mem (f := fun (entry, idx) =>
      (⟨entry.staticDataHash, format.stem ++ toString idx, format.static entry⟩ : Addition σ))
      indexed)
  obtain ⟨found, known, noted⟩ := exists_lookup first
  rcases SymbolPass.mem_indexes_pushAll noted with before | ⟨i, added, known', same, rfl⟩
  · exact absurd before List.not_mem_nil
  · rw [List.getElem?_map, List.getElem?_zipIdx, Option.map_map, Option.map_eq_some_iff] at known'
    obtain ⟨other, position', rfl⟩ := known'
    exact ⟨i, other, known, position', same⟩

end SymbolFormat

end CodeDb

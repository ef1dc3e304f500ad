import CodeDb.Backend.ElfObject

/-!
# Object files for Linux are read back

The sections stand where their headers say, so what the reader finds of them is what was written.
The symbols that are read are those of the passes, each with its name, and an index that a pass
has noted for a key leads to the symbol that was added for it.

## Main definitions

* `Elf.Placed` — sections that stand at their places, with their headers

## Main results

* `Elf.placed_writeSections` — the writer places sections
* `Elf.readElf_writeElfObject` — what is read of an object file is what was to be written
-/

namespace CodeDb

open Binary ByteImage SortOn

namespace Elf

/-! ### Records -/

theorem length_elfHeader (shoff : UInt64) (count shstrndx : UInt16) :
    (elfHeader shoff count shstrndx).length = 64 := by
  simp [elfHeader]

theorem reads_ehdr (shoff : UInt64) (count shstrndx : UInt16) :
    Reads ehdr (elfHeader shoff count shstrndx)
      (.ok ⟨[0x7f, 0x45, 0x4c, 0x46, 2, 1, 1, 0, 0, 0, 0, 0, 0, 0, 0, 0], 1, shoff, 64, count,
        shstrndx⟩) := by
  have ident := Reads.take (fun _ => ())
    [0x7f, 0x45, 0x4c, 0x46, 2, 1, 1, 0, 0, 0, 0, 0, 0, 0, 0, 0]
  exact ident.seq <| (reads_u16 _).seq <| (reads_u16 _).seq <| (reads_u32 _).seq <|
    (reads_u64 _).seq <| (reads_u64 _).seq <| (reads_u64 _).seq <| (reads_u32 _).seq <|
    (reads_u16 _).seq <| (reads_u16 _).seq <| (reads_u16 _).seq <| (reads_u16 _).seq <|
    (reads_u16 _).seq <| (reads_u16 _).seq <| .pure _

/-- The bytes of the header of a section. -/
def Shdr.toBytes (header : Shdr) : List UInt8 :=
  [putU32 header.name, putU32 header.type, putU64 header.flags, putU64 header.addr,
    putU64 header.offset, putU64 header.size, putU32 header.link, putU32 header.info,
    putU64 header.addralign, putU64 header.entsize].flatten

theorem reads_shdr (header : Shdr) : Reads shdr header.toBytes (.ok header) :=
  (reads_u32 _).seq <| (reads_u32 _).seq <| (reads_u64 _).seq <| (reads_u64 _).seq <|
    (reads_u64 _).seq <| (reads_u64 _).seq <| (reads_u32 _).seq <| (reads_u32 _).seq <|
    (reads_u64 _).seq <| (reads_u64 _).seq <| .pure _

@[simp] theorem Shdr.length_toBytes (header : Shdr) : header.toBytes.length = 64 := by
  simp [toBytes]

@[simp] theorem SymbolEntry.length_toBytes (entry : SymbolEntry) : entry.toBytes.length = 24 := by
  simp [toBytes]

/-- A symbol as it is read. -/
def SymbolEntry.sym (entry : SymbolEntry) : Sym :=
  ⟨entry.name, entry.info, 0, entry.shndx, entry.value, entry.size⟩

theorem reads_sym (entry : SymbolEntry) : Reads sym entry.toBytes (.ok entry.sym) :=
  (reads_u32 _).seq <| (reads_u8 _).seq <| (reads_u8 _).seq <| (reads_u16 _).seq <|
    (reads_u64 _).seq <| (reads_u64 _).seq <| .pure _

/-- The bytes of a relocation. -/
def Rela.toBytes (relocation : Rela) : List UInt8 :=
  relaEntry relocation.offset relocation.info relocation.addend

@[simp] theorem Rela.length_toBytes (relocation : Rela) : relocation.toBytes.length = 24 := by
  simp [toBytes, relaEntry]

theorem reads_rela (relocation : Rela) : Reads rela relocation.toBytes (.ok relocation) :=
  (reads_u64 _).seq <| (reads_u64 _).seq <| (reads_u64 _).seq <| .pure _

/-! ### Sections -/

/-- The names of the sections have places. -/
def Named (sections : List Section) : Prop :=
  ∀ s ∈ sections, ∃ place, sectionNameTable.offset s.name = some place

/-- The header of a section at a place. -/
def shdrOf (placed : Section × Nat) : Shdr :=
  ⟨(sectionNameTable.offset placed.1.name).getD 0, placed.1.sectionType, placed.1.flags, 0,
    UInt64.ofNat placed.2, UInt64.ofNat placed.1.data.length, placed.1.link, placed.1.info,
    placed.1.align, placed.1.entsize⟩

/-- The header that is not in use. -/
def nullShdr : Shdr := ⟨0, 0, 0, 0, 0, 0, 0, 0, 0, 0⟩

theorem toBytes_nullShdr : nullShdr.toBytes = List.replicate 64 0 := by decide

/-- Sections stand at places, and their headers say where. -/
structure Placed (bytes : List UInt8) (placed : List (Section × Nat)) (shoff : Nat) : Prop where
  header : At bytes 0 (elfHeader (UInt64.ofNat shoff) (UInt16.ofNat (placed.length + 1))
    (UInt16.ofNat placed.length))
  contents : ∀ p ∈ placed, At bytes p.2 p.1.data
  table : At bytes shoff ((nullShdr :: placed.map shdrOf).flatMap Shdr.toBytes)
  apart : ((0, 64) :: placed.map (fun p => (p.2, p.1.data.length)) ++
    [(shoff, 64 + placed.length * 64)]).Pairwise fun region other => region.1 + region.2 ≤ other.1

theorem length_placeSections (offset : Nat) (sections : List Section) :
    (placeSections offset sections).1.length = sections.length := by
  induction sections generalizing offset with
  | nil => rfl
  | cons first sections ih => exact congrArg (· + 1) (ih _)

/-- The parts of a file that has some sections at places. -/
def partsOf (placed : List (Section × Nat)) : List (Nat × List UInt8) :=
  placed.map fun p => (p.2, p.1.data)

/-- The sections are put in turn, up to where the last one ends. -/
theorem inTurn_placeSections (offset : Nat) (sections : List Section) :
    InTurn offset (partsOf (sections.zip (placeSections offset sections).1)) ∧
      endOf offset (partsOf (sections.zip (placeSections offset sections).1)) =
        (placeSections offset sections).2 := by
  induction sections generalizing offset with
  | nil => exact ⟨trivial, rfl⟩
  | cons first sections ih =>
    obtain ⟨inTurn, last⟩ := ih (alignTo offset first.align.toNat + first.data.length)
    exact ⟨⟨le_alignTo .., inTurn⟩, last⟩

theorem mapM_headerOf {placed : List (Section × Nat)} (named : Named (placed.map Prod.fst)) :
    placed.mapM headerOf = some (placed.map fun p => (shdrOf p).toBytes) := by
  induction placed with
  | nil => rfl
  | cons p placed ih =>
    obtain ⟨place, found⟩ := named p.1 List.mem_cons_self
    have first : headerOf p = some (shdrOf p).toBytes := by
      rw [headerOf, found, shdrOf, found]
      rfl
    rw [List.mapM_cons, first, ih fun s listed => named s (List.mem_cons_of_mem _ listed)]
    rfl

/-- Parts in turn, and the headers behind them, are placed. -/
theorem placed_of_inTurn {placed : List (Section × Nat)} {shoff : Nat}
    (inTurn : InTurn 64 (partsOf placed)) (last : endOf 64 (partsOf placed) ≤ shoff) :
    Placed (putAll (elfHeader (UInt64.ofNat shoff) (UInt16.ofNat (placed.length + 1))
        (UInt16.ofNat placed.length))
      (partsOf placed ++ [(shoff, (nullShdr :: placed.map shdrOf).flatMap Shdr.toBytes)]))
      placed shoff := by
  have all : InTurn 64
      (partsOf placed ++ [(shoff, (nullShdr :: placed.map shdrOf).flatMap Shdr.toBytes)]) :=
    inTurn_append.mpr ⟨inTurn, last, trivial⟩
  have inPlace : InTurn (elfHeader (UInt64.ofNat shoff) (UInt16.ofNat (placed.length + 1))
      (UInt16.ofNat placed.length)).length (partsOf placed ++
        [(shoff, (nullShdr :: placed.map shdrOf).flatMap Shdr.toBytes)]) := by
    rwa [length_elfHeader]
  have stands := at_putAll inPlace
  refine ⟨at_zero_of_started (prefix_putAll ..), ?_, ?_, ?_⟩
  · intro p listed
    exact stands (p.2, p.1.data)
      (List.mem_append_left _ (List.mem_map_of_mem (f := fun p => (p.2, p.1.data)) listed))
  · exact stands _ (List.mem_append_right _ List.mem_cons_self)
  · -- the extents of the parts are those of the regions
    have fromZero : InTurn 0 ((0, List.replicate 64 (0 : UInt8)) :: (partsOf placed ++
        [(shoff, (nullShdr :: placed.map shdrOf).flatMap Shdr.toBytes)])) :=
      ⟨le_rfl, by simpa using all⟩
    have apart := fromZero.pairwise
    have extents := List.pairwise_map (f := fun p : Nat × List UInt8 => (p.1, p.2.length))
      (R := fun region other => region.1 + region.2 ≤ other.1) |>.mpr apart
    simpa [partsOf, Function.comp_def, Nat.add_mul, Nat.add_comm] using extents

/-- The writer places sections. -/
theorem placed_writeSections {sections : List Section} (named : Named sections) :
    ∃ bytes offsets shoff, writeSections sections = some (bytes, offsets) ∧
      offsets.length = sections.length ∧ Placed bytes (sections.zip offsets) shoff := by
  obtain ⟨inTurn, last⟩ := inTurn_placeSections 64 sections
  have count := length_placeSections 64 sections
  generalize found : placeSections 64 sections = places at inTurn last count
  obtain ⟨offsets, offset⟩ := places
  simp only at inTurn last count
  have zipped : (sections.zip offsets).map Prod.fst = sections :=
    List.map_fst_zip (Nat.le_of_eq count.symm)
  have headers : (sections.zip offsets).mapM headerOf = _ := mapM_headerOf (by rwa [zipped])
  have length : (sections.zip offsets).length = sections.length := by
    rw [List.length_zip, count, Nat.min_self]
  have le : endOf 64 (partsOf (sections.zip offsets)) ≤ alignTo offset 8 := last ▸ le_alignTo ..
  refine ⟨_, offsets, alignTo offset 8, ?_, count, placed_of_inTurn inTurn le⟩
  rw [writeSections, found, putAll_append_singleton, length]
  simp only [headers]
  rw [put, List.flatMap_cons, toBytes_nullShdr, List.flatMap_map, List.flatMap]
  simp only [Option.pure_def, Option.bind_eq_bind, Option.bind_some, List.append_assoc]
  rfl

theorem sound_sectionNameTable : sectionNameTable.Sound :=
  (((((StringTable.sound_empty.insert _).insert _).insert _).insert _).insert _).insert _

/-- A section that is read at its place. -/
def sectionOf (placed : Section × Nat) : ElfSection :=
  ⟨shdrOf placed, utf8 placed.1.name, placed.1.data⟩

/-- The section that is not in use. -/
def nullSection : ElfSection := ⟨nullShdr, [], []⟩

section Read

variable {bytes : List UInt8} {placed : List (Section × Nat)} {shoff : Nat}

theorem toNat_ofNat64 {n : Nat} (small : n < 2 ^ 64) : (UInt64.ofNat n).toNat = n :=
  UInt64.toNat_ofNat_of_lt' small

/-- The headers are read where the header of the file says. -/
theorem Placed.readAt_headers (stands : Placed bytes placed shoff) :
    readAt (times (placed.length + 1) shdr) bytes shoff = some (nullShdr :: placed.map shdrOf) := by
  have read := stands.table.readTable fun header _ => reads_shdr header
  rwa [List.map_id', List.length_cons, List.length_map] at read

/-- What stands at a place is in the file. -/
theorem Placed.extent_lt (stands : Placed bytes placed shoff) (small : bytes.length < 2 ^ 64)
    {p : Section × Nat} (listed : p ∈ placed) : p.2 < 2 ^ 64 ∧ p.1.data.length < 2 ^ 64 := by
  have within := (stands.contents p listed).le
  omega

/-- A section is read where its header says. -/
theorem Placed.readSection (stands : Placed bytes placed shoff) (small : bytes.length < 2 ^ 64)
    {p : Section × Nat} (listed : p ∈ placed)
    (named : ∃ place, sectionNameTable.offset p.1.name = some place) (plain : 0 ∉ utf8 p.1.name) :
    readSection bytes sectionNameTable.bytes (shdrOf p) = some (sectionOf p) := by
  obtain ⟨place, found⟩ := named
  obtain ⟨start, size⟩ := stands.extent_lt small listed
  have name := sound_sectionNameTable.cstringAt (by decide) found plain
  have contents := (stands.contents p listed).sliceAt
  have header : shdrOf p = { shdrOf p with
      name := place, offset := UInt64.ofNat p.2, size := UInt64.ofNat p.1.data.length } := by
    rw [shdrOf, found]
    rfl
  rw [header, Elf.readSection]
  simp only [toNat_ofNat64 start, toNat_ofNat64 size, name, contents]
  rw [sectionOf, header]
  rfl

theorem readSection_null (bytes : List UInt8) :
    readSection bytes sectionNameTable.bytes nullShdr = some nullSection := by
  have zero : At sectionNameTable.bytes 0 ([] ++ [0]) := by
    have first := sound_sectionNameTable.first
    exact first.resolve_left (by decide)
  have name := zero.cstringAt List.not_mem_nil
  have contents : sliceAt bytes 0 [].length = some [] :=
    (at_zero_of_started List.nil_prefix).sliceAt
  rw [List.length_nil] at contents
  change (cstringAt sectionNameTable.bytes 0 >>= fun name => sliceAt bytes 0 0 >>= fun contents =>
    some (ElfSection.mk nullShdr name contents)) = _
  rw [name, contents]
  rfl

end Read

/-! ### Symbols -/

section Symbols

variable {functionSymbol : String} {function : CompiledFunction}

theorem readSymbol_eq {strings name : List UInt8} {entry : SymbolEntry}
    (read : cstringAt strings entry.name.toNat = some name) :
    readSymbol strings entry.sym =
      some ⟨name, entry.info, 0, entry.shndx, entry.value, entry.size⟩ := by
  rw [readSymbol]
  change (cstringAt strings entry.name.toNat >>= _) = _
  rw [read]
  rfl

/-- All symbols of a function. -/
abbrev passOf (functionSymbol : String) (function : CompiledFunction) : SymbolPass SymbolEntry :=
  (symbolFormat function.text).globalPass functionSymbol function.staticData function.relocations

/-- The symbols that are to be read. -/
def expectedSymbols (functionSymbol : String) (function : CompiledFunction) : List ElfSymbol :=
  [⟨[], 0, 0, 0, 0, 0⟩, sectionSymbol 1, sectionSymbol 2] ++
    function.staticData.zipIdx.map (fun (entry, idx) => staticSymbol entry idx) ++
    functionSymbolOf functionSymbol function.text ::
      (externalSymbols functionSymbol function.relocations).map undefinedSymbol

theorem Fits.plain_external (fits : Fits functionSymbol function) {external : String}
    (listed : external ∈ externalSymbols functionSymbol function.relocations) :
    0 ∉ utf8 external := by
  obtain ⟨⟨offset, called⟩, -⟩ := mem_externalSymbols.mp listed
  exact fits.targets offset external called

/-- The symbols of the passes are read with their names. -/
theorem mapM_readSymbol (fits : Fits functionSymbol function)
    (distinct : (function.staticData.map (·.staticDataHash)).Nodup) :
    ((passOf functionSymbol function).symbols.map SymbolEntry.sym).mapM
      (readSymbol (passOf functionSymbol function).strtab.bytes) =
        some (expectedSymbols functionSymbol function) := by
  have room := (fits.tables _ _ (SymbolFormat.symbolPasses_eq distinct)).1
  have named {name : String} (plain : 0 ∉ utf8 name)
      (found : ∃ place, (passOf functionSymbol function).strtab.offset name = some place) :
      cstringAt (passOf functionSymbol function).strtab.bytes
        ((symbolFormat function.text).place functionSymbol function.staticData function.relocations
          name).toNat = some (utf8 name) := by
    obtain ⟨place, found⟩ := found
    rw [SymbolFormat.place, found]
    exact SymbolFormat.sound_globalPass.cstringAt room found plain
  have empty : cstringAt (passOf functionSymbol function).strtab.bytes 0 = some [] :=
    SymbolFormat.at_zero_globalPass.cstringAt List.not_mem_nil
  rw [SymbolFormat.symbols_globalPass, SymbolFormat.symbols, List.map_append, List.map_append,
    List.map_cons, List.map_map, List.map_map]
  refine mapM_append_eq_some (mapM_append_eq_some ?_ (mapM_map_eq_some ?_))
    (mapM_cons_eq_some ?_ (mapM_map_eq_some ?_))
  · exact mapM_cons_eq_some (readSymbol_eq empty) (mapM_cons_eq_some (readSymbol_eq empty)
      (mapM_cons_eq_some (readSymbol_eq empty) rfl))
  · intro e listed
    refine readSymbol_eq (named ?_ (SymbolFormat.offset_static e listed))
    exact zero_notMem_utf8_append_toString (by decide : 0 ∉ utf8 ".Lcodedb_static_") e.2
  · exact readSymbol_eq (named fits.name ⟨_, SymbolFormat.offset_functionSymbol⟩)
  · intro external listed
    exact readSymbol_eq (named (fits.plain_external listed)
      (SymbolFormat.offset_external external listed))

/-- The upper half of the information of a relocation is the index of the symbol. -/
theorem toNat_info (index kind : UInt32) :
    (index.toUInt64 <<< 32 ||| kind.toUInt64).toNat = index.toNat * 2 ^ 32 + kind.toNat := by
  have small := index.toNat_lt
  rw [UInt64.toNat_or, UInt64.toNat_shiftLeft, UInt32.toNat_toUInt64, UInt32.toNat_toUInt64]
  have shifted : index.toNat <<< (UInt64.toNat 32 % 64) % 2 ^ 64 = index.toNat <<< 32 := by
    rw [show UInt64.toNat 32 % 64 = 32 from rfl, Nat.shiftLeft_eq]
    exact Nat.mod_eq_of_lt (by omega)
  rw [shifted, ← Nat.shiftLeft_add_eq_or_of_lt kind.toNat_lt, Nat.shiftLeft_eq]

/-- A relocation leads to the symbol with its index. -/
theorem readRelocation_eq {symbols : List ElfSymbol} {position : Nat} {symbol : ElfSymbol}
    (found : symbols[position]? = some symbol) (small : position < 2 ^ 32) (offset : UInt64)
    (kind : UInt32) (addend : Int64) :
    readRelocation symbols ⟨offset, (UInt32.ofNat position).toUInt64 <<< 32 ||| kind.toUInt64,
      addend⟩ = some ⟨offset, kind, symbol, addend⟩ := by
  have index : (UInt32.ofNat position).toNat = position := UInt32.toNat_ofNat_of_lt' small
  have kindSmall := kind.toNat_lt
  rw [readRelocation]
  simp only [toNat_info, index]
  rw [show (position * 2 ^ 32 + kind.toNat) / 2 ^ 32 = position by omega, found,
    show (position * 2 ^ 32 + kind.toNat) % 2 ^ 32 = kind.toNat by omega, UInt32.ofNat_toNat]
  rfl

theorem length_expectedSymbols : (expectedSymbols functionSymbol function).length =
    (passOf functionSymbol function).symbols.length := by
  rw [SymbolFormat.symbols_globalPass, SymbolFormat.symbols]
  simp [expectedSymbols, symbolFormat]

theorem expectedSymbols_function :
    (expectedSymbols functionSymbol function)[3 + function.staticData.length]? =
      some (functionSymbolOf functionSymbol function.text) := by
  have position := getElem?_function [⟨[], 0, 0, 0, 0, 0⟩, sectionSymbol 1, sectionSymbol 2]
    (function.staticData.zipIdx.map fun (entry, idx) => staticSymbol entry idx)
    ((externalSymbols functionSymbol function.relocations).map undefinedSymbol)
    (functionSymbolOf functionSymbol function.text)
  rwa [List.length_map, List.length_zipIdx] at position

theorem expectedSymbols_external {i : Nat} {external : String}
    (found : (externalSymbols functionSymbol function.relocations)[i]? = some external) :
    (expectedSymbols functionSymbol function)[3 + function.staticData.length + 1 + i]? =
      some (undefinedSymbol external) := by
  have position := getElem?_external [⟨[], 0, 0, 0, 0, 0⟩, sectionSymbol 1, sectionSymbol 2]
    (function.staticData.zipIdx.map fun (entry, idx) => staticSymbol entry idx)
    ((externalSymbols functionSymbol function.relocations).map undefinedSymbol)
    (functionSymbolOf functionSymbol function.text)
    (by rw [List.getElem?_map, found, Option.map_some])
  rwa [List.length_map, List.length_zipIdx] at position

theorem expectedSymbols_static {i : Nat} {entry : StaticDataEntry}
    (found : function.staticData[i]? = some entry) :
    (expectedSymbols functionSymbol function)[3 + i]? = some (staticSymbol entry i) := by
  refine getElem?_local _ _ _ _ ?_
  rw [List.getElem?_map, List.getElem?_zipIdx, found, Option.map_some, Option.map_some,
    Nat.zero_add]

/-- What is written for a relocation is read as the relocation that was given. -/
theorem exists_relaOf (fits : Fits functionSymbol function)
    (distinct : (function.staticData.map (·.staticDataHash)).Nodup)
    (listed : ∀ offset hash, .staticDataAddress ⟨offset, hash⟩ ∈ function.relocations →
      ∃ entry ∈ function.staticData, entry.staticDataHash = hash) :
    ∀ r ∈ function.relocations, ∃ (entry : Rela) (found : ElfRelocation),
      relaOf (passOf functionSymbol function).indexes
        ((symbolFormat function.text).staticPass functionSymbol function.staticData).indexes r =
          some entry.toBytes ∧
      readRelocation (expectedSymbols functionSymbol function) entry = some found ∧
      Relocates functionSymbol function r found := by
  -- an index is read as 32 bits, so the table may not be longer
  have few := (fits.tables _ _ (SymbolFormat.symbolPasses_eq distinct)).2
  rw [← length_expectedSymbols] at few
  have small {position : Nat} {symbol : ElfSymbol}
      (found : (expectedSymbols functionSymbol function)[position]? = some symbol) :
      position < 2 ^ 32 := by
    obtain ⟨bound, -⟩ := List.getElem?_eq_some_iff.mp found
    omega
  intro r given
  cases r with
  | call relocation =>
    -- a call of itself goes through its own symbol, which stands after the static data's
    by_cases own : relocation.targetAbiSymbol = functionSymbol
    · have index := (symbolFormat function.text).lookup_function functionSymbol function.staticData
        function.relocations
      have position :
          (expectedSymbols functionSymbol function)[3 + function.staticData.length]? = _ :=
        expectedSymbols_function
      refine ⟨_, _, ?_, readRelocation_eq position (small position) relocation.offset rX86_64Plt32
        (-4), ?_⟩
      · rw [relaOf, own, index]
        rfl
      · rw [Relocates, if_pos own]
    · have called : relocation.targetAbiSymbol ∈
          externalSymbols functionSymbol function.relocations :=
        mem_externalSymbols.mpr ⟨⟨relocation.offset, given⟩, own⟩
      obtain ⟨i, index, found⟩ :=
        (symbolFormat function.text).lookup_external function.staticData called
      have position := expectedSymbols_external found
      refine ⟨_, _, ?_, readRelocation_eq position (small position) relocation.offset rX86_64Plt32
        (-4), ?_⟩
      · rw [relaOf, index]
        rfl
      · rw [Relocates, if_neg own]
  | staticDataAddress relocation =>
    obtain ⟨entry, inData, same⟩ := listed relocation.offset relocation.staticDataHash given
    obtain ⟨i, found, index, held, equal⟩ :=
      (symbolFormat function.text).lookup_static functionSymbol inData
    have position : (expectedSymbols functionSymbol function)[3 + i]? = _ :=
      expectedSymbols_static held
    refine ⟨_, _, ?_, readRelocation_eq position (small position) relocation.offset rX86_64Pc32
      (-4), ?_⟩
    · rw [same] at index
      rw [relaOf, index]
      rfl
    · exact ⟨found, i, held, equal.trans same, rfl⟩

end Symbols

/-! ### Files -/

theorem named_sectionsOf (text rodata rela symtab strtab : List UInt8)
    (firstGlobalSymbol : UInt32) :
    ∀ s ∈ sectionsOf text rodata rela symtab strtab firstGlobalSymbol,
      (∃ place, sectionNameTable.offset s.name = some place) ∧ 0 ∉ utf8 s.name := by
  have names : ∀ name ∈ [".text", ".rodata", ".rela.text", ".symtab", ".strtab", ".shstrtab"],
      (sectionNameTable.offset name).isSome ∧ 0 ∉ utf8 name := by decide
  intro s listed
  obtain ⟨known, plain⟩ := names s.name (List.mem_map_of_mem (f := (·.name)) listed)
  exact ⟨Option.isSome_iff_exists.mp known, plain⟩

/-- A table of symbols is read as long as it is. -/
theorem readAt_symtab (symbols : List SymbolEntry) :
    readAt (times ((symbols.flatMap SymbolEntry.toBytes).length / 24) sym)
      (symbols.flatMap SymbolEntry.toBytes) 0 = some (symbols.map SymbolEntry.sym) := by
  have count : (symbols.flatMap SymbolEntry.toBytes).length / 24 = symbols.length := by
    simp [List.length_flatMap]
  rw [count]
  exact (at_zero_of_started List.prefix_rfl).readTable fun entry _ => reads_sym entry

theorem readAt_rela (entries : List Rela) :
    readAt (times ((entries.flatMap Rela.toBytes).length / 24) rela)
      (entries.flatMap Rela.toBytes) 0 = some entries := by
  have count : (entries.flatMap Rela.toBytes).length / 24 = entries.length := by
    simp [List.length_flatMap]
  have read := (at_zero_of_started (List.prefix_refl (entries.flatMap Rela.toBytes))).readTable
    fun entry _ => reads_rela entry
  rw [List.map_id'] at read
  rwa [count]

/-- What is read of sections at places. -/
theorem readElf_of_placed {bytes text rodata strtab : List UInt8} {symbols : List SymbolEntry}
    {entries : List Rela} {first : UInt32} {o₁ o₂ o₃ o₄ o₅ o₆ shoff : Nat}
    {names : List ElfSymbol} {relocations : List ElfRelocation}
    (stands : Placed bytes ((sectionsOf text rodata (entries.flatMap Rela.toBytes)
      (symbols.flatMap SymbolEntry.toBytes) strtab first).zip [o₁, o₂, o₃, o₄, o₅, o₆]) shoff)
    (small : bytes.length < 2 ^ 64)
    (named : (symbols.map SymbolEntry.sym).mapM (readSymbol strtab) = some names)
    (resolved : entries.mapM (readRelocation names) = some relocations) :
    readElf bytes = some ⟨⟨[0x7f, 0x45, 0x4c, 0x46, 2, 1, 1, 0, 0, 0, 0, 0, 0, 0, 0, 0], 1,
      UInt64.ofNat shoff, 64, 7, 6⟩, nullSection :: ((sectionsOf text rodata
        (entries.flatMap Rela.toBytes) (symbols.flatMap SymbolEntry.toBytes) strtab first).zip
          [o₁, o₂, o₃, o₄, o₅, o₆]).map sectionOf, names, first.toNat, 1, relocations⟩ := by
  have header := stands.header.readAt (reads_ehdr _ _ _)
  have headers := stands.readAt_headers
  have shoffSmall : shoff < 2 ^ 64 := by
    have within := stands.table.le
    rw [List.flatMap_cons, List.length_append, Shdr.length_toBytes] at within
    omega
  have sections : (nullShdr :: ((sectionsOf text rodata (entries.flatMap Rela.toBytes)
      (symbols.flatMap SymbolEntry.toBytes) strtab first).zip
        [o₁, o₂, o₃, o₄, o₅, o₆]).map shdrOf).mapM (readSection bytes sectionNameTable.bytes) =
      some (nullSection :: ((sectionsOf text rodata (entries.flatMap Rela.toBytes)
        (symbols.flatMap SymbolEntry.toBytes) strtab first).zip
          [o₁, o₂, o₃, o₄, o₅, o₆]).map sectionOf) := by
    refine mapM_cons_eq_some (readSection_null bytes) (mapM_map_eq_some fun p listed => ?_)
    obtain ⟨known, plain⟩ := named_sectionsOf text rodata (entries.flatMap Rela.toBytes)
      (symbols.flatMap SymbolEntry.toBytes) strtab first p.1 (List.of_mem_zip listed).1
    exact stands.readSection small listed known plain
  have shstrtab : sliceAt bytes (UInt64.ofNat o₆).toNat
      (UInt64.ofNat sectionNameTable.bytes.length).toNat = some sectionNameTable.bytes := by
    have last : (⟨".shstrtab", 3, 0, 0, 0, 1, 0, sectionNameTable.bytes⟩, o₆) ∈
        (sectionsOf text rodata (entries.flatMap Rela.toBytes)
          (symbols.flatMap SymbolEntry.toBytes) strtab first).zip [o₁, o₂, o₃, o₄, o₅, o₆] := by
      simp [sectionsOf]
    obtain ⟨start, size⟩ := stands.extent_lt small last
    rw [toNat_ofNat64 start, toNat_ofNat64 size]
    exact (stands.contents _ last).sliceAt
  -- each step of the reader finds what was laid out for it
  rw [readElf]
  refine Option.bind_eq_some_iff.mpr ⟨_, header, ?_⟩
  refine Option.bind_eq_some_iff.mpr ⟨(), rfl, ?_⟩
  refine Option.bind_eq_some_iff.mpr ⟨_, (toNat_ofNat64 shoffSmall).symm ▸ headers, ?_⟩
  refine Option.bind_eq_some_iff.mpr ⟨_, rfl, ?_⟩
  refine Option.bind_eq_some_iff.mpr ⟨_, shstrtab, ?_⟩
  refine Option.bind_eq_some_iff.mpr ⟨_, sections, ?_⟩
  refine Option.bind_eq_some_iff.mpr ⟨_, rfl, ?_⟩
  refine Option.bind_eq_some_iff.mpr ⟨_, rfl, ?_⟩
  refine Option.bind_eq_some_iff.mpr ⟨_, readAt_symtab symbols, ?_⟩
  refine Option.bind_eq_some_iff.mpr ⟨_, named, ?_⟩
  refine Option.bind_eq_some_iff.mpr ⟨_, rfl, ?_⟩
  refine Option.bind_eq_some_iff.mpr ⟨_, readAt_rela entries, ?_⟩
  exact Option.bind_eq_some_iff.mpr ⟨_, resolved, rfl⟩

/-- The symbols before the one of the function are those that are local. -/
theorem binding_expectedSymbols {functionSymbol : String} {function : CompiledFunction} {i : Nat}
    {symbol : ElfSymbol} (found : (expectedSymbols functionSymbol function)[i]? = some symbol) :
    symbol.binding = 0 ↔ i < 3 + function.staticData.length := by
  rw [expectedSymbols] at found
  set locals := [⟨[], 0, 0, 0, 0, 0⟩, sectionSymbol 1, sectionSymbol 2] ++
    function.staticData.zipIdx.map (fun (entry, idx) => staticSymbol entry idx) with front
  have count : locals.length = 3 + function.staticData.length := by
    rw [front, List.length_append, List.length_map, List.length_zipIdx]
    rfl
  by_cases early : i < locals.length
  · rw [List.getElem?_append_left early] at found
    have within := List.mem_of_getElem? found
    rw [front, List.mem_append] at within
    refine ⟨fun _ => count ▸ early, fun _ => ?_⟩
    rcases within with first | static
    · simp only [List.mem_cons, List.not_mem_nil, or_false] at first
      rcases first with rfl | rfl | rfl <;> rfl
    · obtain ⟨e, -, rfl⟩ := List.mem_map.mp static
      exact (by decide : (0 : UInt8) >>> 4 = 0)
  · rw [List.getElem?_append_right (Nat.le_of_not_lt early)] at found
    refine ⟨fun zero => ?_, fun less => absurd (count ▸ less) early⟩
    rcases List.mem_cons.mp (List.mem_of_getElem? found) with rfl | external
    · exact absurd zero (by decide : (0x12 : UInt8) >>> 4 ≠ 0)
    · obtain ⟨external, -, rfl⟩ := List.mem_map.mp external
      exact absurd zero (by decide : (0x12 : UInt8) >>> 4 ≠ 0)

/-- The regions of sections at places are their extents. -/
theorem regions_of_placed {bytes : List UInt8} {placed : List (Section × Nat)} {shoff : Nat}
    (stands : Placed bytes placed shoff) (small : bytes.length < 2 ^ 64)
    (inUse : ∀ p ∈ placed, p.1.sectionType ≠ 0) :
    ((nullSection :: placed.map sectionOf).filter (·.header.type ≠ 0)).map
        (fun found => (found.header.offset.toNat, found.header.size.toNat)) =
      placed.map fun p => (p.2, p.1.data.length) := by
  have kept : (placed.map sectionOf).filter (·.header.type ≠ 0) = placed.map sectionOf := by
    apply List.filter_eq_self.mpr
    intro found listed
    obtain ⟨p, given, rfl⟩ := List.mem_map.mp listed
    exact decide_eq_true (inUse p given)
  rw [List.filter_cons_of_neg (by decide), kept, List.map_map]
  refine List.map_congr_left fun p given => ?_
  obtain ⟨start, size⟩ := stands.extent_lt small given
  change ((UInt64.ofNat p.2).toNat, (UInt64.ofNat p.1.data.length).toNat) = _
  rw [toNat_ofNat64 start, toNat_ofNat64 size]

/-- Every region of sections at places is in the file. -/
theorem Placed.within {bytes : List UInt8} {placed : List (Section × Nat)} {shoff : Nat}
    (stands : Placed bytes placed shoff) :
    ∀ region ∈ (0, 64) :: placed.map (fun p => (p.2, p.1.data.length)) ++
      [(shoff, 64 + placed.length * 64)], region.1 + region.2 ≤ bytes.length := by
  intro region listed
  rw [List.cons_append, List.mem_cons, List.mem_append, List.mem_map, List.mem_singleton] at listed
  rcases listed with rfl | ⟨p, given, rfl⟩ | rfl
  · have header := stands.header.le
    rwa [length_elfHeader] at header
  · exact (stands.contents p given).le
  · have table := stands.table.le
    have length : ((nullShdr :: placed.map shdrOf).flatMap Shdr.toBytes).length =
        64 + placed.length * 64 := by
      simp [Function.comp_def]
    rwa [length] at table

/-- What is read of sections at places describes the function whose sections they are. -/
theorem describes_of_placed {bytes rela symtab strtab : List UInt8} {functionSymbol : String}
    {function : CompiledFunction} {o₁ o₂ o₃ o₄ o₅ o₆ shoff : Nat} {first : UInt32}
    {relocations : List ElfRelocation}
    (stands : Placed bytes ((sectionsOf function.text function.rodata rela symtab strtab first).zip
      [o₁, o₂, o₃, o₄, o₅, o₆]) shoff) (small : bytes.length < 2 ^ 64)
    (count : first.toNat = 3 + function.staticData.length)
    (related : List.Forall₂ (Relocates functionSymbol function) function.relocations relocations) :
    (⟨⟨[0x7f, 0x45, 0x4c, 0x46, 2, 1, 1, 0, 0, 0, 0, 0, 0, 0, 0, 0], 1, UInt64.ofNat shoff, 64, 7,
      6⟩, nullSection :: ((sectionsOf function.text function.rodata rela symtab strtab first).zip
        [o₁, o₂, o₃, o₄, o₅, o₆]).map sectionOf, expectedSymbols functionSymbol function,
      first.toNat, 1, relocations⟩ : ElfFile).Describes bytes functionSymbol function := by
  have shoffSmall : shoff < 2 ^ 64 := by
    have within := stands.table.le
    rw [List.flatMap_cons, List.length_append, Shdr.length_toBytes] at within
    omega
  have inUse : ∀ p ∈ (sectionsOf function.text function.rodata rela symtab strtab first).zip
      [o₁, o₂, o₃, o₄, o₅, o₆], p.1.sectionType ≠ 0 := by
    simp [sectionsOf]
  have regions := regions_of_placed stands small inUse
  have apart := stands.apart
  have within := stands.within
  have count' : ((sectionsOf function.text function.rodata rela symtab strtab first).zip
      [o₁, o₂, o₃, o₄, o₅, o₆]).length = 6 := rfl
  have headers : 64 + 6 * 64 = (64 : UInt16).toNat * (7 : UInt16).toNat := by decide
  rw [count', headers] at apart within
  constructor
  · rw [ElfFile.regions, regions, toNat_ofNat64 shoffSmall]
    exact apart
  · rw [ElfFile.regions, regions, toNat_ofNat64 shoffSmall]
    exact within
  · rfl
  · rfl
  · rfl
  · intro i symbol found
    exact count ▸ binding_expectedSymbols found
  · rfl
  · exact related

/-- An object file is read as what was to be written, as far as the names have no zeros and the
numbers fit. -/
theorem readElf_writeElfObject {functionSymbol : String} {function : CompiledFunction}
    (fits : Fits functionSymbol function) (placed : function.WellPlaced 4) :
    ∃ image file, writeElfObject functionSymbol function.text function.rodata function.staticData
        function.relocations = some image ∧
      readElf image.bytes = some file ∧ file.Describes image.bytes functionSymbol function := by
  have distinct := placed.distinct
  have passes : (symbolFormat function.text).symbolPasses functionSymbol function.staticData
      function.relocations = _ := SymbolFormat.symbolPasses_eq distinct
  have symbols := mapM_readSymbol fits distinct
  -- every relocation is written as an entry that is read as the same relocation
  obtain ⟨entries, relocations, written, resolved, related⟩ :=
    exists_mapM_forall₂ (exists_relaOf fits distinct placed.listed)
  set pass := passOf functionSymbol function
  set statics := (symbolFormat function.text).staticPass functionSymbol function.staticData
  set sections := sectionsOf function.text function.rodata (entries.flatMap Rela.toBytes)
    (pass.symbols.flatMap SymbolEntry.toBytes) pass.strtab.bytes
    (UInt32.ofNat statics.symbols.length) with listed
  have named := named_sectionsOf function.text function.rodata (entries.flatMap Rela.toBytes)
    (pass.symbols.flatMap SymbolEntry.toBytes) pass.strtab.bytes
    (UInt32.ofNat statics.symbols.length)
  obtain ⟨bytes, offsets, shoff, wrote, count, stands⟩ :=
    placed_writeSections fun s given => (named s given).1
  obtain ⟨o₁, o₂, o₃, o₄, o₅, o₆, rfl⟩ :
      ∃ o₁ o₂ o₃ o₄ o₅ o₆, offsets = [o₁, o₂, o₃, o₄, o₅, o₆] := by
    match offsets, count with
    | [o₁, o₂, o₃, o₄, o₅, o₆], _ => exact ⟨o₁, o₂, o₃, o₄, o₅, o₆, rfl⟩
  -- the writer lays out the sections that were named
  have image : writeElfObject functionSymbol function.text function.rodata function.staticData
      function.relocations = some ⟨bytes,
        if function.staticData.isEmpty then none else some ⟨".rodata", o₂⟩⟩ := by
    rw [writeElfObject]
    refine Option.bind_eq_some_iff.mpr ⟨_, passes, ?_⟩
    refine Option.bind_eq_some_iff.mpr ⟨_, written, ?_⟩
    refine Option.bind_eq_some_iff.mpr ⟨_, List.flatMap_def ▸ wrote, rfl⟩
  have small : bytes.length < 2 ^ 64 := fits.size _ image
  -- the first global symbol stands after the null, the sections and the static data
  have locals : (UInt32.ofNat statics.symbols.length).toNat = 3 + function.staticData.length := by
    have few := (fits.tables _ _ passes).2
    rw [← length_expectedSymbols] at few
    have found : (expectedSymbols functionSymbol function)[3 + function.staticData.length]? = _ :=
      expectedSymbols_function
    have position := (List.getElem?_eq_some_iff.mp found).1
    have length : statics.symbols.length = 3 + function.staticData.length :=
      SymbolFormat.length_staticPass
    rw [length]
    exact UInt32.toNat_ofNat_of_lt' (lt_of_lt_of_le position few)
  exact ⟨_, _, image, readElf_of_placed stands small symbols resolved,
    describes_of_placed stands small locals related⟩

/-- No symbol that is read has a zero in its name. -/
theorem zero_notMem_name {bytes : List UInt8} {file : ElfFile} (read : readElf bytes = some file) :
    ∀ symbol ∈ file.symbols, 0 ∉ symbol.name := by
  rw [readElf] at read
  obtain ⟨header, -, read⟩ := Option.bind_eq_some_iff.mp read
  obtain ⟨-, -, read⟩ := Option.bind_eq_some_iff.mp read
  obtain ⟨headers, -, read⟩ := Option.bind_eq_some_iff.mp read
  obtain ⟨shstrtab, -, read⟩ := Option.bind_eq_some_iff.mp read
  obtain ⟨names, -, read⟩ := Option.bind_eq_some_iff.mp read
  obtain ⟨sections, -, read⟩ := Option.bind_eq_some_iff.mp read
  obtain ⟨symtab, -, read⟩ := Option.bind_eq_some_iff.mp read
  obtain ⟨strtab, -, read⟩ := Option.bind_eq_some_iff.mp read
  obtain ⟨entries, -, read⟩ := Option.bind_eq_some_iff.mp read
  obtain ⟨symbols, resolved, read⟩ := Option.bind_eq_some_iff.mp read
  obtain ⟨relatab, -, read⟩ := Option.bind_eq_some_iff.mp read
  obtain ⟨entries', -, read⟩ := Option.bind_eq_some_iff.mp read
  obtain ⟨relocations, -, same⟩ := Option.bind_eq_some_iff.mp read
  cases same
  intro symbol listed
  obtain ⟨entry, -, made⟩ := exists_of_mem_mapM resolved symbol listed
  obtain ⟨name, found, equal⟩ := Option.bind_eq_some_iff.mp made
  cases equal
  exact zero_notMem_of_cstringAt found

/-- A name with a zero is not read back, whatever else there is. -/
theorem not_describes_of_zero {bytes : List UInt8} {file : ElfFile} {functionSymbol : String}
    {function : CompiledFunction} (zero : 0 ∈ utf8 functionSymbol)
    (read : readElf bytes = some file) : ¬file.Describes bytes functionSymbol function := by
  intro describes
  refine zero_notMem_name read (functionSymbolOf functionSymbol function.text) ?_ zero
  rw [describes.symbols]
  exact List.mem_append_right _ List.mem_cons_self

end Elf

end CodeDb

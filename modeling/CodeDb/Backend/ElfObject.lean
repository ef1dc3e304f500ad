import CodeDb.Backend.ObjectSymbols

/-!
# Object files for Linux

The object file of a function has its text, its read-only data, the relocations of the text, the
table of symbols and two tables of strings, and behind them a table of headers that says where
each of these sections lies.

The writer works out all places, and all indices of sections and symbols, before it writes. A
reader of the format, who only follows what the file says, finds the sections apart from each
other and the symbols that the relocations are to refer to.

## Main definitions

* `writeElfObject` — the writer
* `readElf` — the reader
* `ElfFile.Describes` — that what is read is what was to be written
* `Fits` — the names have no zeros, and the numbers fit into their fields
-/

namespace CodeDb

open Binary ByteImage SortOn

namespace Elf

/-! ### The writer -/

structure SymbolEntry where
  name : UInt32
  info : UInt8
  shndx : UInt16
  value : UInt64
  size : UInt64

namespace SymbolEntry

def null : SymbolEntry := ⟨0, 0, 0, 0, 0⟩

def toBytes (entry : SymbolEntry) : List UInt8 :=
  [putU32 entry.name, [entry.info], [0], putU16 entry.shndx, putU64 entry.value,
    putU64 entry.size].flatten

end SymbolEntry

def rX86_64Pc32 : UInt32 := 2

def rX86_64Plt32 : UInt32 := 4

def elfHeader (sectionHeaderOffset : UInt64) (sectionCount shstrndx : UInt16) : List UInt8 :=
  [[0x7f, 0x45, 0x4c, 0x46, 2, 1, 1, 0, 0, 0, 0, 0, 0, 0, 0, 0], putU16 1, putU16 62, putU32 1,
    putU64 0, putU64 0, putU64 sectionHeaderOffset, putU32 0, putU16 64, putU16 0, putU16 0,
    putU16 64, putU16 sectionCount, putU16 shstrndx].flatten

def sectionHeader (name sectionType : UInt32) (flags offset size : UInt64) (link info : UInt32)
    (align entsize : UInt64) : List UInt8 :=
  [putU32 name, putU32 sectionType, putU64 flags, putU64 0, putU64 offset, putU64 size, putU32 link,
    putU32 info, putU64 align, putU64 entsize].flatten

def relaEntry (offset info : UInt64) (addend : Int64) : List UInt8 :=
  [putU64 offset, putU64 info, putU64 addend.toUInt64].flatten

structure Section where
  name : String
  sectionType : UInt32
  flags : UInt64
  link : UInt32
  info : UInt32
  align : UInt64
  entsize : UInt64
  data : List UInt8

def sectionNameTable : StringTable :=
  [".text", ".rodata", ".rela.text", ".symtab", ".strtab", ".shstrtab"].foldl
    (fun table name => (table.insert name).1) {}

/-- Where the sections are put from a place on, and where the last one ends. -/
def placeSections (offset : Nat) : List Section → List Nat × Nat
  | [] => ([], offset)
  | first :: sections =>
    let start := alignTo offset first.align.toNat
    let (offsets, last) := placeSections (start + first.data.length) sections
    (start :: offsets, last)

/-- The symbols of this format, for a text: behind one that is not in use and those of the sections
there are the local ones. -/
def symbolFormat (text : List UInt8) : SymbolFormat SymbolEntry where
  before := [SymbolEntry.null, ⟨0, 3, 1, 0, 0⟩, ⟨0, 3, 2, 0, 0⟩]
  stem := ".Lcodedb_static_"
  static entry name := ⟨name, 0, 2, entry.offset, entry.len⟩
  function name := ⟨name, 0x12, 1, 0, UInt64.ofNat text.length⟩
  external name := ⟨name, 0x12, 0, 0, 0⟩

/-- A relocation with the index of the symbol in the upper half of its kind. -/
def relaOf (symbolIndexes staticSymbolIndexes : List (String × UInt32)) :
    TextRelocation → Option (List UInt8)
  | .call relocation => do
    let symbolIndex ← symbolIndexes.lookup relocation.targetAbiSymbol
    let info := symbolIndex.toUInt64 <<< 32 ||| rX86_64Plt32.toUInt64
    return relaEntry relocation.offset info (-4)
  | .staticDataAddress relocation => do
    let symbolIndex ← staticSymbolIndexes.lookup relocation.staticDataHash
    let info := symbolIndex.toUInt64 <<< 32 ||| rX86_64Pc32.toUInt64
    return relaEntry relocation.offset info (-4)

/-- The sections, given the table of symbols and the relocations. -/
def sectionsOf (text rodata rela symtab strtab : List UInt8) (firstGlobalSymbol : UInt32) :
    List Section :=
  [⟨".text", 1, 0x6, 0, 0, 16, 0, text⟩,
    ⟨".rodata", 1, 0x2, 0, 0, 16, 0, rodata⟩,
    ⟨".rela.text", 4, 0x40, 4, 1, 8, 24, rela⟩,
    ⟨".symtab", 2, 0, 5, firstGlobalSymbol, 8, 24, symtab⟩,
    ⟨".strtab", 3, 0, 0, 0, 1, 0, strtab⟩,
    ⟨".shstrtab", 3, 0, 0, 0, 1, 0, sectionNameTable.bytes⟩]

/-- The header of a section at a place. There is none where the source panics. -/
def headerOf (placed : Section × Nat) : Option (List UInt8) := do
  let (section_, offset) := placed
  let name ← sectionNameTable.offset section_.name
  return sectionHeader name section_.sectionType section_.flags (UInt64.ofNat offset)
    (UInt64.ofNat section_.data.length) section_.link section_.info section_.align section_.entsize

/-- The bytes of an object with some sections, and where these are. -/
def writeSections (sections : List Section) : Option (List UInt8 × List Nat) := do
  let (sectionOffsets, offset) := placeSections 64 sections
  let sectionHeaderOffset := alignTo offset 8
  let out := elfHeader (UInt64.ofNat sectionHeaderOffset) (UInt16.ofNat (sections.length + 1))
    (UInt16.ofNat sections.length)
  let out := putAll out ((sections.zip sectionOffsets).map fun (s, offset) => (offset, s.data))
  let out := padTo out sectionHeaderOffset ++ List.replicate 64 0
  let headers ← (sections.zip sectionOffsets).mapM headerOf
  return (out ++ headers.flatten, sectionOffsets)

/-- The object file of a function. There is none where the source panics. -/
def writeElfObject (functionSymbol : String) (text rodata : List UInt8)
    (staticData : List StaticDataEntry) (relocations : List TextRelocation) :
    Option NativeObjectImage := do
  let (statics, globals) ← (symbolFormat text).symbolPasses functionSymbol staticData relocations
  let symtab := globals.symbols.flatMap SymbolEntry.toBytes
  let rela ← relocations.mapM (relaOf globals.indexes statics.indexes)
  let firstGlobalSymbol := UInt32.ofNat statics.symbols.length
  let (bytes, sectionOffsets) ← writeSections
    (sectionsOf text rodata rela.flatten symtab globals.strtab.bytes firstGlobalSymbol)
  let rodataOffset ← sectionOffsets[1]?
  return ⟨bytes, if staticData.isEmpty then none else some ⟨".rodata", rodataOffset⟩⟩

/-! ### The reader -/

/-- The header of a file: where the headers of the sections are, and which one has their names. -/
structure Ehdr where
  ident : List UInt8
  type : UInt16
  shoff : UInt64
  shentsize : UInt16
  shnum : UInt16
  shstrndx : UInt16

def ehdr : ReadM Unit Ehdr := do
  let ident ← take (fun _ => ()) 16
  let type ← u16
  let _machine ← u16
  let _version ← u32
  let _entry ← u64
  let _phoff ← u64
  let shoff ← u64
  let _flags ← u32
  let _ehsize ← u16
  let _phentsize ← u16
  let _phnum ← u16
  let shentsize ← u16
  let shnum ← u16
  let shstrndx ← u16
  return ⟨ident, type, shoff, shentsize, shnum, shstrndx⟩

/-- The header of a section. -/
structure Shdr where
  name : UInt32
  type : UInt32
  flags : UInt64
  addr : UInt64
  offset : UInt64
  size : UInt64
  link : UInt32
  info : UInt32
  addralign : UInt64
  entsize : UInt64

def shdr : ReadM Unit Shdr := do
  let name ← u32
  let type ← u32
  let flags ← u64
  let addr ← u64
  let offset ← u64
  let size ← u64
  let link ← u32
  let info ← u32
  let addralign ← u64
  let entsize ← u64
  return ⟨name, type, flags, addr, offset, size, link, info, addralign, entsize⟩

/-- A symbol as it is kept. -/
structure Sym where
  name : UInt32
  info : UInt8
  other : UInt8
  shndx : UInt16
  value : UInt64
  size : UInt64

def sym : ReadM Unit Sym := do
  let name ← u32
  let info ← u8
  let other ← u8
  let shndx ← u16
  let value ← u64
  let size ← u64
  return ⟨name, info, other, shndx, value, size⟩

/-- A relocation as it is kept. -/
structure Rela where
  offset : UInt64
  info : UInt64
  addend : Int64

def rela : ReadM Unit Rela := do
  let offset ← u64
  let info ← u64
  let addend ← u64
  return ⟨offset, info, addend.toInt64⟩

/-- A section with its name and what it contains. -/
structure ElfSection where
  header : Shdr
  name : List UInt8
  contents : List UInt8

/-- A symbol with its name. -/
structure ElfSymbol where
  name : List UInt8
  info : UInt8
  other : UInt8
  shndx : UInt16
  value : UInt64
  size : UInt64
deriving DecidableEq

/-- The upper half of the information about a symbol is its binding. -/
def ElfSymbol.binding (symbol : ElfSymbol) : UInt8 := symbol.info >>> 4

/-- A relocation with the symbol that it refers to. -/
structure ElfRelocation where
  offset : UInt64
  kind : UInt32
  symbol : ElfSymbol
  addend : Int64
deriving DecidableEq

/-- An object file as it is read. -/
structure ElfFile where
  header : Ehdr
  sections : List ElfSection
  symbols : List ElfSymbol
  firstGlobal : Nat
  relocated : Nat
  relocations : List ElfRelocation

/-- A section: its name is in a table of names. -/
def readSection (bytes names : List UInt8) (header : Shdr) : Option ElfSection := do
  let name ← cstringAt names header.name.toNat
  let contents ← sliceAt bytes header.offset.toNat header.size.toNat
  return ⟨header, name, contents⟩

def readSymbol (strings : List UInt8) (symbol : Sym) : Option ElfSymbol := do
  let name ← cstringAt strings symbol.name.toNat
  return ⟨name, symbol.info, symbol.other, symbol.shndx, symbol.value, symbol.size⟩

/-- A relocation: the upper half of the information is the index of the symbol. -/
def readRelocation (symbols : List ElfSymbol) (relocation : Rela) : Option ElfRelocation := do
  let symbol ← symbols[relocation.info.toNat / 2 ^ 32]?
  return ⟨relocation.offset, UInt32.ofNat (relocation.info.toNat % 2 ^ 32), symbol,
    relocation.addend⟩

/-- An object file of 64 bits, the least byte first, with one table of symbols and one table of
relocations. -/
def readElf (bytes : List UInt8) : Option ElfFile := do
  let header ← readAt ehdr bytes 0
  guard (header.ident.take 7 = [0x7f, 0x45, 0x4c, 0x46, 2, 1, 1] ∧ header.type = 1 ∧
    header.shentsize = 64)
  let headers ← readAt (times header.shnum.toNat shdr) bytes header.shoff.toNat
  let shstrtab ← headers[header.shstrndx.toNat]?
  let names ← sliceAt bytes shstrtab.offset.toNat shstrtab.size.toNat
  let sections ← headers.mapM (readSection bytes names)
  let symtab ← sections.find? (·.header.type == 2)
  let strtab ← sections[symtab.header.link.toNat]?
  let entries ← readAt (times (symtab.contents.length / 24) sym) symtab.contents 0
  let symbols ← entries.mapM (readSymbol strtab.contents)
  let relatab ← sections.find? (·.header.type == 4)
  let entries ← readAt (times (relatab.contents.length / 24) rela) relatab.contents 0
  let relocations ← entries.mapM (readRelocation symbols)
  return ⟨header, sections, symbols, symtab.header.info.toNat, relatab.header.info.toNat,
    relocations⟩

/-! ### What is to be read -/

/-- The sections that are in use, and the two headers, each with its extent. -/
def ElfFile.regions (file : ElfFile) : List (Nat × Nat) :=
  (0, 64) :: (file.sections.filter (·.header.type ≠ 0)).map
      (fun found => (found.header.offset.toNat, found.header.size.toNat)) ++
    [(file.header.shoff.toNat, file.header.shentsize.toNat * file.header.shnum.toNat)]

/-- The symbol of a section. -/
def sectionSymbol (shndx : UInt16) : ElfSymbol := ⟨[], 3, 0, shndx, 0, 0⟩

/-- The local symbol of an entry of static data. -/
def staticSymbol (entry : StaticDataEntry) (idx : Nat) : ElfSymbol :=
  ⟨utf8 (".Lcodedb_static_" ++ toString idx), 0, 0, 2, entry.offset, entry.len⟩

/-- The global symbol that is defined: the function is all of the text. -/
def functionSymbolOf (name : String) (text : List UInt8) : ElfSymbol :=
  ⟨utf8 name, 0x12, 0, 1, 0, UInt64.ofNat text.length⟩

/-- A global symbol that is not defined. -/
def undefinedSymbol (name : String) : ElfSymbol := ⟨utf8 name, 0x12, 0, 0, 0, 0⟩

/-- A relocation is the one that is given, at its place and for its target. -/
def Relocates (functionSymbol : String) (function : CompiledFunction) :
    TextRelocation → ElfRelocation → Prop
  | .call relocation, found =>
    found = ⟨relocation.offset, rX86_64Plt32,
      if relocation.targetAbiSymbol = functionSymbol then
        functionSymbolOf functionSymbol function.text
      else undefinedSymbol relocation.targetAbiSymbol, -4⟩
  | .staticDataAddress relocation, found => ∃ entry idx, function.staticData[idx]? = some entry ∧
    entry.staticDataHash = relocation.staticDataHash ∧
      found = ⟨relocation.offset, rX86_64Pc32, staticSymbol entry idx, -4⟩

/-- What is read is what was to be written. -/
structure ElfFile.Describes (file : ElfFile) (bytes : List UInt8) (functionSymbol : String)
    (function : CompiledFunction) : Prop where
  /-- No two parts of the file have a byte in common. -/
  apart : file.regions.Pairwise fun region other => region.1 + region.2 ≤ other.1
  within : ∀ region ∈ file.regions, region.1 + region.2 ≤ bytes.length
  text : file.sections[1]?.map (fun found => (found.name, found.contents)) =
    some (utf8 ".text", function.text)
  rodata : file.sections[2]?.map (fun found => (found.name, found.contents)) =
    some (utf8 ".rodata", function.rodata)
  symbols : file.symbols = [⟨[], 0, 0, 0, 0, 0⟩, sectionSymbol 1, sectionSymbol 2] ++
    function.staticData.zipIdx.map (fun (entry, idx) => staticSymbol entry idx) ++
    functionSymbolOf functionSymbol function.text ::
      (externalSymbols functionSymbol function.relocations).map undefinedSymbol
  /-- The symbols before the first global one are those that are local. -/
  firstGlobal : ∀ i symbol, file.symbols[i]? = some symbol →
    (symbol.binding = 0 ↔ i < file.firstGlobal)
  /-- The relocations are those of the text. -/
  relocated : file.relocated = 1
  relocations : List.Forall₂ (Relocates functionSymbol function) function.relocations
    file.relocations

/-- The names have no zeros, and what is counted fits into the fields for it. -/
structure Fits (functionSymbol : String) (function : CompiledFunction) : Prop where
  name : 0 ∉ utf8 functionSymbol
  targets : ∀ offset name, .call ⟨offset, name⟩ ∈ function.relocations → 0 ∉ utf8 name
  tables : ∀ statics globals, (symbolFormat function.text).symbolPasses functionSymbol
      function.staticData function.relocations = some (statics, globals) →
    globals.strtab.bytes.length ≤ 2 ^ 32 ∧ globals.symbols.length ≤ 2 ^ 32
  size : ∀ image, writeElfObject functionSymbol function.text function.rodata function.staticData
    function.relocations = some image → image.bytes.length < 2 ^ 64

end Elf

end CodeDb

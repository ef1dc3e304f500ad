import CodeDb.Backend.ObjectSymbols

/-!
# Object files for macOS

The object file of a function begins with commands: one for a segment with the section of the text
and, if there is static data, that of the read-only data, and others that say where the symbols and
their names are, and which symbols are local, defined or not defined.

An address of static data takes two relocations, one for each of the two instructions that it is
put together by.

## Main definitions

* `writeMachoObject` — the writer
* `readMacho` — the reader
* `MachoFile.Describes` — that what is read is what was to be written
-/

namespace CodeDb

open Binary ByteImage SortOn

namespace Macho

/-! ### The writer -/

structure MachOSymbolEntry where
  name : UInt32
  ty : UInt8
  sect : UInt8
  desc : UInt16
  value : UInt64

def MachOSymbolEntry.toBytes (entry : MachOSymbolEntry) : List UInt8 :=
  [putU32 entry.name, [entry.ty], [entry.sect], putU16 entry.desc, putU64 entry.value].flatten

def arm64RelocPage21 : UInt32 := 3

def arm64RelocPageoff12 : UInt32 := 4

def arm64RelocBranch26 : UInt32 := 2

/-- A name in sixteen bytes. -/
def putFixedName (name : String) : List UInt8 :=
  let nameBytes := (utf8 name).take 16
  nameBytes ++ List.replicate (16 - nameBytes.length) 0

def machoHeader (sizeofcmds : UInt32) : List UInt8 :=
  [putU32 0xfeedfacf, putU32 0x0100000c, putU32 0, putU32 1, putU32 4, putU32 sizeofcmds,
    putU32 0x2000, putU32 0].flatten

/-- The section of the text. -/
def textSection (textOffset : UInt32) (textSize : UInt64) (relocOffset relocCount : UInt32) :
    List UInt8 :=
  [putFixedName "__text", putFixedName "__TEXT", putU64 0, putU64 textSize, putU32 textOffset,
    putU32 2, putU32 relocOffset, putU32 relocCount, putU32 0x80000400, putU32 0, putU32 0,
    putU32 0].flatten

/-- The section of the read-only data. -/
def constSection (constAddr : UInt64) (constOffset : UInt32) (constSize : UInt64) : List UInt8 :=
  [putFixedName "__const", putFixedName "__TEXT", putU64 constAddr, putU64 constSize,
    putU32 constOffset, putU32 4, putU32 0, putU32 0, putU32 0, putU32 0, putU32 0,
    putU32 0].flatten

/-- The command for a segment with a section of text, and one of read-only data if there is any. -/
def machoSegmentCommand (textOffset : UInt32) (textSize : UInt64)
    (const : Option (UInt64 × UInt32 × UInt64)) (relocOffset relocCount : UInt32) : List UInt8 :=
  let commandSize : UInt32 := 72 + if const.isSome then 160 else 80
  let vmsize := (const.map fun (addr, _, size) => addr + size).getD textSize
  [putU32 0x19, putU32 commandSize, putFixedName "", putU64 0, putU64 vmsize,
    putU64 textOffset.toUInt64, putU64 vmsize, putU32 7, putU32 5,
    putU32 (if const.isSome then 2 else 1), putU32 0,
    textSection textOffset textSize relocOffset relocCount,
    (const.map fun (addr, offset, size) => constSection addr offset size).getD []].flatten

/-- How many entries a relocation takes. -/
def entryCount : TextRelocation → Nat
  | .call _ => 1
  | .staticDataAddress _ => 2

def machoRelocationCount (relocations : List TextRelocation) : Nat :=
  (relocations.map entryCount).sum

def machoRelocationInfo (symbolIndex : UInt32) (pcRelative : Bool) (relocationType : UInt32) :
    UInt32 :=
  let pcRelative : UInt32 := if pcRelative then 1 else 0
  symbolIndex ||| pcRelative <<< 24 ||| (2 : UInt32) <<< 25 ||| (1 : UInt32) <<< 27 |||
    relocationType <<< 28

def machoBuildVersionCommand : List UInt8 :=
  [putU32 0x32, putU32 24, putU32 1, putU32 ((11 : UInt32) <<< 16),
    putU32 ((11 : UInt32) <<< 16), putU32 0].flatten

def machoSymtabCommand (symoff nsyms stroff strsize : UInt32) : List UInt8 :=
  [putU32 0x2, putU32 24, putU32 symoff, putU32 nsyms, putU32 stroff, putU32 strsize].flatten

def machoDysymtabCommand (nlocalsym iextdefsym iundefsym nundefsym : UInt32) : List UInt8 :=
  [putU32 0xb, putU32 80].flatten ++
    [0, nlocalsym, iextdefsym, 1, iundefsym, nundefsym, 0, 0, 0, 0, 0, 0, 0, 0, 0, 0, 0, 0].flatMap
      putU32

/-- The symbols of this format, for a text: those of static data have addresses behind the text. -/
def symbolFormat (text : List UInt8) : SymbolFormat MachOSymbolEntry where
  before := []
  stem := "ltmp_codedb_static_"
  static entry name := ⟨name, 0x0e, 2, 0, UInt64.ofNat (alignTo text.length 16) + entry.offset⟩
  function name := ⟨name, 0x0f, 1, 0, 0⟩
  external name := ⟨name, 0x01, 0, 0, 0⟩

/-- One entry of the table of relocations. -/
def relocationEntry (offset : UInt64) (info : UInt32) : List UInt8 :=
  [putU32 offset.toUInt32, putU32 info].flatten

/-- The entries of a relocation. There are none where the source panics. -/
def entriesOf (symbolIndexes staticSymbolIndexes : List (String × UInt32)) :
    TextRelocation → Option (List UInt8)
  | .call relocation => do
    let symbolIndex ← symbolIndexes.lookup relocation.targetAbiSymbol
    return relocationEntry relocation.offset
      (machoRelocationInfo symbolIndex true arm64RelocBranch26)
  | .staticDataAddress relocation => do
    let symbolIndex ← staticSymbolIndexes.lookup relocation.staticDataHash
    return relocationEntry relocation.offset
        (machoRelocationInfo symbolIndex true arm64RelocPage21) ++
      relocationEntry (relocation.offset + 4)
        (machoRelocationInfo symbolIndex false arm64RelocPageoff12)

/-- Where the parts of an object are. -/
structure Places where
  sizeofcmds : Nat
  textOffset : Nat
  constAddr : Nat
  constOffset : Nat
  relocCount : Nat
  relocOffset : Nat
  symoff : Nat
  stroff : Nat

def placesOf (hasConstSection : Bool) (textLen rodataLen relocCount symbolCount : Nat) : Places :=
  let segmentCommandSize := if hasConstSection then 232 else 152
  let sizeofcmds := segmentCommandSize + 24 + 24 + 80
  let textOffset := 32 + sizeofcmds
  let constAddr := alignTo textLen 16
  let constOffset := textOffset + constAddr
  let sectionBytesEnd :=
    if hasConstSection then constOffset + rodataLen else textOffset + textLen
  let relocOffset := if relocCount = 0 then 0 else alignTo sectionBytesEnd 4
  let relocSize := relocCount * 8
  let symoff := alignTo (if relocCount = 0 then sectionBytesEnd else relocOffset + relocSize) 8
  let stroff := symoff + symbolCount * 16
  { sizeofcmds, textOffset, constAddr, constOffset, relocCount, relocOffset, symoff, stroff }

/-- The header and the commands of an object. -/
def commandsOf (places : Places) (hasConstSection : Bool) (textLen rodataLen strsize : Nat)
    (localCount symbolCount externalCount : Nat) : List UInt8 :=
  machoHeader (UInt32.ofNat places.sizeofcmds) ++
    machoSegmentCommand (UInt32.ofNat places.textOffset) (UInt64.ofNat textLen)
      (if hasConstSection then
        some (UInt64.ofNat places.constAddr, UInt32.ofNat places.constOffset,
          UInt64.ofNat rodataLen)
      else none)
      (UInt32.ofNat places.relocOffset) (UInt32.ofNat places.relocCount) ++
    machoBuildVersionCommand ++
    machoSymtabCommand (UInt32.ofNat places.symoff) (UInt32.ofNat symbolCount)
      (UInt32.ofNat places.stroff) (UInt32.ofNat strsize) ++
    machoDysymtabCommand (UInt32.ofNat localCount) (UInt32.ofNat localCount)
      (UInt32.ofNat (localCount + 1)) (UInt32.ofNat externalCount)

/-- What comes behind the commands: the sections and the tables, each at its place. -/
def partsOf (places : Places) (hasConstSection : Bool)
    (text rodata entries symtab strtab : List UInt8) :
    List (Nat × List UInt8) :=
  (places.textOffset, text) :: (if hasConstSection then [(places.constOffset, rodata)] else []) ++
    (if places.relocCount = 0 then [] else [(places.relocOffset, entries)]) ++
    [(places.symoff, symtab), (places.stroff, strtab)]

/-- The object file of a function. There is none where the source panics. -/
def writeMachoObject (functionSymbol : String) (text rodata : List UInt8)
    (staticData : List StaticDataEntry) (relocations : List TextRelocation) :
    Option NativeObjectImage := do
  let (statics, globals) ← (symbolFormat text).symbolPasses functionSymbol staticData relocations
  let hasConstSection := !staticData.isEmpty
  let places := placesOf hasConstSection text.length rodata.length
    (machoRelocationCount relocations) globals.symbols.length
  let out := commandsOf places hasConstSection text.length rodata.length globals.strtab.bytes.length
    statics.symbols.length globals.symbols.length
    (externalSymbols functionSymbol relocations).length
  let entries ← relocations.mapM (entriesOf globals.indexes statics.indexes)
  let out := putAll out (partsOf places hasConstSection text rodata entries.flatten
    (globals.symbols.flatMap MachOSymbolEntry.toBytes) globals.strtab.bytes)
  return ⟨out, if hasConstSection then some ⟨"__TEXT,__const", places.constOffset⟩ else none⟩

/-! ### The reader -/

structure MachHeader where
  magic : UInt32
  filetype : UInt32
  ncmds : UInt32
  sizeofcmds : UInt32

def machHeader : ReadM Unit MachHeader := do
  let magic ← u32
  let _cputype ← u32
  let _cpusubtype ← u32
  let filetype ← u32
  let ncmds ← u32
  let sizeofcmds ← u32
  let _flags ← u32
  let _reserved ← u32
  return ⟨magic, filetype, ncmds, sizeofcmds⟩

/-- A section as it is kept. -/
structure Section64 where
  sectname : List UInt8
  segname : List UInt8
  addr : UInt64
  size : UInt64
  offset : UInt32
  align : UInt32
  reloff : UInt32
  nreloc : UInt32
  flags : UInt32

/-- A name in sixteen bytes ends before the first zero. -/
def fixedName : ReadM Unit (List UInt8) := do
  return (← take (fun _ => ()) 16).takeWhile (· != 0)

def section64 : ReadM Unit Section64 := do
  let sectname ← fixedName
  let segname ← fixedName
  let addr ← u64
  let size ← u64
  let offset ← u32
  let align ← u32
  let reloff ← u32
  let nreloc ← u32
  let flags ← u32
  let _reserved1 ← u32
  let _reserved2 ← u32
  let _reserved3 ← u32
  return ⟨sectname, segname, addr, size, offset, align, reloff, nreloc, flags⟩

/-- A segment, up to its sections. -/
structure Segment64 where
  vmaddr : UInt64
  vmsize : UInt64
  fileoff : UInt64
  filesize : UInt64
  nsects : UInt32

def segment64 : ReadM Unit Segment64 := do
  let _cmd ← u32
  let _cmdsize ← u32
  let _segname ← fixedName
  let vmaddr ← u64
  let vmsize ← u64
  let fileoff ← u64
  let filesize ← u64
  let _maxprot ← u32
  let _initprot ← u32
  let nsects ← u32
  let _flags ← u32
  return ⟨vmaddr, vmsize, fileoff, filesize, nsects⟩

structure Symtab where
  symoff : UInt32
  nsyms : UInt32
  stroff : UInt32
  strsize : UInt32

def symtab : ReadM Unit Symtab := do
  let _cmd ← u32
  let _cmdsize ← u32
  let symoff ← u32
  let nsyms ← u32
  let stroff ← u32
  let strsize ← u32
  return ⟨symoff, nsyms, stroff, strsize⟩

/-- Which symbols are local, defined and not defined: from where on, and how many. -/
structure Dysymtab where
  ilocalsym : Nat
  nlocalsym : Nat
  iextdefsym : Nat
  nextdefsym : Nat
  iundefsym : Nat
  nundefsym : Nat
deriving DecidableEq

def dysymtab : ReadM Unit Dysymtab := do
  let _cmd ← u32
  let _cmdsize ← u32
  let ilocalsym ← u32
  let nlocalsym ← u32
  let iextdefsym ← u32
  let nextdefsym ← u32
  let iundefsym ← u32
  let nundefsym ← u32
  return ⟨ilocalsym.toNat, nlocalsym.toNat, iextdefsym.toNat, nextdefsym.toNat, iundefsym.toNat,
    nundefsym.toNat⟩

/-- A command, and the sections that come with one for a segment. -/
inductive Command
  | segment (segment : Segment64) (sections : List Section64)
  | symtab (symtab : Symtab)
  | dysymtab (dysymtab : Dysymtab)
  | other (cmd : UInt32)

/-- Every command has a kind, and its size leads to the next one. -/
def commandHead : ReadM Unit (UInt32 × UInt32) := do
  let cmd ← u32
  let cmdsize ← u32
  return (cmd, cmdsize)

/-- A command of a kind. -/
def readCommand (bytes : List UInt8) (place : Nat) (cmd : UInt32) : Option Command :=
  if cmd = 0x19 then do
    let segment ← readAt segment64 bytes place
    let sections ← readAt (times segment.nsects.toNat section64) bytes (place + 72)
    return .segment segment sections
  else if cmd = 0x2 then do
    return .symtab (← readAt symtab bytes place)
  else if cmd = 0xb then do
    return .dysymtab (← readAt dysymtab bytes place)
  else some (.other cmd)

/-- Some commands, one after the other. -/
def readCommands (bytes : List UInt8) : Nat → Nat → Option (List Command)
  | 0, _ => some []
  | n + 1, place => do
    let (cmd, cmdsize) ← readAt commandHead bytes place
    let command ← readCommand bytes place cmd
    let commands ← readCommands bytes n (place + cmdsize.toNat)
    return command :: commands

/-- A symbol as it is kept. -/
structure Nlist where
  name : UInt32
  type : UInt8
  sect : UInt8
  desc : UInt16
  value : UInt64

def nlist : ReadM Unit Nlist := do
  let name ← u32
  let type ← u8
  let sect ← u8
  let desc ← u16
  let value ← u64
  return ⟨name, type, sect, desc, value⟩

/-- A relocation as it is kept: an address with a sign, and fields of bits. -/
structure RelocationInfo where
  address : UInt32
  info : UInt32

def relocationInfo : ReadM Unit RelocationInfo := do
  let address ← u32
  let info ← u32
  return ⟨address, info⟩

/-- A symbol with its name. One of a section has the offset in it. -/
structure MachoSymbol where
  name : List UInt8
  type : UInt8
  sect : UInt8
  offset : Int
deriving DecidableEq

/-- A relocation with the symbol that it refers to. -/
structure MachoRelocation where
  address : Int
  symbol : MachoSymbol
  pcRelative : Bool
  length : Nat
  type : Nat
deriving DecidableEq

/-- A section with what it contains. -/
structure MachoSection where
  header : Section64
  contents : List UInt8

/-- An object file as it is read. -/
structure MachoFile where
  header : MachHeader
  sections : List MachoSection
  symtab : Symtab
  symbols : List MachoSymbol
  dysymtab : Dysymtab
  relocations : List MachoRelocation

def readSection (bytes : List UInt8) (header : Section64) : Option MachoSection := do
  let contents ← sliceAt bytes header.offset.toNat header.size.toNat
  return ⟨header, contents⟩

/-- The address of the section of a symbol: sections are counted from one. -/
def baseOf (sections : List Section64) (sect : UInt8) : Option Int :=
  if sect = 0 then some 0 else (sections[sect.toNat - 1]?).map fun found => (found.addr.toNat : Int)

/-- A symbol, with the offset in its section. -/
def readSymbol (strings : List UInt8) (sections : List Section64) (symbol : Nlist) :
    Option MachoSymbol := do
  let name ← cstringAt strings symbol.name.toNat
  let base ← baseOf sections symbol.sect
  return ⟨name, symbol.type, symbol.sect, symbol.value.toNat - base⟩

/-- A relocation that refers to a symbol. -/
def readRelocation (symbols : List MachoSymbol) (relocation : RelocationInfo) :
    Option MachoRelocation := do
  let info := relocation.info.toNat
  guard (info / 2 ^ 27 % 2 = 1)
  let symbol ← symbols[info % 2 ^ 24]?
  return ⟨relocation.address.toInt32.toInt, symbol, info / 2 ^ 24 % 2 = 1, info / 2 ^ 25 % 4,
    info / 2 ^ 28⟩

/-- An object file of 64 bits, with one segment and the tables of symbols. The relocations are those
of the first section. -/
def readMacho (bytes : List UInt8) : Option MachoFile := do
  let header ← readAt machHeader bytes 0
  guard (header.magic = 0xfeedfacf ∧ header.filetype = 1)
  let commands ← readCommands bytes header.ncmds.toNat 32
  let headers ← commands.findSome? fun
    | .segment _ sections => some sections
    | _ => none
  let symtab ← commands.findSome? fun
    | .symtab symtab => some symtab
    | _ => none
  let dysymtab ← commands.findSome? fun
    | .dysymtab dysymtab => some dysymtab
    | _ => none
  let sections ← headers.mapM (readSection bytes)
  let strings ← sliceAt bytes symtab.stroff.toNat symtab.strsize.toNat
  let entries ← readAt (times symtab.nsyms.toNat nlist) bytes symtab.symoff.toNat
  let symbols ← entries.mapM (readSymbol strings headers)
  let first ← headers.head?
  let entries ← readAt (times first.nreloc.toNat relocationInfo) bytes first.reloff.toNat
  let relocations ← entries.mapM (readRelocation symbols)
  return ⟨header, sections, symtab, symbols, dysymtab, relocations⟩

/-! ### What is to be read -/

/-- What the sections of a name contain. -/
def MachoFile.contentsOf (file : MachoFile) (name : String) : List UInt8 :=
  (file.sections.filter (·.header.sectname = utf8 name)).flatMap (·.contents)

/-- The header with the commands, the sections and the tables, each with its extent. -/
def MachoFile.regions (file : MachoFile) : List (Nat × Nat) :=
  (0, 32 + file.header.sizeofcmds.toNat) ::
    file.sections.map (fun found => (found.header.offset.toNat, found.header.size.toNat)) ++
    (file.sections.filter (·.header.nreloc ≠ 0)).map
      (fun found => (found.header.reloff.toNat, found.header.nreloc.toNat * 8)) ++
    [(file.symtab.symoff.toNat, file.symtab.nsyms.toNat * 16),
      (file.symtab.stroff.toNat, file.symtab.strsize.toNat)]

/-- The local symbol of an entry of static data. -/
def staticSymbol (entry : StaticDataEntry) (idx : Nat) : MachoSymbol :=
  ⟨utf8 ("ltmp_codedb_static_" ++ toString idx), 0x0e, 2, entry.offset.toNat⟩

/-- The external symbol that is defined: the function begins where the text does. -/
def functionSymbolOf (name : String) : MachoSymbol := ⟨utf8 name, 0x0f, 1, 0⟩

/-- An external symbol that is not defined. -/
def undefinedSymbol (name : String) : MachoSymbol := ⟨utf8 name, 0x01, 0, 0⟩

/-- The symbol of a function that is called. -/
def targetSymbol (functionSymbol target : String) : MachoSymbol :=
  if target = functionSymbol then functionSymbolOf functionSymbol else undefinedSymbol target

/-- What is found of a relocation that is given, at its place and for its target. -/
def Relocates (functionSymbol : String) (function : CompiledFunction) :
    TextRelocation → List MachoRelocation → Prop
  | .call relocation, found =>
    found = [⟨relocation.offset.toNat, targetSymbol functionSymbol relocation.targetAbiSymbol, true,
      2, arm64RelocBranch26.toNat⟩]
  | .staticDataAddress relocation, found => ∃ entry idx, function.staticData[idx]? = some entry ∧
    entry.staticDataHash = relocation.staticDataHash ∧
      found = [⟨relocation.offset.toNat, staticSymbol entry idx, true, 2, arm64RelocPage21.toNat⟩,
        ⟨relocation.offset.toNat + 4, staticSymbol entry idx, false, 2,
          arm64RelocPageoff12.toNat⟩]

/-- What is read is what was to be written. -/
structure MachoFile.Describes (file : MachoFile) (bytes : List UInt8) (functionSymbol : String)
    (function : CompiledFunction) : Prop where
  /-- No two parts of the file have a byte in common. -/
  apart : file.regions.Pairwise fun region other => region.1 + region.2 ≤ other.1
  within : ∀ region ∈ file.regions, region.1 + region.2 ≤ bytes.length
  text : file.contentsOf "__text" = function.text
  rodata : file.contentsOf "__const" = function.rodata
  symbols : file.symbols =
    function.staticData.zipIdx.map (fun (entry, idx) => staticSymbol entry idx) ++
      functionSymbolOf functionSymbol ::
        (externalSymbols functionSymbol function.relocations).map undefinedSymbol
  /-- First are the local symbols, then the one that is defined, then those that are not. -/
  counts : file.dysymtab = ⟨0, function.staticData.length, function.staticData.length, 1,
    function.staticData.length + 1, (externalSymbols functionSymbol function.relocations).length⟩
  relocations : ∃ groups, file.relocations = List.flatten groups ∧
    List.Forall₂ (Relocates functionSymbol function) function.relocations groups

/-- The names have no zeros, what is counted fits into the fields for it, and there is read-only
data only if there is static data. -/
structure Fits (functionSymbol : String) (function : CompiledFunction) : Prop where
  name : 0 ∉ utf8 functionSymbol
  targets : ∀ offset name, .call ⟨offset, name⟩ ∈ function.relocations → 0 ∉ utf8 name
  tables : ∀ statics globals, (symbolFormat function.text).symbolPasses functionSymbol
      function.staticData function.relocations = some (statics, globals) →
    globals.symbols.length ≤ 2 ^ 24 ∧ globals.strtab.bytes.length < 2 ^ 32 ∧
      (placesOf (!function.staticData.isEmpty) function.text.length function.rodata.length
        (machoRelocationCount function.relocations) globals.symbols.length).stroff < 2 ^ 32
  text : function.text.length ≤ 2 ^ 31
  rodata : function.staticData = [] → function.rodata = []

end Macho

end CodeDb

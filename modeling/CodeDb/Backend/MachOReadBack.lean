import CodeDb.Backend.MachOObject
import Mathlib.Algebra.Ring.Int.Defs

/-!
# Object files for macOS are read back

The commands come one after the other, so each is found by the sizes of those before it, and they
say where the parts of the file are.

## Main results

* `Macho.readCommands_commandsOf` — the commands are read
* `Macho.readMacho_writeMachoObject` — what is read of an object file is what was to be written
-/

namespace CodeDb

open Binary ByteImage SortOn

namespace Macho

/-! ### Records -/

theorem length_putFixedName (name : String) : (putFixedName name).length = 16 := by
  simp only [putFixedName, List.length_append, List.length_replicate, List.length_take]
  omega

/-- A name that is not too long is read back. -/
theorem reads_fixedName {name : String} (short : (utf8 name).length ≤ 16) (plain : 0 ∉ utf8 name) :
    Reads fixedName (putFixedName name) (.ok (utf8 name)) := by
  have taken := Reads.take (fun _ => ()) (putFixedName name)
  rw [length_putFixedName] at taken
  refine taken.last ?_
  congr 1
  rw [putFixedName, List.take_of_length_le short, List.takeWhile_append_of_pos]
  · cases 16 - (utf8 name).length with
    | zero => simp
    | succ n => simp [List.replicate_succ]
  · intro b listed
    exact bne_iff_ne.mpr fun zero => plain (zero ▸ listed)

theorem reads_machHeader (sizeofcmds : UInt32) :
    Reads machHeader (machoHeader sizeofcmds) (.ok ⟨0xfeedfacf, 1, 4, sizeofcmds⟩) :=
  (reads_u32 _).seq <| (reads_u32 _).seq <| (reads_u32 _).seq <| (reads_u32 _).seq <|
    (reads_u32 _).seq <| (reads_u32 _).seq <| (reads_u32 _).seq <| (reads_u32 _).seq <| .pure _

theorem reads_textSection (textOffset : UInt32) (textSize : UInt64)
    (relocOffset relocCount : UInt32) :
    Reads section64 (textSection textOffset textSize relocOffset relocCount)
      (.ok ⟨utf8 "__text", utf8 "__TEXT", 0, textSize, textOffset, 2, relocOffset, relocCount,
        0x80000400⟩) :=
  (reads_fixedName (by decide) (by decide)).seq <| (reads_fixedName (by decide) (by decide)).seq <|
    (reads_u64 _).seq <| (reads_u64 _).seq <| (reads_u32 _).seq <| (reads_u32 _).seq <|
    (reads_u32 _).seq <| (reads_u32 _).seq <| (reads_u32 _).seq <| (reads_u32 _).seq <|
    (reads_u32 _).seq <| (reads_u32 _).seq <| .pure _

theorem reads_constSection (constAddr : UInt64) (constOffset : UInt32) (constSize : UInt64) :
    Reads section64 (constSection constAddr constOffset constSize)
      (.ok ⟨utf8 "__const", utf8 "__TEXT", constAddr, constSize, constOffset, 4, 0, 0, 0⟩) :=
  (reads_fixedName (by decide) (by decide)).seq <| (reads_fixedName (by decide) (by decide)).seq <|
    (reads_u64 _).seq <| (reads_u64 _).seq <| (reads_u32 _).seq <| (reads_u32 _).seq <|
    (reads_u32 _).seq <| (reads_u32 _).seq <| (reads_u32 _).seq <| (reads_u32 _).seq <|
    (reads_u32 _).seq <| (reads_u32 _).seq <| .pure _

theorem reads_symtab (symoff nsyms stroff strsize : UInt32) :
    Reads symtab (machoSymtabCommand symoff nsyms stroff strsize)
      (.ok ⟨symoff, nsyms, stroff, strsize⟩) :=
  (reads_u32 _).seq <| (reads_u32 _).seq <| (reads_u32 _).seq <| (reads_u32 _).seq <|
    (reads_u32 _).seq <| (reads_u32 _).seq <| .pure _

/-- A symbol as it is read. -/
def MachOSymbolEntry.nlist (entry : MachOSymbolEntry) : Nlist :=
  ⟨entry.name, entry.ty, entry.sect, entry.desc, entry.value⟩

theorem reads_nlist (entry : MachOSymbolEntry) : Reads nlist entry.toBytes (.ok entry.nlist) :=
  (reads_u32 _).seq <| (reads_u8 _).seq <| (reads_u8 _).seq <| (reads_u16 _).seq <|
    (reads_u64 _).seq <| .pure _

/-- The bytes of a relocation. -/
def RelocationInfo.toBytes (relocation : RelocationInfo) : List UInt8 :=
  [putU32 relocation.address, putU32 relocation.info].flatten

theorem reads_relocationInfo (relocation : RelocationInfo) :
    Reads relocationInfo relocation.toBytes (.ok relocation) :=
  (reads_u32 _).seq <| (reads_u32 _).seq <| .pure _

@[simp] theorem MachOSymbolEntry.length_toBytes (entry : MachOSymbolEntry) :
    entry.toBytes.length = 16 := by
  simp [toBytes]

@[simp] theorem RelocationInfo.length_toBytes (relocation : RelocationInfo) :
    relocation.toBytes.length = 8 := by
  simp [toBytes]

/-! ### Commands -/

section Commands

variable {bytes : List UInt8} {place : Nat}

/-- A command is read where it stands, and the next ones behind it. -/
theorem readCommands_succ {cmd cmdsize : UInt32} {part : List UInt8} {n : Nat} {command : Command}
    {commands : List Command} (stands : At bytes place part)
    (head : putU32 cmd ++ putU32 cmdsize <+: part) (size : cmdsize.toNat = part.length)
    (first : readCommand bytes place cmd = some command)
    (next : readCommands bytes n (place + part.length) = some commands) :
    readCommands bytes (n + 1) place = some (command :: commands) := by
  obtain ⟨rest, rfl⟩ := head
  have front : At bytes place (putU32 cmd ++ (putU32 cmdsize ++ [])) := by
    rw [List.append_nil]
    exact stands.left
  have found : readAt commandHead bytes place = some (cmd, cmdsize) :=
    front.readAt ((reads_u32 _).seq <| (reads_u32 _).seq <| .pure _)
  rw [readCommands]
  refine Option.bind_eq_some_iff.mpr ⟨_, found, ?_⟩
  refine Option.bind_eq_some_iff.mpr ⟨_, first, ?_⟩
  exact Option.bind_eq_some_iff.mpr ⟨_, size ▸ next, rfl⟩

/-- The sections of a segment, as they are kept and as they are read. -/
def sectionsOf (textOffset : UInt32) (textSize : UInt64)
    (const : Option (UInt64 × UInt32 × UInt64)) (relocOffset relocCount : UInt32) :
    List (List UInt8 × Section64) :=
  (textSection textOffset textSize relocOffset relocCount,
    ⟨utf8 "__text", utf8 "__TEXT", 0, textSize, textOffset, 2, relocOffset, relocCount,
      0x80000400⟩) ::
    (const.map fun (addr, offset, size) => (constSection addr offset size,
      (⟨utf8 "__const", utf8 "__TEXT", addr, size, offset, 4, 0, 0, 0⟩ : Section64))).toList

theorem reads_sectionsOf {textOffset : UInt32} {textSize : UInt64}
    {const : Option (UInt64 × UInt32 × UInt64)} {relocOffset relocCount : UInt32} :
    ∀ s ∈ sectionsOf textOffset textSize const relocOffset relocCount,
      Reads section64 s.1 (.ok s.2) := by
  intro s listed
  rcases List.mem_cons.mp listed with rfl | listed
  · exact reads_textSection _ _ _ _
  · obtain ⟨⟨addr, offset, size⟩, -, rfl⟩ := Option.map_eq_some_iff.mp (Option.mem_toList.mp listed)
    exact reads_constSection _ _ _

/-- What a command for a segment has before its sections. -/
def segmentHead (cmdsize : UInt32) (textOffset : UInt32) (vmsize : UInt64) (nsects : UInt32) :
    List UInt8 :=
  [putU32 0x19, putU32 cmdsize, putFixedName "", putU64 0, putU64 vmsize,
    putU64 textOffset.toUInt64, putU64 vmsize, putU32 7, putU32 5, putU32 nsects, putU32 0].flatten

theorem reads_segmentHead (cmdsize textOffset : UInt32) (vmsize : UInt64) (nsects : UInt32) :
    Reads segment64 (segmentHead cmdsize textOffset vmsize nsects)
      (.ok ⟨0, vmsize, textOffset.toUInt64, vmsize, nsects⟩) :=
  (reads_u32 _).seq <| (reads_u32 _).seq <| (reads_fixedName (by decide) (by decide)).seq <|
    (reads_u64 _).seq <| (reads_u64 _).seq <| (reads_u64 _).seq <| (reads_u64 _).seq <|
    (reads_u32 _).seq <| (reads_u32 _).seq <| (reads_u32 _).seq <| (reads_u32 _).seq <| .pure _

theorem length_segmentHead (cmdsize textOffset : UInt32) (vmsize : UInt64) (nsects : UInt32) :
    (segmentHead cmdsize textOffset vmsize nsects).length = 72 := by
  simp [segmentHead, length_putFixedName]

/-- How many sections there are, and how many bytes the command for them takes. -/
def sectionCount (const : Option (UInt64 × UInt32 × UInt64)) : Nat := if const.isSome then 2 else 1

theorem machoSegmentCommand_eq (textOffset : UInt32) (textSize : UInt64)
    (const : Option (UInt64 × UInt32 × UInt64)) (relocOffset relocCount : UInt32) :
    ∃ vmsize, machoSegmentCommand textOffset textSize const relocOffset relocCount =
      segmentHead (UInt32.ofNat (72 + 80 * sectionCount const)) textOffset vmsize
        (UInt32.ofNat (sectionCount const)) ++
      (sectionsOf textOffset textSize const relocOffset relocCount).flatMap (·.1) := by
  cases const with
  | none =>
    refine ⟨textSize, ?_⟩
    simp [machoSegmentCommand, segmentHead, sectionsOf, sectionCount]
  | some const =>
    refine ⟨const.1 + const.2.2, ?_⟩
    simp [machoSegmentCommand, segmentHead, sectionsOf, sectionCount]

theorem length_textSection (textOffset : UInt32) (textSize : UInt64)
    (relocOffset relocCount : UInt32) :
    (textSection textOffset textSize relocOffset relocCount).length = 80 := by
  simp [textSection, length_putFixedName]

theorem length_constSection (constAddr : UInt64) (constOffset : UInt32) (constSize : UInt64) :
    (constSection constAddr constOffset constSize).length = 80 := by
  simp [constSection, length_putFixedName]

theorem length_sectionsOf (textOffset : UInt32) (textSize : UInt64)
    (const : Option (UInt64 × UInt32 × UInt64)) (relocOffset relocCount : UInt32) :
    ((sectionsOf textOffset textSize const relocOffset relocCount).flatMap (·.1)).length =
      80 * sectionCount const := by
  cases const with
  | none => simp [sectionsOf, sectionCount, length_textSection]
  | some const => simp [sectionsOf, sectionCount, length_textSection, length_constSection]

theorem toNat_sectionCount (const : Option (UInt64 × UInt32 × UInt64)) :
    (UInt32.ofNat (sectionCount const)).toNat = sectionCount const ∧
      (UInt32.ofNat (72 + 80 * sectionCount const)).toNat = 72 + 80 * sectionCount const := by
  cases const <;> exact ⟨rfl, rfl⟩

/-- The command for a segment is read with its sections. -/
theorem readCommands_segment {textOffset : UInt32} {textSize : UInt64}
    {const : Option (UInt64 × UInt32 × UInt64)} {relocOffset relocCount : UInt32} {n : Nat}
    {commands : List Command}
    (stands : At bytes place (machoSegmentCommand textOffset textSize const relocOffset relocCount))
    (next : readCommands bytes n (place + (72 + 80 * sectionCount const)) = some commands) :
    ∃ segment, readCommands bytes (n + 1) place = some (.segment segment
      ((sectionsOf textOffset textSize const relocOffset relocCount).map (·.2)) :: commands) := by
  obtain ⟨vmsize, parts⟩ :=
    machoSegmentCommand_eq textOffset textSize const relocOffset relocCount
  rw [parts] at stands
  obtain ⟨count, size⟩ := toNat_sectionCount const
  have sections := stands.right.readTable reads_sectionsOf
  rw [length_segmentHead] at sections
  have length : (sectionsOf textOffset textSize const relocOffset relocCount).length =
      sectionCount const := by
    cases const <;> rfl
  refine ⟨⟨0, vmsize, textOffset.toUInt64, vmsize, UInt32.ofNat (sectionCount const)⟩,
    readCommands_succ stands ⟨_, rfl⟩ ?_ ?_ ?_⟩
  · rw [size, List.length_append, length_segmentHead, length_sectionsOf]
  · rw [readCommand, if_pos rfl]
    refine Option.bind_eq_some_iff.mpr ⟨_, stands.left.readAt (reads_segmentHead _ _ _ _), ?_⟩
    refine Option.bind_eq_some_iff.mpr ⟨_, ?_, rfl⟩
    rw [count, ← length]
    exact sections
  · rw [List.length_append, length_segmentHead, length_sectionsOf]
    exact next

theorem length_machoSegmentCommand (textOffset : UInt32) (textSize : UInt64)
    (const : Option (UInt64 × UInt32 × UInt64)) (relocOffset relocCount : UInt32) :
    (machoSegmentCommand textOffset textSize const relocOffset relocCount).length =
      72 + 80 * sectionCount const := by
  obtain ⟨vmsize, parts⟩ := machoSegmentCommand_eq textOffset textSize const relocOffset relocCount
  rw [parts, List.length_append, length_segmentHead, length_sectionsOf]

theorem readAt_dysymtab {nlocalsym iextdefsym iundefsym nundefsym : UInt32}
    (stands : At bytes place (machoDysymtabCommand nlocalsym iextdefsym iundefsym nundefsym)) :
    readAt dysymtab bytes place = some ⟨0, nlocalsym.toNat, iextdefsym.toNat, 1, iundefsym.toNat,
      nundefsym.toNat⟩ := by
  have front : At bytes place [putU32 0xb, putU32 80, putU32 0, putU32 nlocalsym, putU32 iextdefsym,
      putU32 1, putU32 iundefsym, putU32 nundefsym].flatten := by
    have parts : machoDysymtabCommand nlocalsym iextdefsym iundefsym nundefsym =
        [putU32 0xb, putU32 80, putU32 0, putU32 nlocalsym, putU32 iextdefsym, putU32 1,
          putU32 iundefsym, putU32 nundefsym].flatten ++ (List.replicate 12 0).flatMap putU32 := by
      simp [machoDysymtabCommand, List.replicate]
    rw [parts] at stands
    exact stands.left
  exact front.readAt ((reads_u32 _).seq <| (reads_u32 _).seq <| (reads_u32 _).seq <|
    (reads_u32 _).seq <| (reads_u32 _).seq <| (reads_u32 _).seq <| (reads_u32 _).seq <|
    (reads_u32 _).seq <| .pure _)

/-- The commands are read one after the other. -/
theorem readCommands_commandsOf {places : Places} {hasConst : Bool}
    {textLen rodataLen strsize localCount symbolCount externalCount : Nat}
    (stands : At bytes 0 (commandsOf places hasConst textLen rodataLen strsize localCount
      symbolCount externalCount)) : ∃ segment, readCommands bytes 4 32 = some [.segment segment
        ((sectionsOf (UInt32.ofNat places.textOffset) (UInt64.ofNat textLen)
          (if hasConst then some (UInt64.ofNat places.constAddr, UInt32.ofNat places.constOffset,
            UInt64.ofNat rodataLen) else none)
          (UInt32.ofNat places.relocOffset) (UInt32.ofNat places.relocCount)).map (·.2)),
      .other 0x32, .symtab ⟨UInt32.ofNat places.symoff, UInt32.ofNat symbolCount,
        UInt32.ofNat places.stroff, UInt32.ofNat strsize⟩,
      .dysymtab ⟨0, (UInt32.ofNat localCount).toNat, (UInt32.ofNat localCount).toNat, 1,
        (UInt32.ofNat (localCount + 1)).toNat, (UInt32.ofNat externalCount).toNat⟩] := by
  rw [commandsOf] at stands
  have header : (machoHeader (UInt32.ofNat places.sizeofcmds)).length = 32 := by
    simp [machoHeader]
  have build : machoBuildVersionCommand.length = 24 := by decide
  have table : (machoSymtabCommand (UInt32.ofNat places.symoff) (UInt32.ofNat symbolCount)
      (UInt32.ofNat places.stroff) (UInt32.ofNat strsize)).length = 24 := by
    simp [machoSymtabCommand]
  have segment := stands.left.left.left.right
  have version := stands.left.left.right
  have symbols := stands.left.right
  have counts := stands.right
  simp only [List.length_append, header, build, table, length_machoSegmentCommand,
    Nat.zero_add] at segment version symbols counts
  refine readCommands_segment segment ?_
  refine readCommands_succ version ⟨_, rfl⟩ (by decide) rfl ?_
  rw [build]
  refine readCommands_succ symbols ⟨_, rfl⟩ (by rw [table]; rfl) ?_ ?_
  · exact Option.bind_eq_some_iff.mpr ⟨_, symbols.readAt (reads_symtab _ _ _ _), rfl⟩
  · rw [table]
    have length : ∀ a b c d, (machoDysymtabCommand a b c d).length = 80 := by
      simp [machoDysymtabCommand]
    refine readCommands_succ counts ⟨_, rfl⟩ (by rw [length]; rfl) ?_ rfl
    exact Option.bind_eq_some_iff.mpr ⟨_, readAt_dysymtab counts, rfl⟩

end Commands

/-! ### Places -/

section Places

variable {entries symtab : List UInt8} {relocCount symbolCount : Nat}

theorem length_commandsOf (places : Places) (hasConst : Bool)
    (textLen rodataLen strsize localCount symbolCount externalCount : Nat) :
    (commandsOf places hasConst textLen rodataLen strsize localCount symbolCount
      externalCount).length = 32 + ((if hasConst then 232 else 152) + 24 + 24 + 80) := by
  rw [commandsOf]
  cases hasConst <;>
    simp [length_machoSegmentCommand, machoHeader, machoSymtabCommand, machoDysymtabCommand,
      machoBuildVersionCommand, sectionCount]

/-- The parts are put in turn. -/
theorem inTurn_partsOf (hasConst : Bool) (text rodata strtab : List UInt8)
    (entriesLen : entries.length = relocCount * 8)
    (symtabLen : symtab.length = symbolCount * 16) :
    InTurn (placesOf hasConst text.length rodata.length relocCount symbolCount).textOffset
      (partsOf (placesOf hasConst text.length rodata.length relocCount symbolCount) hasConst text
        rodata entries symtab strtab) := by
  have behindText := le_alignTo text.length 16
  cases hasConst <;> by_cases none : relocCount = 0 <;>
    simp [placesOf, partsOf, none, InTurn, symtabLen, entriesLen, le_alignTo]

end Places

/-! ### Relocations -/

/-- The fields of a relocation lie above the index of the symbol. -/
theorem toNat_machoRelocationInfo {index kind : UInt32} (small : index.toNat < 2 ^ 24)
    (known : kind = 2 ∨ kind = 3 ∨ kind = 4) (pcRelative : Bool) :
    (machoRelocationInfo index pcRelative kind).toNat =
      (pcRelative.toNat + 12 + 16 * kind.toNat) * 2 ^ 24 + index.toNat := by
  have fields : ((if pcRelative then 1 else 0 : UInt32) <<< 24 ||| ((2 : UInt32) <<< 25 |||
      ((1 : UInt32) <<< 27 ||| kind <<< 28))).toNat =
        (pcRelative.toNat + 12 + 16 * kind.toNat) * 2 ^ 24 := by
    rcases known with rfl | rfl | rfl <;> cases pcRelative <;> decide
  rw [machoRelocationInfo]
  simp only [UInt32.or_assoc]
  rw [UInt32.toNat_or, fields, Nat.or_comm, ← Nat.shiftLeft_eq,
    Nat.shiftLeft_add_eq_or_of_lt small]

/-- A relocation leads to the symbol with its index. -/
theorem readRelocation_eq {symbols : List MachoSymbol} {position : Nat} {symbol : MachoSymbol}
    {offset kind : UInt32} (found : symbols[position]? = some symbol) (small : position < 2 ^ 24)
    (address : offset.toNat < 2 ^ 31) (known : kind = 2 ∨ kind = 3 ∨ kind = 4) (pcRelative : Bool) :
    readRelocation symbols ⟨offset, machoRelocationInfo (UInt32.ofNat position) pcRelative kind⟩ =
      some ⟨offset.toNat, symbol, pcRelative, 2, kind.toNat⟩ := by
  have index : (UInt32.ofNat position).toNat = position :=
    UInt32.toNat_ofNat_of_lt' (lt_trans small (by decide))
  have info := toNat_machoRelocationInfo (index.symm ▸ small) known pcRelative
  rw [index] at info
  have signed : offset.toInt32.toInt = offset.toNat := by
    change offset.toBitVec.toInt = _
    rw [BitVec.toInt_eq_toNat_of_lt (by change 2 * offset.toNat < 2 ^ 32; omega)]
    rfl
  have type : kind.toNat < 16 := by rcases known with rfl | rfl | rfl <;> decide
  have bit : pcRelative.toNat < 2 := by cases pcRelative <;> decide
  rw [readRelocation]
  simp only [info, signed]
  rw [show ((pcRelative.toNat + 12 + 16 * kind.toNat) * 2 ^ 24 + position) % 2 ^ 24 = position by
      omega, found,
    show ((pcRelative.toNat + 12 + 16 * kind.toNat) * 2 ^ 24 + position) / 2 ^ 27 % 2 = 1 by omega,
    show ((pcRelative.toNat + 12 + 16 * kind.toNat) * 2 ^ 24 + position) / 2 ^ 24 % 2 =
      pcRelative.toNat by omega,
    show ((pcRelative.toNat + 12 + 16 * kind.toNat) * 2 ^ 24 + position) / 2 ^ 25 % 4 = 2 by omega,
    show ((pcRelative.toNat + 12 + 16 * kind.toNat) * 2 ^ 24 + position) / 2 ^ 28 = kind.toNat by
      omega]
  cases pcRelative <;> rfl

/-! ### Symbols -/

section Symbols

variable {functionSymbol : String} {function : CompiledFunction}

/-- All symbols of a function. -/
abbrev passOf (functionSymbol : String) (function : CompiledFunction) :
    SymbolPass MachOSymbolEntry :=
  (symbolFormat function.text).globalPass functionSymbol function.staticData function.relocations

/-- The symbols that are to be read. -/
def expectedSymbols (functionSymbol : String) (function : CompiledFunction) : List MachoSymbol :=
  [] ++ function.staticData.zipIdx.map (fun (entry, idx) => staticSymbol entry idx) ++
    functionSymbolOf functionSymbol ::
      (externalSymbols functionSymbol function.relocations).map undefinedSymbol

section Read

variable {strings name text : List UInt8} {sections : List Section64} {place : UInt32}

theorem readSymbol_eq {base : Int} {type sect : UInt8} {desc : UInt16} {value : UInt64}
    (read : cstringAt strings place.toNat = some name) (found : baseOf sections sect = some base) :
    readSymbol strings sections ⟨place, type, sect, desc, value⟩ =
      some ⟨name, type, sect, value.toNat - base⟩ := by
  rw [readSymbol]
  refine Option.bind_eq_some_iff.mpr ⟨_, read, ?_⟩
  exact Option.bind_eq_some_iff.mpr ⟨_, found, rfl⟩

theorem baseOf_eq {sect : UInt8} {addr : UInt64} (counted : sect ≠ 0)
    (found : sections[sect.toNat - 1]?.map (·.addr) = some addr) :
    baseOf sections sect = some (addr.toNat : Int) := by
  obtain ⟨header, known, rfl⟩ := Option.map_eq_some_iff.mp found
  rw [baseOf, if_neg counted, known, Option.map_some]

/-- The symbol of an entry of static data is read with its place in the read-only data. -/
theorem readSymbol_static {entry : StaticDataEntry} {idx : Nat}
    (read : cstringAt strings place.toNat = some (utf8 ("ltmp_codedb_static_" ++ toString idx)))
    (found : sections[1]?.map (·.addr) = some (UInt64.ofNat (alignTo text.length 16)))
    (small : alignTo text.length 16 + entry.offset.toNat < 2 ^ 64) :
    readSymbol strings sections ((symbolFormat text).static entry place).nlist =
      some (staticSymbol entry idx) := by
  have addr : (UInt64.ofNat (alignTo text.length 16)).toNat = alignTo text.length 16 :=
    UInt64.toNat_ofNat_of_lt' (lt_of_le_of_lt (Nat.le_add_right ..) small)
  have value : (UInt64.ofNat (alignTo text.length 16) + entry.offset).toNat =
      alignTo text.length 16 + entry.offset.toNat := by
    rw [UInt64.toNat_add, addr]
    exact Nat.mod_eq_of_lt small
  have base : baseOf sections 2 = some _ := baseOf_eq (by decide) found
  change readSymbol strings sections ⟨place, 0x0e, 2, 0,
    UInt64.ofNat (alignTo text.length 16) + entry.offset⟩ = _
  have offset : ((alignTo text.length 16 + entry.offset.toNat : Nat) : Int) -
      (alignTo text.length 16 : Nat) = entry.offset.toNat := by omega
  rw [readSymbol_eq read base, value, addr, offset, staticSymbol]

theorem readSymbol_function {functionSymbol : String}
    (read : cstringAt strings place.toNat = some (utf8 functionSymbol))
    (found : sections[0]?.map (·.addr) = some 0) :
    readSymbol strings sections ((symbolFormat text).function place).nlist =
      some (functionSymbolOf functionSymbol) := by
  have base : baseOf sections 1 = some ((0 : UInt64).toNat : Int) := baseOf_eq (by decide) found
  exact readSymbol_eq read base

theorem readSymbol_external {external : String}
    (read : cstringAt strings place.toNat = some (utf8 external)) :
    readSymbol strings sections ((symbolFormat text).external place).nlist =
      some (undefinedSymbol external) :=
  readSymbol_eq read (if_pos rfl)

end Read

theorem Fits.plain_external (fits : Fits functionSymbol function) {external : String}
    (listed : external ∈ externalSymbols functionSymbol function.relocations) :
    0 ∉ utf8 external := by
  obtain ⟨⟨offset, called⟩, -⟩ := mem_externalSymbols.mp listed
  exact fits.targets offset external called

/-- The symbols of the passes are read with their names and their places in the sections. -/
theorem mapM_readSymbol (fits : Fits functionSymbol function)
    (distinct : (function.staticData.map (·.staticDataHash)).Nodup) {sections : List Section64}
    (text : sections[0]?.map (·.addr) = some 0)
    (const : function.staticData ≠ [] → sections[1]?.map (·.addr) =
      some (UInt64.ofNat (alignTo function.text.length 16)))
    (room : ∀ entry ∈ function.staticData,
      alignTo function.text.length 16 + entry.offset.toNat < 2 ^ 64) :
    ((passOf functionSymbol function).symbols.map MachOSymbolEntry.nlist).mapM
      (readSymbol (passOf functionSymbol function).strtab.bytes sections) =
        some (expectedSymbols functionSymbol function) := by
  have places := (fits.tables _ _ (SymbolFormat.symbolPasses_eq distinct)).2.1.le
  have named {name : String} (plain : 0 ∉ utf8 name)
      (found : ∃ place, (passOf functionSymbol function).strtab.offset name = some place) :
      cstringAt (passOf functionSymbol function).strtab.bytes
        ((symbolFormat function.text).place functionSymbol function.staticData function.relocations
          name).toNat = some (utf8 name) := by
    obtain ⟨place, found⟩ := found
    rw [SymbolFormat.place, found]
    exact SymbolFormat.sound_globalPass.cstringAt places found plain
  rw [SymbolFormat.symbols_globalPass, SymbolFormat.symbols, List.map_append, List.map_append,
    List.map_cons, List.map_map, List.map_map]
  refine mapM_append_eq_some (mapM_append_eq_some rfl (mapM_map_eq_some ?_))
    (mapM_cons_eq_some ?_ (mapM_map_eq_some ?_))
  · intro e listed
    have held : e.1 ∈ function.staticData := List.fst_mem_of_mem_zipIdx listed
    have addr := const (List.ne_nil_of_mem held)
    have plain := zero_notMem_utf8_append_toString (by decide : 0 ∉ utf8 "ltmp_codedb_static_") e.2
    exact readSymbol_static (named plain (SymbolFormat.offset_static e listed)) addr
      (room e.1 held)
  · exact readSymbol_function (named fits.name ⟨_, SymbolFormat.offset_functionSymbol⟩) text
  · intro external listed
    exact readSymbol_external (named (fits.plain_external listed)
      (SymbolFormat.offset_external external listed))

theorem length_expectedSymbols : (expectedSymbols functionSymbol function).length =
    (passOf functionSymbol function).symbols.length := by
  rw [SymbolFormat.symbols_globalPass, SymbolFormat.symbols]
  simp [expectedSymbols, symbolFormat]

theorem expectedSymbols_function :
    (expectedSymbols functionSymbol function)[0 + function.staticData.length]? =
      some (functionSymbolOf functionSymbol) := by
  have position := getElem?_function []
    (function.staticData.zipIdx.map fun (entry, idx) => staticSymbol entry idx)
    ((externalSymbols functionSymbol function.relocations).map undefinedSymbol)
    (functionSymbolOf functionSymbol)
  rwa [List.length_map, List.length_zipIdx] at position

theorem expectedSymbols_external {i : Nat} {external : String}
    (found : (externalSymbols functionSymbol function.relocations)[i]? = some external) :
    (expectedSymbols functionSymbol function)[0 + function.staticData.length + 1 + i]? =
      some (undefinedSymbol external) := by
  have position := getElem?_external []
    (function.staticData.zipIdx.map fun (entry, idx) => staticSymbol entry idx)
    ((externalSymbols functionSymbol function.relocations).map undefinedSymbol)
    (functionSymbolOf functionSymbol) (by rw [List.getElem?_map, found, Option.map_some])
  rwa [List.length_map, List.length_zipIdx] at position

theorem expectedSymbols_static {i : Nat} {entry : StaticDataEntry}
    (found : function.staticData[i]? = some entry) :
    (expectedSymbols functionSymbol function)[0 + i]? = some (staticSymbol entry i) := by
  refine getElem?_local _ _ _ _ ?_
  rw [List.getElem?_map, List.getElem?_zipIdx, found, Option.map_some, Option.map_some,
    Nat.zero_add]

/-- The index of a function that is called leads to its symbol. -/
theorem exists_targetSymbol {offset : UInt64} {target : String}
    (given : .call ⟨offset, target⟩ ∈ function.relocations) : ∃ position,
      (passOf functionSymbol function).indexes.lookup target = some (UInt32.ofNat position) ∧
      (expectedSymbols functionSymbol function)[position]? =
        some (targetSymbol functionSymbol target) := by
  by_cases own : target = functionSymbol
  · refine ⟨0 + function.staticData.length, ?_, ?_⟩
    · exact own ▸ (symbolFormat function.text).lookup_function functionSymbol function.staticData
        function.relocations
    · rw [targetSymbol, if_pos own]
      exact expectedSymbols_function
  · obtain ⟨i, index, found⟩ := (symbolFormat function.text).lookup_external function.staticData
      (mem_externalSymbols.mpr ⟨⟨offset, given⟩, own⟩)
    refine ⟨_, index, ?_⟩
    rw [targetSymbol, if_neg own]
    exact expectedSymbols_external found

/-- What is written for a relocation is read as what is to be found of it. -/
theorem exists_entriesOf (fits : Fits functionSymbol function) (placed : function.WellPlaced 8) :
    ∀ r ∈ function.relocations, ∃ (entries : List RelocationInfo) (found : List MachoRelocation),
      entriesOf (passOf functionSymbol function).indexes
        ((symbolFormat function.text).staticPass functionSymbol function.staticData).indexes r =
          some (entries.flatMap RelocationInfo.toBytes) ∧
      entries.mapM (readRelocation (expectedSymbols functionSymbol function)) = some found ∧
      entries.length = entryCount r ∧
      Relocates functionSymbol function r found := by
  -- symbols are numbered in 24 bits, offsets in 31
  have few := (fits.tables _ _ (SymbolFormat.symbolPasses_eq placed.distinct)).1
  rw [← length_expectedSymbols] at few
  have small {position : Nat} {symbol : MachoSymbol}
      (found : (expectedSymbols functionSymbol function)[position]? = some symbol) :
      position < 2 ^ 24 := by
    obtain ⟨bound, -⟩ := List.getElem?_eq_some_iff.mp found
    omega
  have text := fits.text
  intro r given
  have inside := placed.inside r given
  cases r with
  | call relocation =>
    obtain ⟨position, index, symbol⟩ := exists_targetSymbol given
    have fitting : relocation.offset.toNat + 4 ≤ function.text.length := inside
    have address : relocation.offset.toUInt32.toNat = relocation.offset.toNat := by
      rw [UInt64.toNat_toUInt32]
      exact Nat.mod_eq_of_lt (by omega)
    have low : relocation.offset.toUInt32.toNat < 2 ^ 31 := by omega
    have read := readRelocation_eq symbol (small symbol) low
      (Or.inl rfl : arm64RelocBranch26 = 2 ∨ _) true
    -- a call has one entry
    refine ⟨[_], _, ?_, mapM_cons_eq_some read rfl, rfl, ?_⟩
    · rw [entriesOf, index]
      rfl
    · rw [address]
      rfl
  | staticDataAddress relocation =>
    obtain ⟨entry, inData, same⟩ := placed.listed relocation.offset relocation.staticDataHash given
    obtain ⟨i, found, index, held, equal⟩ :=
      (symbolFormat function.text).lookup_static functionSymbol inData
    have symbol : (expectedSymbols functionSymbol function)[0 + i]? = _ :=
      expectedSymbols_static held
    have fitting : relocation.offset.toNat + 8 ≤ function.text.length := inside
    have address : relocation.offset.toUInt32.toNat = relocation.offset.toNat := by
      rw [UInt64.toNat_toUInt32]
      exact Nat.mod_eq_of_lt (by omega)
    have next : (relocation.offset + 4).toUInt32.toNat = relocation.offset.toNat + 4 := by
      have sum : (relocation.offset + 4).toNat = relocation.offset.toNat + 4 := by
        rw [UInt64.toNat_add]
        exact Nat.mod_eq_of_lt (by change relocation.offset.toNat + 4 < _; omega)
      rw [UInt64.toNat_toUInt32, sum]
      exact Nat.mod_eq_of_lt (by omega)
    have low : relocation.offset.toUInt32.toNat < 2 ^ 31 := by omega
    have low' : (relocation.offset + 4).toUInt32.toNat < 2 ^ 31 := by omega
    -- an address has two: the page, and the offset in the page four bytes further on
    have page := readRelocation_eq symbol (small symbol) low
      (Or.inr (Or.inl rfl) : arm64RelocPage21 = 2 ∨ _) true
    have pageoff := readRelocation_eq symbol (small symbol) low'
      (Or.inr (Or.inr rfl) : arm64RelocPageoff12 = 2 ∨ _) false
    refine ⟨[_, _], _, ?_, mapM_cons_eq_some page (mapM_cons_eq_some pageoff rfl), rfl, ?_⟩
    · rw [same] at index
      rw [entriesOf, index]
      rfl
    · refine ⟨found, i, held, equal.trans same, ?_⟩
      rw [address, next]
      rfl

end Symbols

/-! ### Files -/

/-- The headers of the sections at places. -/
def headersOf (places : Places) (hasConst : Bool) (textLen rodataLen : Nat) : List Section64 :=
  ⟨utf8 "__text", utf8 "__TEXT", 0, UInt64.ofNat textLen, UInt32.ofNat places.textOffset, 2,
    UInt32.ofNat places.relocOffset, UInt32.ofNat places.relocCount, 0x80000400⟩ ::
    if hasConst then [⟨utf8 "__const", utf8 "__TEXT", UInt64.ofNat places.constAddr,
      UInt64.ofNat rodataLen, UInt32.ofNat places.constOffset, 4, 0, 0, 0⟩] else []

theorem map_snd_sectionsOf (places : Places) (hasConst : Bool) (textLen rodataLen : Nat) :
    (sectionsOf (UInt32.ofNat places.textOffset) (UInt64.ofNat textLen)
      (if hasConst then some (UInt64.ofNat places.constAddr, UInt32.ofNat places.constOffset,
        UInt64.ofNat rodataLen) else none)
      (UInt32.ofNat places.relocOffset) (UInt32.ofNat places.relocCount)).map (·.2) =
      headersOf places hasConst textLen rodataLen := by
  cases hasConst <;> rfl

/-- A file that has some parts in turn behind the commands that are about them, and no place that
is too large for its field. -/
structure Placed (bytes text rodata entries symtab strtab : List UInt8) (places : Places)
    (hasConst : Bool) (localCount symbolCount externalCount : Nat) : Prop where
  commands : At bytes 0 (commandsOf places hasConst text.length rodata.length strtab.length
    localCount symbolCount externalCount)
  header : 32 + places.sizeofcmds = places.textOffset ∧ places.textOffset < 2 ^ 32
  parts : ∀ p ∈ partsOf places hasConst text rodata entries symtab strtab,
    At bytes p.1 p.2 ∧ p.1 < 2 ^ 32 ∧ p.2.length < 2 ^ 32
  inTurn : InTurn places.textOffset (partsOf places hasConst text rodata entries symtab strtab)

section Files

variable {bytes text rodata entries symtab strtab : List UInt8} {places : Places} {hasConst : Bool}
  {relocCount localCount symbolCount externalCount : Nat}

theorem toNat_ofNat32 {n : Nat} (small : n < 2 ^ 32) : (UInt32.ofNat n).toNat = n :=
  UInt32.toNat_ofNat_of_lt' small

theorem toNat_ofNat64 {n : Nat} (small : n < 2 ^ 32) : (UInt64.ofNat n).toNat = n :=
  UInt64.toNat_ofNat_of_lt' (lt_trans small (by decide))

/-- The writer places the parts. -/
theorem placed_putAll (text rodata : List UInt8) (localCount externalCount : Nat)
    (entriesLen : entries.length = relocCount * 8)
    (symtabLen : symtab.length = symbolCount * 16) (strings : strtab.length < 2 ^ 32)
    (last : (placesOf hasConst text.length rodata.length relocCount symbolCount).stroff < 2 ^ 32) :
    Placed (putAll (commandsOf (placesOf hasConst text.length rodata.length relocCount symbolCount)
        hasConst text.length rodata.length strtab.length localCount symbolCount externalCount)
      (partsOf (placesOf hasConst text.length rodata.length relocCount symbolCount) hasConst text
        rodata entries symtab strtab)) text rodata entries symtab strtab
      (placesOf hasConst text.length rodata.length relocCount symbolCount) hasConst localCount
      symbolCount externalCount := by
  have inTurn := inTurn_partsOf hasConst text rodata strtab entriesLen symtabLen
  set places := placesOf hasConst text.length rodata.length relocCount symbolCount with computed
  have length := length_commandsOf places hasConst text.length rodata.length strtab.length
    localCount symbolCount externalCount
  have header : 32 + ((if hasConst then 232 else 152) + 24 + 24 + 80) = places.textOffset := by
    rw [computed]
    rfl
  rw [header] at length
  have stands := at_putAll (length ▸ inTurn)
  -- every other part ends before the names, which come last
  have before : ∀ p ∈ partsOf places hasConst text rodata entries symtab strtab,
      p.1 < 2 ^ 32 ∧ p.2.length < 2 ^ 32 := by
    have split : partsOf places hasConst text rodata entries symtab strtab =
        ((places.textOffset, text) :: (if hasConst then [(places.constOffset, rodata)] else []) ++
          (if places.relocCount = 0 then [] else [(places.relocOffset, entries)]) ++
            [(places.symoff, symtab)]) ++ [(places.stroff, strtab)] := by
      rw [partsOf, List.append_assoc _ [(places.symoff, symtab)]]
      rfl
    have apart := inTurn.pairwise
    rw [split, List.pairwise_append] at apart
    intro p listed
    rw [split, List.mem_append] at listed
    rcases listed with front | names
    · have ends := apart.2.2 p front _ List.mem_cons_self
      omega
    · rw [List.mem_singleton.mp names]
      exact ⟨last, strings⟩
  refine ⟨at_zero_of_started (prefix_putAll ..), ⟨header, ?_⟩, fun p listed =>
    ⟨stands p listed, before p listed⟩, inTurn⟩
  exact (before (places.textOffset, text) List.mem_cons_self).1

/-- The sections as they are read. -/
def machoSectionsOf (places : Places) (hasConst : Bool) (text rodata : List UInt8) :
    List MachoSection :=
  ⟨⟨utf8 "__text", utf8 "__TEXT", 0, UInt64.ofNat text.length, UInt32.ofNat places.textOffset, 2,
    UInt32.ofNat places.relocOffset, UInt32.ofNat places.relocCount, 0x80000400⟩, text⟩ ::
    if hasConst then [⟨⟨utf8 "__const", utf8 "__TEXT", UInt64.ofNat places.constAddr,
      UInt64.ofNat rodata.length, UInt32.ofNat places.constOffset, 4, 0, 0, 0⟩, rodata⟩] else []

/-- The sections are read where their headers say. -/
theorem Placed.mapM_readSection (stands : Placed bytes text rodata entries symtab strtab places
    hasConst localCount symbolCount externalCount) :
    (headersOf places hasConst text.length rodata.length).mapM (readSection bytes) =
      some (machoSectionsOf places hasConst text rodata) := by
  have read {header : Section64} {contents : List UInt8} {place : Nat}
      (placed : At bytes place contents ∧ place < 2 ^ 32 ∧ contents.length < 2 ^ 32)
      (offset : header.offset = UInt32.ofNat place)
      (size : header.size = UInt64.ofNat contents.length) :
      readSection bytes header = some ⟨header, contents⟩ := by
    rw [readSection, offset, size, toNat_ofNat32 placed.2.1, toNat_ofNat64 placed.2.2,
      placed.1.sliceAt]
    rfl
  have first := stands.parts (places.textOffset, text) List.mem_cons_self
  cases hasConst with
  | false => exact mapM_cons_eq_some (read first rfl rfl) rfl
  | true =>
    have second := stands.parts (places.constOffset, rodata)
      (List.mem_cons_of_mem _ List.mem_cons_self)
    exact mapM_cons_eq_some (read first rfl rfl) (mapM_cons_eq_some (read second rfl rfl) rfl)

/-- What is read of parts at places. -/
theorem readMacho_of_placed {symbols : List MachOSymbolEntry} {infos : List RelocationInfo}
    {names : List MachoSymbol} {relocations : List MachoRelocation}
    (stands : Placed bytes text rodata (infos.flatMap RelocationInfo.toBytes)
      (symbols.flatMap MachOSymbolEntry.toBytes) strtab places hasConst localCount symbols.length
      externalCount) (count : infos.length = places.relocCount)
    (few : localCount + 1 + externalCount ≤ symbols.length) (small : symbols.length ≤ 2 ^ 24)
    (named : (symbols.map MachOSymbolEntry.nlist).mapM
      (readSymbol strtab (headersOf places hasConst text.length rodata.length)) = some names)
    (resolved : infos.mapM (readRelocation names) = some relocations) :
    readMacho bytes = some ⟨⟨0xfeedfacf, 1, 4, UInt32.ofNat places.sizeofcmds⟩,
      machoSectionsOf places hasConst text rodata, ⟨UInt32.ofNat places.symoff,
        UInt32.ofNat symbols.length, UInt32.ofNat places.stroff, UInt32.ofNat strtab.length⟩, names,
      ⟨0, localCount, localCount, 1, localCount + 1, externalCount⟩, relocations⟩ := by
  -- the parts one after the other, each where the load commands say it is
  have header : readAt machHeader bytes 0 = some _ :=
    stands.commands.left.left.left.left.readAt (reads_machHeader _)
  obtain ⟨segment, commands⟩ := readCommands_commandsOf stands.commands
  rw [map_snd_sectionsOf, toNat_ofNat32 (by omega : localCount < 2 ^ 32),
    toNat_ofNat32 (by omega : localCount + 1 < 2 ^ 32),
    toNat_ofNat32 (by omega : externalCount < 2 ^ 32)] at commands
  have strings : sliceAt bytes (UInt32.ofNat places.stroff).toNat
      (UInt32.ofNat strtab.length).toNat = some strtab := by
    obtain ⟨place, low, size⟩ := stands.parts (places.stroff, strtab) (by simp [partsOf])
    rw [toNat_ofNat32 low, toNat_ofNat32 size]
    exact place.sliceAt
  have entries : readAt (times (UInt32.ofNat symbols.length).toNat nlist) bytes
      (UInt32.ofNat places.symoff).toNat = some (symbols.map MachOSymbolEntry.nlist) := by
    obtain ⟨place, low, -⟩ := stands.parts (places.symoff,
      symbols.flatMap MachOSymbolEntry.toBytes) (by simp [partsOf])
    rw [toNat_ofNat32 low, toNat_ofNat32 (by omega)]
    exact place.readTable fun entry _ => reads_nlist entry
  have table : readAt (times (UInt32.ofNat places.relocCount).toNat relocationInfo) bytes
      (UInt32.ofNat places.relocOffset).toNat = some infos := by
    -- without relocations there is no table, and nothing is read
    by_cases none : places.relocCount = 0
    · rw [none] at count ⊢
      rw [List.eq_nil_of_length_eq_zero count]
      rfl
    · obtain ⟨place, low, size⟩ := stands.parts (places.relocOffset,
        infos.flatMap RelocationInfo.toBytes) (by simp [partsOf, none])
      have fewer : infos.length * 8 < 2 ^ 32 := by
        simpa [List.length_flatMap] using size
      have read := place.readTable fun entry _ => reads_relocationInfo entry
      rw [List.map_id', count] at read
      rw [toNat_ofNat32 low, toNat_ofNat32 (by omega), read]
  rw [readMacho]
  refine Option.bind_eq_some_iff.mpr ⟨_, header, ?_⟩
  refine Option.bind_eq_some_iff.mpr ⟨(), rfl, ?_⟩
  refine Option.bind_eq_some_iff.mpr ⟨_, commands, ?_⟩
  refine Option.bind_eq_some_iff.mpr ⟨_, rfl, ?_⟩
  refine Option.bind_eq_some_iff.mpr ⟨_, rfl, ?_⟩
  refine Option.bind_eq_some_iff.mpr ⟨_, rfl, ?_⟩
  refine Option.bind_eq_some_iff.mpr ⟨_, stands.mapM_readSection, ?_⟩
  refine Option.bind_eq_some_iff.mpr ⟨_, strings, ?_⟩
  refine Option.bind_eq_some_iff.mpr ⟨_, entries, ?_⟩
  refine Option.bind_eq_some_iff.mpr ⟨_, named, ?_⟩
  refine Option.bind_eq_some_iff.mpr ⟨_, rfl, ?_⟩
  refine Option.bind_eq_some_iff.mpr ⟨_, table, ?_⟩
  exact Option.bind_eq_some_iff.mpr ⟨_, resolved, rfl⟩

theorem Placed.toNat_place (stands : Placed bytes text rodata entries symtab strtab places hasConst
    localCount symbolCount externalCount) {p : Nat × List UInt8}
    (listed : p ∈ partsOf places hasConst text rodata entries symtab strtab) :
    (UInt32.ofNat p.1).toNat = p.1 ∧ (UInt64.ofNat p.2.length).toNat = p.2.length :=
  ⟨toNat_ofNat32 (stands.parts p listed).2.1, toNat_ofNat64 (stands.parts p listed).2.2⟩

/-- The regions of the sections are the extents of the parts that they contain. -/
theorem Placed.regions_sections (stands : Placed bytes text rodata entries symtab strtab places
    hasConst localCount symbolCount externalCount) :
    (machoSectionsOf places hasConst text rodata).map
      (fun found => (found.header.offset.toNat, found.header.size.toNat)) =
        (places.textOffset, text.length) ::
          if hasConst then [(places.constOffset, rodata.length)] else [] := by
  obtain ⟨start, size⟩ := stands.toNat_place (List.mem_cons_self (a := (places.textOffset, text)))
  cases hasConst with
  | false =>
    simp only [machoSectionsOf, Bool.false_eq_true, if_false, List.map_cons, List.map_nil, start,
      size]
  | true =>
    obtain ⟨start', size'⟩ := stands.toNat_place
      (List.mem_cons_of_mem _ (List.mem_cons_self (a := (places.constOffset, rodata))))
    simp only [machoSectionsOf, if_true, List.map_cons, List.map_nil, start, size, start', size']

/-- The region of the relocations is the extent of their part, if there is one. -/
theorem Placed.regions_tables (stands : Placed bytes text rodata entries symtab strtab places
    hasConst localCount symbolCount externalCount)
    (length : entries.length = places.relocCount * 8) :
    ((machoSectionsOf places hasConst text rodata).filter (·.header.nreloc ≠ 0)).map
      (fun found => (found.header.reloff.toNat, found.header.nreloc.toNat * 8)) =
        if places.relocCount = 0 then [] else [(places.relocOffset, entries.length)] := by
  have const : ((if hasConst then [(⟨⟨utf8 "__const", utf8 "__TEXT", UInt64.ofNat places.constAddr,
      UInt64.ofNat rodata.length, UInt32.ofNat places.constOffset, 4, 0, 0, 0⟩, rodata⟩ :
        MachoSection)] else []).filter (·.header.nreloc ≠ 0)) = [] := by
    cases hasConst <;> rfl
  by_cases none : places.relocCount = 0
  · rw [if_pos none, machoSectionsOf, none, List.filter_cons_of_neg (by simp), const]
    rfl
  · obtain ⟨place, low, size⟩ := stands.parts (places.relocOffset, entries)
      (by simp [partsOf, none])
    have fewer : places.relocCount < 2 ^ 32 := by
      change entries.length < 2 ^ 32 at size
      omega
    have some : UInt32.ofNat places.relocCount ≠ 0 := by
      intro zero
      have same := congrArg UInt32.toNat zero
      rw [toNat_ofNat32 fewer] at same
      exact none same
    rw [if_neg none, machoSectionsOf, List.filter_cons_of_pos (by simpa using some), const,
      List.map_singleton, toNat_ofNat32 low, toNat_ofNat32 fewer, length]

/-- The regions of what is read are the extents of the parts, behind the commands. -/
theorem Placed.regions_eq (stands : Placed bytes text rodata entries symtab strtab places hasConst
    localCount symbolCount externalCount) (length : entries.length = places.relocCount * 8)
    (symtabLen : symtab.length = symbolCount * 16) (names : List MachoSymbol) (dysymtab : Dysymtab)
    (relocations : List MachoRelocation) :
    (⟨⟨0xfeedfacf, 1, 4, UInt32.ofNat places.sizeofcmds⟩,
      machoSectionsOf places hasConst text rodata, ⟨UInt32.ofNat places.symoff,
        UInt32.ofNat symbolCount, UInt32.ofNat places.stroff, UInt32.ofNat strtab.length⟩, names,
      dysymtab, relocations⟩ : MachoFile).regions = (0, places.textOffset) ::
        (partsOf places hasConst text rodata entries symtab strtab).map
          fun p => (p.1, p.2.length) := by
  obtain ⟨header, low⟩ := stands.header
  obtain ⟨-, lowSym, sizeSym⟩ := stands.parts (places.symoff, symtab) (by simp [partsOf])
  obtain ⟨-, lowStr, sizeStr⟩ := stands.parts (places.stroff, strtab) (by simp [partsOf])
  have fewer : symbolCount < 2 ^ 32 := by
    change symtab.length < 2 ^ 32 at sizeSym
    omega
  rw [MachoFile.regions, stands.regions_sections, stands.regions_tables length]
  simp only [toNat_ofNat32 (by omega : places.sizeofcmds < 2 ^ 32), header, toNat_ofNat32 lowSym,
    toNat_ofNat32 lowStr, toNat_ofNat32 sizeStr, toNat_ofNat32 fewer, ← symtabLen, partsOf]
  cases hasConst <;> by_cases none : places.relocCount = 0 <;> simp [none]

/-- No region of parts at places reaches into the next, or out of the file. -/
theorem Placed.regions_apart (stands : Placed bytes text rodata entries symtab strtab places
    hasConst localCount symbolCount externalCount) :
    ((0, places.textOffset) :: (partsOf places hasConst text rodata entries symtab strtab).map
        fun p => (p.1, p.2.length)).Pairwise (fun region other => region.1 + region.2 ≤ other.1) ∧
      ∀ region ∈ (0, places.textOffset) ::
        (partsOf places hasConst text rodata entries symtab strtab).map fun p => (p.1, p.2.length),
        region.1 + region.2 ≤ bytes.length := by
  have behind := stands.inTurn.start_le
  constructor
  · refine List.pairwise_cons.mpr ⟨?_, List.pairwise_map.mpr stands.inTurn.pairwise⟩
    intro region listed
    obtain ⟨p, given, rfl⟩ := List.mem_map.mp listed
    exact (Nat.zero_add _).symm ▸ behind p given
  · refine List.forall_mem_cons.mpr ⟨?_, ?_⟩
    · have first := (stands.parts _ List.mem_cons_self).1.le
      change places.textOffset + text.length ≤ _ at first
      omega
    · intro region listed
      obtain ⟨p, given, rfl⟩ := List.mem_map.mp listed
      exact (stands.parts p given).1.le

theorem contentsOf_text {file : MachoFile}
    (sections : file.sections = machoSectionsOf places hasConst text rodata) :
    file.contentsOf "__text" = text := by
  have known : utf8 "__const" ≠ utf8 "__text" := by decide
  rw [MachoFile.contentsOf, sections, machoSectionsOf]
  cases hasConst <;> simp [known]

theorem contentsOf_const {file : MachoFile}
    (sections : file.sections = machoSectionsOf places hasConst text rodata) :
    file.contentsOf "__const" = if hasConst then rodata else [] := by
  have known : utf8 "__text" ≠ utf8 "__const" := by decide
  rw [MachoFile.contentsOf, sections, machoSectionsOf]
  cases hasConst <;> simp [known]

end Files

/-- An object file is read as what was to be written, as far as the names have no zeros and the
numbers fit. -/
theorem readMacho_writeMachoObject {functionSymbol : String} {function : CompiledFunction}
    (fits : Fits functionSymbol function) (placed : function.WellPlaced 8) :
    ∃ image file, writeMachoObject functionSymbol function.text function.rodata function.staticData
        function.relocations = some image ∧
      readMacho image.bytes = some file ∧ file.Describes image.bytes functionSymbol function := by
  have distinct := placed.distinct
  have passes : (symbolFormat function.text).symbolPasses functionSymbol function.staticData
      function.relocations = _ := SymbolFormat.symbolPasses_eq distinct
  obtain ⟨parts, infos, groups, written, flat, count, resolved, related⟩ :=
    exists_mapM_groups (exists_entriesOf fits placed)
  -- name what the writer computes, as the statement unfolds to it
  set pass := passOf functionSymbol function
  set statics := (symbolFormat function.text).staticPass functionSymbol function.staticData
  set places := placesOf (!function.staticData.isEmpty) function.text.length
    function.rodata.length (machoRelocationCount function.relocations) pass.symbols.length
    with computed
  obtain ⟨few, strings, last⟩ := fits.tables _ _ passes
  have entriesLen : (infos.flatMap RelocationInfo.toBytes).length =
      machoRelocationCount function.relocations * 8 := by
    rw [machoRelocationCount, ← count]
    simp [List.length_flatMap]
  have symtabLen : (pass.symbols.flatMap MachOSymbolEntry.toBytes).length =
      pass.symbols.length * 16 := by
    simp [List.length_flatMap]
  have stands := placed_putAll function.text function.rodata statics.symbols.length
    (externalSymbols functionSymbol function.relocations).length entriesLen symtabLen strings last
  set bytes := putAll (commandsOf places (!function.staticData.isEmpty) function.text.length
      function.rodata.length pass.strtab.bytes.length statics.symbols.length pass.symbols.length
      (externalSymbols functionSymbol function.relocations).length)
    (partsOf places (!function.staticData.isEmpty) function.text function.rodata
      (infos.flatMap RelocationInfo.toBytes) (pass.symbols.flatMap MachOSymbolEntry.toBytes)
      pass.strtab.bytes)
  -- the writer succeeds, and its bytes are the parts at their places
  have image : writeMachoObject functionSymbol function.text function.rodata function.staticData
      function.relocations = some ⟨bytes, if !function.staticData.isEmpty then
        some ⟨"__TEXT,__const", places.constOffset⟩ else none⟩ := by
    rw [writeMachoObject]
    refine Option.bind_eq_some_iff.mpr ⟨_, passes, ?_⟩
    refine Option.bind_eq_some_iff.mpr ⟨_, written, ?_⟩
    rw [flat]
    rfl
  have locals : statics.symbols.length = function.staticData.length :=
    SymbolFormat.length_staticPass.trans (Nat.zero_add _)
  have total : function.staticData.length + 1 +
      (externalSymbols functionSymbol function.relocations).length = pass.symbols.length := by
    rw [← length_expectedSymbols]
    simp [expectedSymbols]
    omega
  -- the symbol table is read as the symbols of the function, with sections and offsets in them
  have symbols : (pass.symbols.map MachOSymbolEntry.nlist).mapM (readSymbol pass.strtab.bytes
      (headersOf places (!function.staticData.isEmpty) function.text.length
        function.rodata.length)) = some (expectedSymbols functionSymbol function) := by
    refine mapM_readSymbol fits distinct rfl ?_ ?_
    · intro some
      rw [show (!function.staticData.isEmpty) = true by simpa using some]
      rfl
    · intro entry held
      have some : (!function.staticData.isEmpty) = true := by simpa using List.ne_nil_of_mem held
      have listed : (places.constOffset, function.rodata) ∈
          partsOf places (!function.staticData.isEmpty) function.text function.rodata
            (infos.flatMap RelocationInfo.toBytes)
            (pass.symbols.flatMap MachOSymbolEntry.toBytes) pass.strtab.bytes := by
        rw [partsOf, some]
        exact List.mem_cons_of_mem _ List.mem_cons_self
      obtain ⟨-, start, size⟩ := stands.parts _ listed
      have inside := placed.entries entry held
      have addr : places.constOffset = places.textOffset + alignTo function.text.length 16 := rfl
      change function.rodata.length < 2 ^ 32 at size
      change places.constOffset < 2 ^ 32 at start
      omega
  have read := readMacho_of_placed stands count (by omega) few symbols resolved
  have regions := stands.regions_eq entriesLen symtabLen (expectedSymbols functionSymbol function)
    ⟨0, statics.symbols.length, statics.symbols.length, 1, statics.symbols.length + 1,
      (externalSymbols functionSymbol function.relocations).length⟩ groups.flatten
  obtain ⟨apart, within⟩ := stands.regions_apart
  -- what remains: the regions are apart, and the contents are those of the function
  refine ⟨_, _, image, read, ?_⟩
  constructor
  · rw [regions]
    exact apart
  · rw [regions]
    exact within
  · exact contentsOf_text rfl
  · rw [contentsOf_const rfl]
    cases empty : function.staticData with
    | nil => exact (fits.rodata empty).symm
    | cons entry rest => rfl
  · rfl
  · rw [locals]
  · exact ⟨groups, rfl, related⟩

/-! ### What is not read back -/

/-- What is read of the parts that depend on a function. -/
theorem readMacho_eq_some {bytes : List UInt8} {file : MachoFile}
    (read : readMacho bytes = some file) :
    (∀ symbol ∈ file.symbols, 0 ∉ symbol.name) ∧
      ∀ relocation ∈ file.relocations, relocation.address < 2 ^ 31 := by
  rw [readMacho] at read
  obtain ⟨header, -, read⟩ := Option.bind_eq_some_iff.mp read
  obtain ⟨-, -, read⟩ := Option.bind_eq_some_iff.mp read
  obtain ⟨commands, -, read⟩ := Option.bind_eq_some_iff.mp read
  obtain ⟨headers, -, read⟩ := Option.bind_eq_some_iff.mp read
  obtain ⟨symtab, -, read⟩ := Option.bind_eq_some_iff.mp read
  obtain ⟨dysymtab, -, read⟩ := Option.bind_eq_some_iff.mp read
  obtain ⟨sections, -, read⟩ := Option.bind_eq_some_iff.mp read
  obtain ⟨strings, -, read⟩ := Option.bind_eq_some_iff.mp read
  obtain ⟨entries, -, read⟩ := Option.bind_eq_some_iff.mp read
  obtain ⟨symbols, named, read⟩ := Option.bind_eq_some_iff.mp read
  obtain ⟨first, -, read⟩ := Option.bind_eq_some_iff.mp read
  obtain ⟨infos, -, read⟩ := Option.bind_eq_some_iff.mp read
  obtain ⟨relocations, resolved, same⟩ := Option.bind_eq_some_iff.mp read
  cases same
  constructor
  · intro symbol listed
    obtain ⟨entry, -, made⟩ := exists_of_mem_mapM named symbol listed
    obtain ⟨name, found, made⟩ := Option.bind_eq_some_iff.mp made
    obtain ⟨base, -, equal⟩ := Option.bind_eq_some_iff.mp made
    cases equal
    exact zero_notMem_of_cstringAt found
  · intro relocation listed
    obtain ⟨info, -, made⟩ := exists_of_mem_mapM resolved relocation listed
    obtain ⟨-, -, made⟩ := Option.bind_eq_some_iff.mp made
    obtain ⟨symbol, -, equal⟩ := Option.bind_eq_some_iff.mp made
    cases equal
    exact BitVec.toInt_lt

/-- A name with a zero is not read back, whatever else there is. -/
theorem not_describes_of_zero {bytes : List UInt8} {file : MachoFile} {functionSymbol : String}
    {function : CompiledFunction} (zero : 0 ∈ utf8 functionSymbol)
    (read : readMacho bytes = some file) : ¬file.Describes bytes functionSymbol function := by
  intro describes
  refine (readMacho_eq_some read).1 (functionSymbolOf functionSymbol) ?_ zero
  rw [describes.symbols]
  exact List.mem_append_right _ List.mem_cons_self

/-- A relocation beyond the addresses with a sign is not read back, whatever else there is. -/
theorem not_describes_of_far {bytes : List UInt8} {file : MachoFile}
    {functionSymbol target : String} {function : CompiledFunction} {offset : UInt64}
    (far : 2 ^ 31 ≤ offset.toNat)
    (given : .call ⟨offset, target⟩ ∈ function.relocations) (read : readMacho bytes = some file) :
    ¬file.Describes bytes functionSymbol function := by
  intro describes
  obtain ⟨groups, all, related⟩ := describes.relocations
  obtain ⟨i, found⟩ := List.mem_iff_getElem?.mp given
  obtain ⟨group, held, same⟩ : ∃ group ∈ groups, Relocates functionSymbol function
      (.call ⟨offset, target⟩) group := by
    obtain ⟨bound, equal⟩ := List.getElem?_eq_some_iff.mp found
    have bound' : i < groups.length := related.length_eq ▸ bound
    have one := related.get bound bound'
    rw [List.get_eq_getElem, equal] at one
    exact ⟨_, List.getElem_mem bound', one⟩
  have listed : ⟨offset.toNat, targetSymbol functionSymbol target, true, 2,
      arm64RelocBranch26.toNat⟩ ∈ file.relocations := by
    rw [all, List.mem_flatten]
    exact ⟨group, held, same ▸ List.mem_cons_self⟩
  have near := (readMacho_eq_some read).2 _ listed
  change (offset.toNat : Int) < 2 ^ 31 at near
  omega

/-- Without static data the read-only data is left out. -/
theorem writeMachoObject_without_staticData (functionSymbol : String)
    (text rodata rodata' : List UInt8) (relocations : List TextRelocation) :
    writeMachoObject functionSymbol text rodata [] relocations =
      writeMachoObject functionSymbol text rodata' [] relocations := rfl

/-- So read-only data is not read back if there is no static data, whatever it is. -/
theorem not_describes_of_rodata {functionSymbol : String} {text rodata : List UInt8}
    {relocations : List TextRelocation} (nonempty : rodata ≠ [])
    (fits : Fits functionSymbol ⟨text, [], relocations, []⟩)
    (placed : (⟨text, [], relocations, []⟩ : CompiledFunction).WellPlaced 8)
    {image : NativeObjectImage} {file : MachoFile}
    (written : writeMachoObject functionSymbol text rodata [] relocations = some image)
    (read : readMacho image.bytes = some file) :
    ¬file.Describes image.bytes functionSymbol ⟨text, rodata, relocations, []⟩ := by
  intro describes
  obtain ⟨image', file', written', read', describes'⟩ := readMacho_writeMachoObject fits placed
  have same := writeMachoObject_without_staticData functionSymbol text rodata [] relocations
  cases (same.symm.trans written).symm.trans written'
  cases read.symm.trans read'
  exact nonempty (describes.rodata.symm.trans describes'.rodata)

end Macho

end CodeDb

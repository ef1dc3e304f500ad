import CodeDb.Backend.ElfReadBack
import CodeDb.Backend.MachOReadBack
import Mathlib.Data.UInt

/-!
# Object files are well formed

The bytes of an object file, read by the layout of its format, are the sections, symbols and
relocations that were to be written, as far as the formats can say so: a name ends at a zero, a
number has a field of a fixed width, and a file for macOS has no section for read-only data if
there is no static data.

## Main results

* `objects_readBack` — object files are read as what was to be written
* `objects_not_readBack` — the conditions are needed
-/

namespace CodeDb

open ByteImage

/-- An object file for Linux is read as what was to be written. -/
def ElfReadBack (functionSymbol : String) (function : CompiledFunction) : Prop :=
  ∃ image file, Elf.writeElfObject functionSymbol function.text function.rodata function.staticData
      function.relocations = some image ∧
    Elf.readElf image.bytes = some file ∧ file.Describes image.bytes functionSymbol function

/-- An object file for macOS is read as what was to be written. -/
def MachoReadBack (functionSymbol : String) (function : CompiledFunction) : Prop :=
  ∃ image file, Macho.writeMachoObject functionSymbol function.text function.rodata
      function.staticData function.relocations = some image ∧
    Macho.readMacho image.bytes = some file ∧ file.Describes image.bytes functionSymbol function

/-- Object files are read as what was to be written, as far as the names have no zeros, the numbers
fit into their fields and a file for macOS has read-only data only with static data. -/
theorem objects_readBack (functionSymbol : String) (function : CompiledFunction) :
    (function.WellPlaced 4 → Elf.Fits functionSymbol function →
      ElfReadBack functionSymbol function) ∧
    (function.WellPlaced 8 → Macho.Fits functionSymbol function →
      MachoReadBack functionSymbol function) := by
  constructor
  · intro placed fits
    exact Elf.readElf_writeElfObject fits placed
  · intro placed fits
    exact Macho.readMacho_writeMachoObject fits placed

/-- A function that calls another one and itself, with two blobs of static data. -/
def sampleFunction : CompiledFunction where
  text := [0xe8, 0, 0, 0, 0, 0x48, 0x8d, 0x05, 0, 0, 0, 0, 0xe8, 0, 0, 0, 0, 0xc3]
  rodata := [7, 9, 11]
  relocations := [.call ⟨1, "codedb_f"⟩, .staticDataAddress ⟨8, "sha256:1"⟩, .call ⟨13, "codedb_g"⟩]
  staticData := [⟨"sha256:1", 0, 2⟩, ⟨"sha256:2", 2, 1⟩]

theorem wellPlaced_sampleFunction (dataWidth : Nat) (narrow : dataWidth ≤ 8) :
    sampleFunction.WellPlaced dataWidth := by
  refine ⟨by decide, by decide, ?_, ?_⟩
  · have inside : ∀ r ∈ sampleFunction.relocations,
        r.offset.toNat + 8 ≤ sampleFunction.text.length ∨
          r.offset.toNat + 4 ≤ sampleFunction.text.length ∧ r.asCall ≠ none := by decide
    intro r listed
    rcases r with call | address
    · rcases inside _ listed with far | near
      · exact le_trans (Nat.add_le_add_left (by decide : 4 ≤ 8) _) far
      · exact near.1
    · rcases inside _ listed with far | near
      · exact le_trans (Nat.add_le_add_left narrow _) far
      · exact absurd rfl near.2
  · intro offset hash listed
    simp only [sampleFunction, List.mem_cons, reduceCtorEq, TextRelocation.staticDataAddress.injEq,
      StaticDataAddressRelocation.mk.injEq, List.not_mem_nil, or_false, false_or] at listed
    exact ⟨⟨"sha256:1", 0, 2⟩, by decide, listed.2.symm⟩

theorem plain_sampleFunction (offset : UInt64) (name : String)
    (listed : .call ⟨offset, name⟩ ∈ sampleFunction.relocations) : 0 ∉ utf8 name := by
  have plain : ∀ r ∈ sampleFunction.relocations, ∀ call ∈ r.asCall,
      0 ∉ utf8 call.targetAbiSymbol := by decide
  exact plain _ listed ⟨offset, name⟩ rfl

theorem elfFits_sampleFunction : Elf.Fits "codedb_g" sampleFunction := by
  refine ⟨by decide, plain_sampleFunction, ?_, ?_⟩
  · have small : ((Elf.symbolFormat sampleFunction.text).symbolPasses "codedb_g"
        sampleFunction.staticData sampleFunction.relocations).all (fun passes =>
          passes.2.strtab.bytes.length ≤ 2 ^ 32 ∧ passes.2.symbols.length ≤ 2 ^ 32) = true := by
      decide +kernel
    intro statics globals passes
    rw [passes] at small
    exact of_decide_eq_true small
  · have small : (Elf.writeElfObject "codedb_g" sampleFunction.text sampleFunction.rodata
        sampleFunction.staticData sampleFunction.relocations).all
          (·.bytes.length < 2 ^ 64) = true := by
      decide +kernel
    intro image written
    rw [written] at small
    exact of_decide_eq_true small

theorem machoFits_sampleFunction : Macho.Fits "codedb_g" sampleFunction := by
  refine ⟨by decide, plain_sampleFunction, ?_, by decide, fun none => absurd none (by decide)⟩
  have small : ((Macho.symbolFormat sampleFunction.text).symbolPasses "codedb_g"
      sampleFunction.staticData sampleFunction.relocations).all (fun passes =>
        passes.2.symbols.length ≤ 2 ^ 24 ∧ passes.2.strtab.bytes.length < 2 ^ 32 ∧
          (Macho.placesOf (!sampleFunction.staticData.isEmpty) sampleFunction.text.length
            sampleFunction.rodata.length (Macho.machoRelocationCount sampleFunction.relocations)
            passes.2.symbols.length).stroff < 2 ^ 32) = true := by
    decide +kernel
  intro statics globals passes
  rw [passes] at small
  exact of_decide_eq_true small

theorem objects_readBack_sample : ElfReadBack "codedb_g" sampleFunction ∧
    MachoReadBack "codedb_g" sampleFunction :=
  ⟨(objects_readBack "codedb_g" sampleFunction).1 (wellPlaced_sampleFunction 4 (by decide))
    elfFits_sampleFunction,
    (objects_readBack "codedb_g" sampleFunction).2 (wellPlaced_sampleFunction 8 (by decide))
    machoFits_sampleFunction⟩

/-- A function of some text alone. -/
def textFunction (text : List UInt8) : CompiledFunction := ⟨text, [], [], []⟩

/-- A function that jumps to another one from behind the addresses with a sign. -/
def farFunction : CompiledFunction :=
  ⟨List.replicate (2 ^ 31 + 4) 0, [], [.call ⟨2 ^ 31, "codedb_f"⟩], []⟩

theorem wellPlaced_textFunction (text : List UInt8) (dataWidth : Nat) :
    (textFunction text).WellPlaced dataWidth := by
  refine ⟨?_, List.nodup_nil, ?_, ?_⟩ <;> intros <;> simp_all [textFunction]

theorem elfNotReadBack_of_zero {functionSymbol : String} (zero : 0 ∈ utf8 functionSymbol)
    (function : CompiledFunction) : ¬ElfReadBack functionSymbol function := by
  rintro ⟨image, file, -, read, describes⟩
  exact Elf.not_describes_of_zero zero read describes

theorem machoNotReadBack_of_zero {functionSymbol : String} (zero : 0 ∈ utf8 functionSymbol)
    (function : CompiledFunction) : ¬MachoReadBack functionSymbol function := by
  rintro ⟨image, file, -, read, describes⟩
  exact Macho.not_describes_of_zero zero read describes

theorem machoFits_textFunction : Macho.Fits "codedb_g" (textFunction []) := by
  refine ⟨by decide, ?_, ?_, by decide, fun _ => rfl⟩
  · intro offset name listed
    exact absurd listed List.not_mem_nil
  · have small : ((Macho.symbolFormat []).symbolPasses "codedb_g" [] []).all (fun passes =>
        passes.2.symbols.length ≤ 2 ^ 24 ∧ passes.2.strtab.bytes.length < 2 ^ 32 ∧
          (Macho.placesOf false 0 0 0 passes.2.symbols.length).stroff < 2 ^ 32) = true := by
      decide +kernel
    intro statics globals passes
    rw [textFunction] at passes
    rw [passes] at small
    exact of_decide_eq_true small

theorem machoNotReadBack_rodata : ¬MachoReadBack "codedb_g" ⟨[], [1], [], []⟩ := by
  rintro ⟨image, file, written, read, describes⟩
  exact Macho.not_describes_of_rodata (by decide) machoFits_textFunction
    (wellPlaced_textFunction [] 8) written read describes

theorem machoNotReadBack_far : ¬MachoReadBack "codedb_g" farFunction := by
  rintro ⟨image, file, -, read, describes⟩
  have far : 2 ^ 31 ≤ (2 ^ 31 : UInt64).toNat := by decide
  exact Macho.not_describes_of_far far List.mem_cons_self read describes

theorem wellPlaced_farFunction : farFunction.WellPlaced 8 := by
  refine ⟨?_, List.nodup_nil, ?_, ?_⟩
  · intro entry listed
    exact absurd listed List.not_mem_nil
  · intro r listed
    rw [List.mem_singleton.mp listed, farFunction, List.length_replicate]
    decide
  · intro offset hash listed
    cases List.mem_singleton.mp listed

/-- The conditions are needed: a name with a zero is not read back, read-only data without static
data is not in a file for macOS, and the addresses of relocations in it have a sign. -/
theorem objects_not_readBack :
    ((textFunction []).WellPlaced 4 ∧ ¬ElfReadBack "a\x00b" (textFunction [])) ∧
    ((textFunction []).WellPlaced 8 ∧ ¬MachoReadBack "a\x00b" (textFunction [])) ∧
    ((⟨[], [1], [], []⟩ : CompiledFunction).WellPlaced 8 ∧
      ¬MachoReadBack "codedb_g" ⟨[], [1], [], []⟩) ∧
    (farFunction.WellPlaced 8 ∧ ¬MachoReadBack "codedb_g" farFunction) := by
  refine ⟨⟨wellPlaced_textFunction [] 4, elfNotReadBack_of_zero (by decide) _⟩,
    ⟨wellPlaced_textFunction [] 8, machoNotReadBack_of_zero (by decide) _⟩,
    ⟨?_, machoNotReadBack_rodata⟩, wellPlaced_farFunction, machoNotReadBack_far⟩
  refine ⟨?_, List.nodup_nil, ?_, ?_⟩ <;> intros <;> simp_all

end CodeDb

import CodeDb.Lib.Directory
import CodeDb.Operations.Apply
import CodeDb.Store.ReadBack

/-!
# Well-formed roots

A root is well formed when its lists agree: identities are not repeated, names
stand for one symbol or type each, whatever is named, exported, tested or given
parameter names is there, and parameter names fit signatures.

An operation only has to keep part of that, a draft. The rest is checked whenever a
root is stored: that symbols are distinct and exports refer to symbols; and, where
the root is type-checked, that signatures can be read and tests call symbols.

## Main definitions

* `WellFormed` — what is promised of a root
* `Draft` — what the operations keep themselves
* `Invariant` — a draft, with what the checks establish

## Main results

* `Draft.checked` — a draft that is stored and checked meets the invariant
* `Invariant.indexed` — so does one that is only stored, if symbols and tests stay
-/

namespace CodeDb

open SortOn

variable {P : Primitives} (El : Elaborator P)

/-! ### Definitions -/

/-- A binding as an entry of a directory. -/
def NameBinding.entry (b : NameBinding) : Directory.Entry String String Hash :=
  ⟨b.module, b.displayName, b.symbol, b.isPreferred⟩

/-- A binding as an entry of a directory. -/
def TypeNameBinding.entry (b : TypeNameBinding) : Directory.Entry String String Hash :=
  ⟨b.module, b.displayName, b.typeSymbol, b.isPreferred⟩

/-- The symbols of a root, in the order of their entries. -/
def symbolsOf (root : ProgramRootPayload) : List Hash := root.symbols.map (·.symbol)

/-- The types of a root, in the order of their entries. -/
def typeSymbolsOf (root : ProgramRootPayload) : List Hash := root.types.map (·.typeSymbol)

/-- The lists of a root agree with each other and with the objects they refer to. -/
structure WellFormed (objects : Objects) (root : ProgramRootPayload) : Prop where
  symbols : (symbolsOf root).Nodup
  types : (typeSymbolsOf root).Nodup
  names : Directory.WellFormed (root.names.map NameBinding.entry)
  typeNames : Directory.WellFormed (root.typeNames.map TypeNameBinding.entry)
  namesListed : ∀ b ∈ root.names, b.symbol ∈ symbolsOf root
  typeNamesListed : ∀ b ∈ root.typeNames, b.typeSymbol ∈ typeSymbolsOf root
  paramNamesListed : ∀ p ∈ root.paramNames, p.symbol ∈ symbolsOf root
  exportsListed : ∀ b ∈ root.exports, b.symbol ∈ symbolsOf root
  testsListed : ∀ b ∈ root.tests, ∃ case, loadTestCase El objects b.test = .ok case ∧
    case.entrySymbol ∈ symbolsOf root
  arity : ∀ p ∈ root.paramNames, ∀ entry ∈ root.symbols, entry.symbol = p.symbol →
    ∃ types returnType, signatureParts P objects entry.signature = .ok (types, returnType) ∧
      p.names.length = types.length

/-- A signature is stored, and has that many parameters where it can be read. -/
structure HasArity (P : Primitives) (objects : Objects) (signature : Hash) (n : Nat) : Prop where
  stored : (objects.lookup signature).isSome
  arity : ∀ types returnType, signatureParts P objects signature = .ok (types, returnType) →
    types.length = n

/-- What the operations keep themselves. Parameter names are changed by the first list of a
symbol alone, and a symbol that had no list would get one with the new name as all there is, so
each symbol has to have one list. -/
structure Draft (P : Primitives) (objects : Objects) (root : ProgramRootPayload) : Prop where
  types : (typeSymbolsOf root).Nodup
  names : Directory.WellFormed (root.names.map NameBinding.entry)
  typeNames : Directory.WellFormed (root.typeNames.map TypeNameBinding.entry)
  namesListed : ∀ b ∈ root.names, b.symbol ∈ symbolsOf root
  typeNamesListed : ∀ b ∈ root.typeNames, b.typeSymbol ∈ typeSymbolsOf root
  aligned : (root.paramNames.map (·.symbol)).Perm (symbolsOf root)
  arity : ∀ p ∈ root.paramNames, ∀ entry ∈ root.symbols, entry.symbol = p.symbol →
    HasArity P objects entry.signature p.names.length

/-- A draft, with what the checks of a root establish. -/
structure Invariant (objects : Objects) (root : ProgramRootPayload) : Prop where
  draft : Draft P objects root
  symbols : (symbolsOf root).Nodup
  exportsListed : ∀ b ∈ root.exports, b.symbol ∈ symbolsOf root
  testsListed : ∀ b ∈ root.tests, ∃ case, loadTestCase El objects b.test = .ok case ∧
    case.entrySymbol ∈ symbolsOf root
  signaturesRead : ∀ entry ∈ root.symbols, ∃ types returnType,
    signatureParts P objects entry.signature = .ok (types, returnType)

variable {El} in
/-- The invariant is more than what is promised. -/
theorem Invariant.wellFormed {objects : Objects} {root : ProgramRootPayload}
    (inv : Invariant El objects root) : WellFormed El objects root where
  symbols := inv.symbols
  types := inv.draft.types
  names := inv.draft.names
  typeNames := inv.draft.typeNames
  namesListed := inv.draft.namesListed
  typeNamesListed := inv.draft.typeNamesListed
  paramNamesListed p hp := inv.draft.aligned.mem_iff.mp (List.mem_map_of_mem hp)
  exportsListed := inv.exportsListed
  testsListed := inv.testsListed
  arity p hp entry he same := by
    obtain ⟨types, returnType, read⟩ := inv.signaturesRead entry he
    exact ⟨types, returnType, read, ((inv.draft.arity p hp entry he same).arity _ _ read).symm⟩

/-! ### Growing stores -/

section Grows

variable {before after : Objects} (grows : Grows P before after)
include grows

theorem Grows.signatureParts {signature : Hash} {parts : List Hash × Hash}
    (read : CodeDb.signatureParts P before signature = .ok parts) :
    CodeDb.signatureParts P after signature = .ok parts := by
  obtain ⟨payload, payloadRead, rest⟩ := Except.bind_eq_ok.mp read
  exact Except.bind_eq_ok.mpr ⟨payload, grows.getPayload payloadRead, rest⟩

theorem Grows.loadTestCase {test : Hash} {case : TestCasePayload El}
    (read : CodeDb.loadTestCase El before test = .ok case) :
    CodeDb.loadTestCase El after test = .ok case := by
  obtain ⟨kind, kindRead, rest⟩ := Except.bind_eq_ok.mp read
  refine Except.bind_eq_ok.mpr ⟨kind, grows.getKind kindRead, ?_⟩
  split_ifs at rest ⊢
  obtain ⟨payload, payloadRead, rest⟩ := Except.bind_eq_ok.mp rest
  exact Except.bind_eq_ok.mpr ⟨payload, grows.getPayload payloadRead, rest⟩

/-- A stored object has the payload it had. -/
theorem Grows.getPayload_eq {hash : Hash} (stored : (before.lookup hash).isSome) :
    CodeDb.getPayload P after hash = CodeDb.getPayload P before hash := by
  obtain ⟨object, found⟩ := Option.isSome_iff_exists.mp stored
  simp [CodeDb.getPayload, found, grows.kept _ _ found]

theorem HasArity.grow {signature : Hash} {n : Nat} (h : HasArity P before signature n) :
    HasArity P after signature n where
  stored := by
    obtain ⟨object, found⟩ := Option.isSome_iff_exists.mp h.stored
    simp [grows.kept _ _ found]
  arity types returnType read := by
    refine h.arity types returnType ?_
    rwa [CodeDb.signatureParts, grows.getPayload_eq h.stored] at read

theorem Draft.grow {root : ProgramRootPayload} (draft : Draft P before root) :
    Draft P after root :=
  { draft with
    arity := fun p hp entry he same => (draft.arity p hp entry he same).grow grows }

variable {El} in
theorem Invariant.grow {root : ProgramRootPayload} (inv : Invariant El before root) :
    Invariant El after root where
  draft := inv.draft.grow grows
  symbols := inv.symbols
  exportsListed := inv.exportsListed
  testsListed b hb := by
    obtain ⟨case, read, listed⟩ := inv.testsListed b hb
    exact ⟨case, grows.loadTestCase El read, listed⟩
  signaturesRead entry he := by
    obtain ⟨types, returnType, read⟩ := inv.signaturesRead entry he
    exact ⟨types, returnType, grows.signatureParts read⟩

end Grows

/-! ### The canonical order -/

section Normalize

variable {objects : Objects} {root : ProgramRootPayload} {metadata : Metadata}

/-- A root in its canonical order, with any metadata. -/
abbrev canonical (root : ProgramRootPayload) (metadata : Metadata) : ProgramRootPayload :=
  { normalizeRoot root with metadata := metadata }

theorem symbolsOf_canonical : (symbolsOf (canonical root metadata)).Perm (symbolsOf root) :=
  (sortOn_perm _ _).map _

theorem typeSymbolsOf_canonical :
    (typeSymbolsOf (canonical root metadata)).Perm (typeSymbolsOf root) :=
  (sortOn_perm _ _).map _

theorem Draft.normalize (draft : Draft P objects root) :
    Draft P objects (canonical root metadata) where
  types := ((sortOn_perm _ root.types).map _).nodup_iff.mpr draft.types
  names := draft.names.perm ((sortOn_perm _ _).map _).symm
  typeNames := draft.typeNames.perm ((sortOn_perm _ _).map _).symm
  namesListed b hb :=
    symbolsOf_canonical.mem_iff.mpr (draft.namesListed b ((mem_sortOn _).mp hb))
  typeNamesListed b hb :=
    typeSymbolsOf_canonical.mem_iff.mpr (draft.typeNamesListed b ((mem_sortOn _).mp hb))
  aligned := ((sortOn_perm _ _).map _).trans (draft.aligned.trans symbolsOf_canonical.symm)
  arity p hp entry he := draft.arity p ((mem_sortOn _).mp hp) entry ((mem_sortOn _).mp he)

end Normalize

/-! ### What the checks establish -/

section Checks

/-- The symbols of a root have distinct names in object files, so they are distinct. -/
private theorem internalSymbols_ok {entries : List RootSymbolPayload}
    {seen internal : List (String × Hash)} (run : internalSymbols entries seen = .ok internal) :
    (entries.map (·.symbol)).Nodup ∧ ∀ entry ∈ entries, ∀ name,
      internalAbiSymbol entry.symbol = .ok name → seen.lookup name = none := by
  induction entries generalizing seen with
  | nil => simp
  | cons entry entries ih =>
    obtain ⟨name, named, rest⟩ := Except.bind_eq_ok.mp run
    cases found : seen.lookup name with
    | some owner => simp [found] at rest
    | none =>
      rw [found] at rest
      obtain ⟨distinct, fresh⟩ := ih rest
      refine ⟨?_, ?_⟩
      · rw [List.map_cons, List.nodup_cons]
        refine ⟨fun mem => ?_, distinct⟩
        obtain ⟨other, mem, same⟩ := List.mem_map.mp mem
        have taken := fresh other mem name (by rw [same, named])
        simp at taken
      · intro other mem name' named'
        rcases List.mem_cons.mp mem with rfl | mem
        · obtain rfl := Except.ok.inj (named.symm.trans named')
          exact found
        · have absent := fresh other mem name' named'
          rw [List.lookup_cons] at absent
          split at absent
          · simp at absent
          · exact absent

private theorem validateExports_ok {root : ProgramRootPayload} {internal : List (String × Hash)}
    {exports : List ExportBinding} {seen : List String}
    (run : validateExports root internal exports seen = .ok ()) :
    ∀ b ∈ exports, b.symbol ∈ symbolsOf root := by
  induction exports generalizing seen with
  | nil => simp
  | cons binding exports ih =>
    unfold validateExports at run
    by_cases listed : root.symbols.any (·.symbol == binding.symbol)
    · rw [if_neg (by simpa using listed)] at run
      obtain ⟨_, -, run⟩ := Except.bind_eq_ok.mp run
      have rest : validateExports root internal exports (binding.exportedName :: seen) =
          .ok () := by
        split_ifs at run
        split at run
        · split_ifs at run
          exact run
        · exact run
      intro b hb
      rcases List.mem_cons.mp hb with rfl | hb
      · obtain ⟨entry, mem, same⟩ := List.any_eq_true.mp listed
        exact List.mem_map.mpr ⟨entry, mem, beq_iff_eq.mp same⟩
      · exact ih rest b hb
    · rw [if_pos (by simpa using listed)] at run
      cases run

/-- What is stored has distinct symbols, and exports some of them. -/
theorem validateExportMap_ok {root : ProgramRootPayload}
    (run : validateExportMap (normalizeRoot root) = .ok ()) :
    (symbolsOf root).Nodup ∧ ∀ b ∈ root.exports, b.symbol ∈ symbolsOf root := by
  obtain ⟨internal, internalRun, run⟩ := Except.bind_eq_ok.mp run
  have order : (symbolsOf (normalizeRoot root)).Perm (symbolsOf root) := (sortOn_perm _ _).map _
  refine ⟨order.nodup_iff.mp (internalSymbols_ok internalRun).1, fun b hb => ?_⟩
  exact order.mem_iff.mp (validateExports_ok run b ((mem_sortOn _).mpr hb))

theorem validateEach_ok {α : Type} {check : α → Except String Unit} {l : List α}
    (run : validateEach check l = .ok ()) : ∀ a ∈ l, check a = .ok () := by
  induction l with
  | nil => simp
  | cons a l ih =>
    obtain ⟨_, head, tail⟩ := Except.bind_eq_ok.mp run
    exact List.forall_mem_cons.mpr ⟨head, ih tail⟩

/-- A symbol that is looked up is listed. -/
theorem rootSymbol_some {root : ProgramRootPayload} {symbol : Hash} {entry : RootSymbolPayload}
    (found : rootSymbol root symbol = some entry) : entry ∈ root.symbols ∧ entry.symbol = symbol :=
  ⟨List.mem_of_find?_eq_some found, by simpa using List.find?_some found⟩

theorem withContext_ok {α : Type} {context : Error} {x : Except Error α} {a : α} :
    withContext context x = .ok a ↔ x = .ok a := by
  cases x <;> simp [withContext]

private theorem validateTests_ok {objects : Objects} {rootHash : Hash} {root : ProgramRootPayload}
    {tests : List RootTestBinding} {seen : List String}
    (run : validateTests El objects rootHash root tests seen = .ok ()) :
    ∀ b ∈ tests, ∃ case, loadTestCase El objects b.test = .ok case ∧
      case.entrySymbol ∈ symbolsOf root := by
  induction tests generalizing seen with
  | nil => simp
  | cons binding tests ih =>
    obtain ⟨_, -, run⟩ := Except.bind_eq_ok.mp run
    split_ifs at run
    obtain ⟨case, load, run⟩ := Except.bind_eq_ok.mp run
    obtain ⟨_, valid, run⟩ := Except.bind_eq_ok.mp run
    refine List.forall_mem_cons.mpr ⟨⟨case, load, ?_⟩, ih run⟩
    rw [withContext_ok] at valid
    unfold validateTestCaseForRoot at valid
    split at valid
    · cases valid
    · next entry found =>
      obtain ⟨mem, same⟩ := rootSymbol_some found
      exact List.mem_map.mpr ⟨entry, mem, same⟩

/-- What is checked has tests of its symbols, and signatures that can be read. -/
theorem typeCheckRoot_ok {objects : Objects} {rootHash : Hash}
    (run : typeCheckRoot El objects rootHash = .ok ()) :
    ∃ root, loadRoot P objects rootHash = .ok root ∧
      (∀ b ∈ root.tests, ∃ case, loadTestCase El objects b.test = .ok case ∧
        case.entrySymbol ∈ symbolsOf root) ∧
      ∀ entry ∈ root.symbols, ∃ types returnType,
        signatureParts P objects entry.signature = .ok (types, returnType) := by
  obtain ⟨root, load, run⟩ := Except.bind_eq_ok.mp run
  obtain ⟨_, -, run⟩ := Except.bind_eq_ok.mp run
  obtain ⟨_, symbols, tests⟩ := Except.bind_eq_ok.mp run
  refine ⟨root, load, validateTests_ok El tests, fun entry he => ?_⟩
  obtain ⟨⟨types, returnType⟩, read, -⟩ :=
    Except.bind_eq_ok.mp (validateEach_ok symbols entry he)
  exact ⟨types, returnType, read⟩

end Checks

/-! ### Roots that are stored -/

/-- A root of a store meets the invariant. -/
def Holds (objects : Objects) (rootHash : Hash) : Prop :=
  ∃ root, loadRoot P objects rootHash = .ok root ∧ Invariant El objects root

variable {El} in
theorem Holds.grow {before after : Objects} (grows : Grows P before after) {rootHash : Hash}
    (holds : Holds El before rootHash) : Holds El after rootHash := by
  obtain ⟨root, load, inv⟩ := holds
  exact ⟨root, grows.loadRoot load, inv.grow grows⟩

/-- A stored root whose lists make a draft, with readable signatures and with
tests of its symbols, meets the invariant. -/
private theorem Draft.invariant {after : Objects} {root : ProgramRootPayload}
    {metadata : Metadata}
    (draft : Draft P after root)
    (distinct : (symbolsOf root).Nodup) (exported : ∀ b ∈ root.exports, b.symbol ∈ symbolsOf root)
    (tested : ∀ b ∈ root.tests, ∃ case, loadTestCase El after b.test = .ok case ∧
      case.entrySymbol ∈ symbolsOf root)
    (signatures : ∀ entry ∈ root.symbols, ∃ types returnType,
      signatureParts P after entry.signature = .ok (types, returnType)) :
    Invariant El after (canonical root metadata) where
  draft := draft.normalize
  symbols := symbolsOf_canonical.nodup_iff.mpr distinct
  exportsListed b hb := symbolsOf_canonical.mem_iff.mpr (exported b ((mem_sortOn _).mp hb))
  testsListed b hb := by
    obtain ⟨case, load, listed⟩ := tested b ((mem_sortOn _).mp hb)
    exact ⟨case, load, symbolsOf_canonical.mem_iff.mpr listed⟩
  signaturesRead entry he := signatures entry ((mem_sortOn _).mp he)

/-- What is stored and checked has distinct symbols. -/
theorem nodup_of_putCheckedRoot {before after : Objects} {root : ProgramRootPayload}
    {rootHash : Hash} {context : Option Error}
    (run : (putCheckedRoot El root context).run before = .ok (rootHash, after)) :
    (symbolsOf root).Nodup := by
  obtain ⟨newRoot, stored, store, -⟩ := StoreM.run_bind.mp run
  obtain ⟨_, exports, -⟩ := Except.bind_eq_ok.mp store
  exact (validateExportMap_ok exports).1

section Stored

variable (reliable : P.Reliable) (reads : P.ReadsText) {before after : Objects}
  (addressed : Addressed P before) {root : ProgramRootPayload} {rootHash : Hash}
include reliable reads addressed

/-- A root that is stored and indexed has distinct symbols, exports some of them,
and is loaded as it was but for the order of its lists. -/
private theorem storeAndIndex_ok {stored : Objects} {u : Unit}
    (store : (storeRoot root : StoreM P Hash).run before = .ok (rootHash, stored))
    (index : (indexRoot El rootHash).run stored = .ok (u, after)) :
    (symbolsOf root).Nodup ∧ (∀ b ∈ root.exports, b.symbol ∈ symbolsOf root) ∧
      ∃ metadata, loadRoot P after rootHash = .ok (canonical root metadata) := by
  obtain ⟨_, exports, -⟩ := Except.bind_eq_ok.mp store
  obtain ⟨distinct, exported⟩ := validateExportMap_ok exports
  obtain ⟨loaded, mid, load, index'⟩ := StoreM.run_bind.mp index
  obtain ⟨load, rfl⟩ := StoreM.run_read.mp load
  have grows := (indexRoot El rootHash).grows index
  have load' := grows.loadRoot load
  exact ⟨distinct, exported, loaded.metadata,
    load'.trans (congrArg _ (loadRoot_putProgramRoot reads reliable addressed store grows load'))⟩

/-- A draft that is stored and checked meets the invariant. -/
theorem Draft.checked {context : Option Error}
    (run : (putCheckedRoot El root context).run before = .ok (rootHash, after))
    (draft : Draft P before root) :
    Holds El after rootHash := by
  have grows := (putCheckedRoot El root context).grows run
  obtain ⟨newRoot, stored, store, run⟩ := StoreM.run_bind.mp run
  obtain ⟨_, indexed, index, run⟩ := StoreM.run_bind.mp run
  obtain ⟨_, checked, check, run⟩ := StoreM.run_bind.mp run
  obtain ⟨rfl, rfl⟩ := StoreM.run_pure_iff.mp run
  obtain ⟨check, rfl⟩ := StoreM.run_read.mp check
  replace check : typeCheckRoot El checked newRoot = .ok () := by
    cases context with
    | none => exact check
    | some context => exact withContext_ok.mp check
  obtain ⟨distinct, exported, metadata, load⟩ :=
    storeAndIndex_ok El reliable reads addressed store index
  obtain ⟨loaded, load', tested, signatures⟩ := typeCheckRoot_ok El check
  obtain rfl := Except.ok.inj (load.symm.trans load')
  refine ⟨_, load, (draft.grow grows).invariant El distinct exported (fun b hb => ?_)
    fun entry he => signatures entry ((mem_sortOn _).mpr he)⟩
  obtain ⟨case, read, listed⟩ := tested b ((mem_sortOn _).mpr hb)
  exact ⟨case, read, symbolsOf_canonical.mem_iff.mp listed⟩

variable {El} in
/-- A draft that is only stored meets the invariant if its symbols and tests are
those of a root that does. -/
theorem Invariant.indexed {old : ProgramRootPayload} (inv : Invariant El before old)
    (run : (putIndexedRoot El root).run before = .ok (rootHash, after))
    (draft : Draft P before root) (symbols : root.symbols = old.symbols)
    (tests : root.tests = old.tests) :
    Holds El after rootHash := by
  have grows := (putIndexedRoot El root).grows run
  obtain ⟨newRoot, stored, store, run⟩ := StoreM.run_bind.mp run
  obtain ⟨_, indexed, index, run⟩ := StoreM.run_bind.mp run
  obtain ⟨rfl, rfl⟩ := StoreM.run_pure_iff.mp run
  obtain ⟨distinct, exported, metadata, load⟩ :=
    storeAndIndex_ok El reliable reads addressed store index
  have inv := inv.grow grows
  refine ⟨_, load, (draft.grow grows).invariant El distinct exported ?_ ?_⟩
  · rw [tests, symbolsOf, symbols]
    exact inv.testsListed
  · rw [symbols]
    exact inv.signaturesRead

end Stored

end CodeDb

import CodeDb.Store.StoreM
import Mathlib.Data.List.Forall2

/-!
# Reading back what is stored

A reader of JSON reads a canonical text part by part. Numbers may come back
rounded, but keys, strings and the shape of a value come back as they were, and so
do the records a program root is made of.

## Main definitions

* `Primitives.ReadsText` — what is relied on of the reader
* `Faithful` — what is written is read back

## Main results

* `rootFromValue_reads` — a program root is read back but for its metadata
* `loadRoot_putProgramRoot` — what is stored is loaded again
-/

namespace CodeDb

open SortOn

variable {P : Primitives}

/-- The text of a value is read as a value. -/
def Primitives.Reads (P : Primitives) (v read : JsonValue) : Prop :=
  P.parseJson (canonicalJson P.floatText v) = .ok read

/-- What the reader of JSON is relied on for: where it succeeds on a canonical
text it reads strings and truth values as they are, and arrays and objects part by
part. -/
structure Primitives.ReadsText (P : Primitives) : Prop where
  string : ∀ {s v}, P.Reads (.string s) v → v = .string s
  bool : ∀ {b v}, P.Reads (.bool b) v → v = .bool b
  array : ∀ {values v}, P.Reads (.array values) v →
    ∃ read, v = .array read ∧ List.Forall₂ P.Reads values read
  object : ∀ {entries v}, (entries.map (·.1)).Pairwise (· < ·) → P.Reads (.object entries) v →
    ∃ read, v = .object read ∧
      List.Forall₂ (fun e r => e.1 = r.1 ∧ P.Reads e.2 r.2) entries read

/-- What is written is read back, where it is read at all. -/
structure Faithful {α : Type} (P : Primitives) (write : α → JsonValue)
    (read : JsonValue → Except Error α) : Prop where
  readBack : ∀ {a v b}, P.Reads (write a) v → read v = .ok b → b = a

variable (reads : P.ReadsText)
include reads

theorem faithful_string : Faithful P .string JsonValue.asString := by
  refine ⟨fun {a v b} text read => ?_⟩
  obtain rfl := reads.string text
  exact (Except.ok.inj read).symm

theorem faithful_bool : Faithful P .bool JsonValue.asBool := by
  refine ⟨fun {a v b} text read => ?_⟩
  obtain rfl := reads.bool text
  exact (Except.ok.inj read).symm

/-- The elements of a list are read back one by one. -/
theorem Faithful.list {α : Type} {write : α → JsonValue} {read : JsonValue → Except Error α}
    (faithful : Faithful P write read) :
    Faithful P (fun l => .array (l.map write)) (JsonValue.asList read) := by
  refine ⟨fun {l v l'} text run => ?_⟩
  obtain ⟨values, rfl, parts⟩ := reads.array text
  rw [List.forall₂_map_left_iff] at parts
  replace run := Except.mapM_eq_ok.mp run
  clear text
  induction parts generalizing l' with
  | nil =>
    cases run
    rfl
  | cons part _ ih =>
    cases run with
    | cons head tail => rw [faithful.readBack part head, ih tail]

/-! ### Fields of objects -/

omit reads in
/-- Entries read one by one are found under the same keys. -/
theorem lookup_reads {entries read : List (String × JsonValue)} (key : String)
    (parts : List.Forall₂ (fun e r => e.1 = r.1 ∧ P.Reads e.2 r.2) entries read) :
    Option.Rel P.Reads (entries.lookup key) (read.lookup key) := by
  induction parts with
  | nil => exact .none
  | @cons e r _ _ part _ ih =>
    obtain ⟨k, v⟩ := e
    obtain ⟨k', v'⟩ := r
    obtain ⟨rfl, value⟩ := part
    simp only [List.lookup_cons]
    split
    · exact .some value
    · exact ih

section Fields

variable {α : Type} {write : α → JsonValue} {read : JsonValue → Except Error α} {name : String}
  {entries values : List (String × JsonValue)}

omit reads in
/-- A required field is read back. -/
theorem Faithful.field (faithful : Faithful P write read) {a b : α}
    (parts : List.Forall₂ (fun e r => e.1 = r.1 ∧ P.Reads e.2 r.2) entries values)
    (written : entries.lookup name = some (write a))
    (run : JsonValue.field read name values = .ok b) : b = a := by
  have same := lookup_reads name parts
  rw [written] at same
  cases found : values.lookup name with
  | none => simp [JsonValue.field, found] at run
  | some v =>
    rw [found] at same
    cases same with
    | some text => exact faithful.readBack text (by simpa [JsonValue.field, found] using run)

/-- A list field that is left out when empty is read back. -/
theorem Faithful.listField (faithful : Faithful P write read) {l l' : List α}
    (parts : List.Forall₂ (fun e r => e.1 = r.1 ∧ P.Reads e.2 r.2) entries values)
    (written : entries.lookup name = if l.isEmpty then none else some (.array (l.map write)))
    (run : JsonValue.listField read name values = .ok l') : l' = l := by
  have same := lookup_reads name parts
  rw [written] at same
  cases l with
  | nil =>
    cases found : values.lookup name with
    | none =>
      obtain rfl : [] = l' := by simpa [JsonValue.listField, found] using run
      rfl
    | some v =>
      rw [found] at same
      nomatch same
  | cons a l =>
    cases found : values.lookup name with
    | none =>
      rw [found] at same
      nomatch same
    | some v =>
      rw [found] at same
      cases same with
      | some text =>
        exact (faithful.list reads).readBack text (by simpa [JsonValue.listField, found] using run)

end Fields

/-- An object read as entries. -/
theorem asEntries_reads {entries : List (String × JsonValue)} {v : JsonValue}
    {values : List (String × JsonValue)} (keys : (entries.map (·.1)).Pairwise (· < ·))
    (text : P.Reads (.object entries) v) (run : v.asEntries = .ok values) :
    List.Forall₂ (fun e r => e.1 = r.1 ∧ P.Reads e.2 r.2) entries values := by
  obtain ⟨read, rfl, parts⟩ := reads.object keys text
  obtain rfl := Except.ok.inj run
  exact parts

/-! ### The records of a program root -/

theorem faithful_rootSymbol : Faithful P RootSymbolPayload.toValue RootSymbolPayload.fromValue := by
  refine ⟨fun {a v b} text run => ?_⟩
  obtain ⟨values, entries, run⟩ := Except.bind_eq_ok.mp run
  have parts := asEntries_reads reads (by simp only [List.map]; decide) text entries
  obtain ⟨symbol, symbolRun, run⟩ := Except.bind_eq_ok.mp run
  obtain ⟨definition, definitionRun, run⟩ := Except.bind_eq_ok.mp run
  obtain ⟨signature, signatureRun, run⟩ := Except.bind_eq_ok.mp run
  obtain rfl := Except.pure_eq_ok.mp run
  rw [(faithful_string reads).field parts rfl symbolRun,
    (faithful_string reads).field parts rfl definitionRun,
    (faithful_string reads).field parts rfl signatureRun]

theorem faithful_rootType : Faithful P RootTypePayload.toValue RootTypePayload.fromValue := by
  refine ⟨fun {a v b} text run => ?_⟩
  obtain ⟨values, entries, run⟩ := Except.bind_eq_ok.mp run
  have parts := asEntries_reads reads (by simp only [List.map]; decide) text entries
  obtain ⟨typeSymbol, symbolRun, run⟩ := Except.bind_eq_ok.mp run
  obtain ⟨typeDef, typeDefRun, run⟩ := Except.bind_eq_ok.mp run
  obtain rfl := Except.pure_eq_ok.mp run
  rw [(faithful_string reads).field parts rfl symbolRun,
    (faithful_string reads).field parts rfl typeDefRun]

theorem faithful_nameBinding : Faithful P NameBinding.toValue NameBinding.fromValue := by
  refine ⟨fun {a v b} text run => ?_⟩
  obtain ⟨values, entries, run⟩ := Except.bind_eq_ok.mp run
  have parts := asEntries_reads reads (by simp only [List.map]; decide) text entries
  obtain ⟨module, moduleRun, run⟩ := Except.bind_eq_ok.mp run
  obtain ⟨displayName, nameRun, run⟩ := Except.bind_eq_ok.mp run
  obtain ⟨symbol, symbolRun, run⟩ := Except.bind_eq_ok.mp run
  obtain ⟨isPreferred, preferredRun, run⟩ := Except.bind_eq_ok.mp run
  obtain rfl := Except.pure_eq_ok.mp run
  rw [(faithful_string reads).field parts rfl moduleRun,
    (faithful_string reads).field parts rfl nameRun,
    (faithful_string reads).field parts rfl symbolRun,
    (faithful_bool reads).field parts rfl preferredRun]

theorem faithful_typeNameBinding :
    Faithful P TypeNameBinding.toValue TypeNameBinding.fromValue := by
  refine ⟨fun {a v b} text run => ?_⟩
  obtain ⟨values, entries, run⟩ := Except.bind_eq_ok.mp run
  have parts := asEntries_reads reads (by simp only [List.map]; decide) text entries
  obtain ⟨module, moduleRun, run⟩ := Except.bind_eq_ok.mp run
  obtain ⟨displayName, nameRun, run⟩ := Except.bind_eq_ok.mp run
  obtain ⟨typeSymbol, symbolRun, run⟩ := Except.bind_eq_ok.mp run
  obtain ⟨isPreferred, preferredRun, run⟩ := Except.bind_eq_ok.mp run
  obtain rfl := Except.pure_eq_ok.mp run
  rw [(faithful_string reads).field parts rfl moduleRun,
    (faithful_string reads).field parts rfl nameRun,
    (faithful_string reads).field parts rfl symbolRun,
    (faithful_bool reads).field parts rfl preferredRun]

theorem faithful_paramNames : Faithful P ParamNames.toValue ParamNames.fromValue := by
  refine ⟨fun {a v b} text run => ?_⟩
  obtain ⟨values, entries, run⟩ := Except.bind_eq_ok.mp run
  have parts := asEntries_reads reads (by simp only [List.map]; decide) text entries
  obtain ⟨symbol, symbolRun, run⟩ := Except.bind_eq_ok.mp run
  obtain ⟨names, namesRun, run⟩ := Except.bind_eq_ok.mp run
  obtain rfl := Except.pure_eq_ok.mp run
  rw [(faithful_string reads).field parts rfl symbolRun,
    ((faithful_string reads).list reads).field parts rfl namesRun]

theorem faithful_exportBinding : Faithful P ExportBinding.toValue ExportBinding.fromValue := by
  refine ⟨fun {a v b} text run => ?_⟩
  obtain ⟨values, entries, run⟩ := Except.bind_eq_ok.mp run
  have parts := asEntries_reads reads (by simp only [List.map]; decide) text entries
  obtain ⟨symbol, symbolRun, run⟩ := Except.bind_eq_ok.mp run
  obtain ⟨exportedName, nameRun, run⟩ := Except.bind_eq_ok.mp run
  obtain rfl := Except.pure_eq_ok.mp run
  rw [(faithful_string reads).field parts rfl symbolRun,
    (faithful_string reads).field parts rfl nameRun]

theorem faithful_rootTest : Faithful P RootTestBinding.toValue RootTestBinding.fromValue := by
  refine ⟨fun {a v b} text run => ?_⟩
  obtain ⟨values, entries, run⟩ := Except.bind_eq_ok.mp run
  have parts := asEntries_reads reads (by simp only [List.map]; decide) text entries
  obtain ⟨name, nameRun, run⟩ := Except.bind_eq_ok.mp run
  obtain ⟨test, testRun, run⟩ := Except.bind_eq_ok.mp run
  obtain rfl := Except.pure_eq_ok.mp run
  rw [(faithful_string reads).field parts rfl nameRun,
    (faithful_string reads).field parts rfl testRun]

/-! ### Program roots -/

omit reads in
theorem lookup_listEntry_append {α : Type} (write : α → JsonValue) (name key : String)
    (l : List α) (rest : List (String × JsonValue)) :
    (listEntry write name l ++ rest).lookup key =
      if key = name ∧ ¬ l.isEmpty then some (.array (l.map write)) else rest.lookup key := by
  unfold listEntry
  by_cases empty : l.isEmpty
  · simp [empty]
  · by_cases same : key = name
    · simp [empty, same]
    · have other : (key == name) = false := beq_false_of_ne same
      simp [empty, same, List.lookup_cons, other]

omit reads in
theorem lookup_listEntry {α : Type} (write : α → JsonValue) (name key : String) (l : List α) :
    (listEntry write name l).lookup key =
      if key = name ∧ ¬ l.isEmpty then some (.array (l.map write)) else none := by
  simpa using lookup_listEntry_append write name key l []

omit reads in
theorem keys_listEntry {α : Type} (write : α → JsonValue) (name : String) (l : List α) :
    ((listEntry write name l).map (·.1)).Sublist [name] := by
  unfold listEntry
  split_ifs <;> simp

/-- The entries of a program root. -/
def rootEntries (root : ProgramRootPayload) : List (String × JsonValue) :=
  listEntry ExportBinding.toValue "exports" root.exports ++
    [("metadata", .object root.metadata.entries),
     ("names", .array (root.names.map NameBinding.toValue)),
     ("param_names", .array (root.paramNames.map ParamNames.toValue))] ++
    listEntry .string "recursion_groups" root.recursionGroups ++
    [("symbols", .array (root.symbols.map RootSymbolPayload.toValue))] ++
    listEntry RootTestBinding.toValue "tests" root.tests ++
    listEntry TypeNameBinding.toValue "type_names" root.typeNames ++
    listEntry .string "type_recursion_groups" root.typeRecursionGroups ++
    listEntry RootTypePayload.toValue "types" root.types

omit reads in
theorem keys_rootEntries (root : ProgramRootPayload) :
    ((rootEntries root).map (·.1)).Pairwise (· < ·) := by
  have all : (["exports"] ++ ["metadata", "names", "param_names"] ++ ["recursion_groups"] ++
      ["symbols"] ++ ["tests"] ++ ["type_names"] ++ ["type_recursion_groups"] ++
      ["types"]).Pairwise (· < ·) := by decide
  refine all.sublist ?_
  simp only [rootEntries, List.map_append]
  exact ((((((((keys_listEntry _ _ _).append (List.Sublist.refl _)).append
    (keys_listEntry _ _ _)).append (List.Sublist.refl _)).append (keys_listEntry _ _ _)).append
    (keys_listEntry _ _ _)).append (keys_listEntry _ _ _)).append (keys_listEntry _ _ _))

/-- A program root is read back as it was written, but for the numbers in its
metadata. -/
theorem rootFromValue_reads {root root' : ProgramRootPayload} {v : JsonValue}
    (text : P.Reads (rootToValue root) v) (run : rootFromValue v = .ok root') :
    root' = { root with metadata := root'.metadata } := by
  obtain ⟨values, entries, run⟩ := Except.bind_eq_ok.mp run
  have parts := asEntries_reads reads (keys_rootEntries root) text entries
  obtain ⟨symbols, symbolsRun, run⟩ := Except.bind_eq_ok.mp run
  obtain ⟨types, typesRun, run⟩ := Except.bind_eq_ok.mp run
  obtain ⟨names, namesRun, run⟩ := Except.bind_eq_ok.mp run
  obtain ⟨typeNames, typeNamesRun, run⟩ := Except.bind_eq_ok.mp run
  obtain ⟨paramNames, paramNamesRun, run⟩ := Except.bind_eq_ok.mp run
  obtain ⟨exports, exportsRun, run⟩ := Except.bind_eq_ok.mp run
  obtain ⟨tests, testsRun, run⟩ := Except.bind_eq_ok.mp run
  obtain ⟨groups, groupsRun, run⟩ := Except.bind_eq_ok.mp run
  obtain ⟨typeGroups, typeGroupsRun, run⟩ := Except.bind_eq_ok.mp run
  obtain ⟨metadata, -, run⟩ := Except.bind_eq_ok.mp run
  obtain rfl := Except.pure_eq_ok.mp run
  simp only [ProgramRootPayload.mk.injEq, and_true]
  refine ⟨((faithful_rootSymbol reads).list reads).field parts ?_ symbolsRun,
    (faithful_rootType reads).listField reads parts ?_ typesRun,
    ((faithful_nameBinding reads).list reads).field parts ?_ namesRun,
    (faithful_typeNameBinding reads).listField reads parts ?_ typeNamesRun,
    ((faithful_paramNames reads).list reads).field parts ?_ paramNamesRun,
    (faithful_exportBinding reads).listField reads parts ?_ exportsRun,
    (faithful_rootTest reads).listField reads parts ?_ testsRun,
    (faithful_string reads).listField reads parts ?_ groupsRun,
    (faithful_string reads).listField reads parts ?_ typeGroupsRun⟩
  all_goals
    simp [rootEntries, lookup_listEntry_append, lookup_listEntry, List.lookup_cons]

omit reads in
/-- A stored payload is read from its text. -/
theorem getPayload_putObject (reliable : P.Reliable) {objects later : Objects}
    (addressed : Addressed P objects) {kind : String} {payload : JsonValue}
    (grows : Grows P (putObject P objects kind payload).2 later) :
    getPayload P later (objectHash P kind payload) =
      P.parseJson (canonicalJson P.floatText payload) := by
  have found := grows.kept _ _ (lookup_putObject reliable addressed kind payload)
  simp [getPayload, found]

/-- A stored program root is loaded as it was stored, but for the numbers in its
metadata. -/
theorem loadRoot_putProgramRoot (reliable : P.Reliable) {objects stored later : Objects}
    (addressed : Addressed P objects) {root loaded : ProgramRootPayload} {hash : Hash}
    (put : putProgramRoot P objects root = .ok (hash, stored)) (grows : Grows P stored later)
    (load : loadRoot P later hash = .ok loaded) :
    loaded = { normalizeRoot root with metadata := loaded.metadata } := by
  obtain ⟨-, -, put⟩ := Except.bind_eq_ok.mp put
  obtain ⟨rfl, rfl⟩ := Prod.mk.inj (Except.pure_eq_ok.mp put)
  obtain ⟨payload, read, load⟩ := Except.bind_eq_ok.mp load
  obtain ⟨root', fields, load⟩ := Except.bind_eq_ok.mp load
  obtain rfl := Except.pure_eq_ok.mp load
  change getPayload P later (objectHash P _ _) = _ at read
  rw [getPayload_putObject reliable addressed grows] at read
  rw [rootFromValue_reads reads read fields]
  simp [normalizeRoot]

end CodeDb

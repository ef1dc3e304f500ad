import CodeDb.History.TypeNaming
import CodeDb.Invariants.RepeatedType
import CodeDb.Merge.Payloads

/-!
# Replaying a merge

A merge that was recorded is replayed from its operation alone: the objects it brought along are put
into the store, and then the merged root. So it can be replayed in a store that has never seen the
branch it came from.

What was collected is closed under what stored objects mention. Replaying the merge in any store
therefore finds there whatever it found where the merge was planned, unless the text of an object
does not say what it was read as, and that is noticed.

## Main results

* `run_putMergeObjects` — objects that were brought along are put into another store
* `applyMergeBranch_transports` — what a replay finds
-/

namespace CodeDb

open Worklist

variable {P : Primitives} {objects : Objects}

/-- An object that is brought along gets the hash it had exactly if its text says what it was read
as. -/
theorem objectHash_broughtAlong (reliable : P.Reliable) (addressed : Addressed P objects)
    {p : MergeObjectPayload} {object : StoredObject} (found : objects.lookup p.hash = some object)
    (kind : object.kind = p.kind) :
    objectHash P p.kind p.payload = p.hash ↔
      canonicalJson P.floatText p.payload = object.payloadJson := by
  obtain ⟨stored, row, key⟩ := addressed p.hash object found
  have text : object.payloadJson = canonicalJson P.floatText stored := by rw [row]
  constructor
  · intro same
    exact (objectHash_inj reliable (same.trans key)).2.trans text.symm
  · intro texts
    rw [key, kind, objectHash, objectHash, texts, text]

/-- The text of an object that is brought along says what it was read as. -/
def ReadsBack (P : Primitives) (objects : Objects) (p : MergeObjectPayload) : Prop :=
  ∃ object, objects.lookup p.hash = some object ∧
    canonicalJson P.floatText p.payload = object.payloadJson

/-- One object of a merge is put into a store, or the merge is refused. -/
theorem run_putMergeObject {other after : Objects} {p : MergeObjectPayload} :
    (putMergeObject p : StoreM P Unit).run other = .ok ((), after) ↔
      objectHash P p.kind p.payload = p.hash ∧ after = (putObject P other p.kind p.payload).2 := by
  rw [putMergeObject, StoreM.run_bind]
  constructor
  · rintro ⟨inserted, mid, put, checked⟩
    obtain ⟨rfl, rfl⟩ := StoreM.run_put.mp put
    by_cases same : objectHash P p.kind p.payload = p.hash
    · rw [if_neg (not_not.mpr same)] at checked
      exact ⟨same, (StoreM.run_pure_iff.mp checked).2.symm⟩
    · rw [if_pos same] at checked
      exact (StoreM.run_fail.mp checked).elim
  · rintro ⟨same, rfl⟩
    refine ⟨_, _, StoreM.run_put.mpr ⟨rfl, rfl⟩, ?_⟩
    rw [if_neg (not_not.mpr same)]
    rfl

/-- Objects that are brought along are put into another store exactly if their texts say what they
were read as, and then they are found there as they were stored. -/
theorem run_putMergeObjects (reliable : P.Reliable) (addressed : Addressed P objects)
    {other : Objects} (addressed' : Addressed P other) {payloads : List MergeObjectPayload}
    (brought : ∀ p ∈ payloads, BroughtAlong P objects p) :
    ((∃ done after, (StoreM.each putMergeObject payloads : StoreM P _).run other =
        .ok (done, after)) ↔ ∀ p ∈ payloads, ReadsBack P objects p) ∧
    ∀ done after, (StoreM.each putMergeObject payloads : StoreM P _).run other = .ok (done, after) →
      ∀ p ∈ payloads, after.lookup p.hash = objects.lookup p.hash := by
  -- on the objects: a store that one was put into has objects at their addresses again
  induction payloads generalizing other with
  | nil => exact ⟨iff_of_true ⟨[], other, rfl⟩ (by simp), by simp⟩
  | cons p rest ih =>
    obtain ⟨object, found, kind, -⟩ := brought p List.mem_cons_self
    have grows := grows_putObject (P := P) other p.kind p.payload
    obtain ⟨succeeds, kept⟩ := ih (grows.addressed addressed')
      fun q listed => brought q (List.mem_cons_of_mem _ listed)
    have same := objectHash_broughtAlong reliable addressed found kind
    have run : ∀ done after, (StoreM.each putMergeObject (p :: rest) : StoreM P _).run other =
        .ok (done, after) ↔ objectHash P p.kind p.payload = p.hash ∧ ∃ more,
          (StoreM.each putMergeObject rest : StoreM P _).run
            (putObject P other p.kind p.payload).2 = .ok (more, after) ∧ done = () :: more := by
      intro done after
      rw [StoreM.each, StoreM.run_bind]
      constructor
      · rintro ⟨⟨⟩, mid, first, later⟩
        obtain ⟨hash, rfl⟩ := run_putMergeObject.mp first
        obtain ⟨more, mid', ok, last⟩ := StoreM.run_bind.mp later
        obtain ⟨rfl, rfl⟩ := StoreM.run_pure_iff.mp last
        exact ⟨hash, more, ok, rfl⟩
      · rintro ⟨hash, more', more, rfl⟩
        exact ⟨(), _, run_putMergeObject.mpr ⟨hash, rfl⟩, StoreM.run_bind.mpr ⟨_, _, more, rfl⟩⟩
    constructor
    · rw [List.forall_mem_cons, ← succeeds]
      constructor
      · rintro ⟨done, after, ok⟩
        obtain ⟨hash, more, ok, -⟩ := (run done after).mp ok
        exact ⟨⟨object, found, same.mp hash⟩, more, after, ok⟩
      · rintro ⟨⟨object', found', text⟩, more, after, ok⟩
        obtain rfl := Option.some.inj (found.symm.trans found')
        exact ⟨_, after, (run _ after).mpr ⟨same.mpr text, more, ok, rfl⟩⟩
    · intro done after ok
      obtain ⟨hash, more, ok, -⟩ := (run done after).mp ok
      -- the object gets the address it had, and nothing that is put later replaces it
      have there : (putObject P other p.kind p.payload).2.lookup p.hash = some object := by
        obtain ⟨stored, row, -⟩ := addressed p.hash object found
        rw [← hash, lookup_putObject reliable addressed' p.kind p.payload, same.mp hash, ← kind]
        have version : object.schemaVersion = schemaVersion := by rw [row]
        rw [← version]
      refine List.forall_mem_cons.mpr ⟨?_, kept more after ok⟩
      rw [found, ((StoreM.each putMergeObject rest : StoreM P _).grows ok).kept _ _ there]

/-- What is stored and reached in one store, and the roots that are loaded there, another store has
as well. -/
def Carries (P : Primitives) (objects after : Objects) (start : Set Hash) : Prop :=
  ∀ h, Reached (Mentions P objects) start h →
    (∀ object, objects.lookup h = some object → after.lookup h = some object) ∧
    ∀ root, loadRoot P objects h = .ok root → loadRoot P after h = .ok root

/-- The store in which a merge with the type is planned. -/
def namedObjects : Objects :=
  (putObject plain (putObject plain ∅ "SymbolBirth" namedTypeBirth).2 "ProgramRoot"
    (rootToValue (rootNamed (some "Point")))).2

/-- A store that has never seen the type. -/
def unnamedObjects : Objects :=
  (putObject plain ∅ "ProgramRoot" (rootToValue (rootNamed none))).2

/-- The hash of the type. -/
def birthHash : Hash := objectHash plain "SymbolBirth" namedTypeBirth

theorem addressed_bornObjects :
    Addressed plain (putObject plain ∅ "SymbolBirth" namedTypeBirth).2 :=
  (grows_putObject ∅ _ _).addressed addressed_empty

theorem addressed_namedObjects : Addressed plain namedObjects :=
  (grows_putObject _ _ _).addressed addressed_bornObjects

theorem stored_namedObjects :
    Stored plain namedObjects "ProgramRoot" (rootToValue (rootNamed (some "Point"))) :=
  Stored.put plain_reliable addressed_bornObjects

theorem stored_birth : Stored plain namedObjects "SymbolBirth" namedTypeBirth :=
  (Stored.put plain_reliable addressed_empty).grow (grows_putObject _ _ _)

theorem stored_unnamedObjects :
    Stored plain unnamedObjects "ProgramRoot" (rootToValue (rootNamed none)) :=
  Stored.put plain_reliable addressed_empty

theorem addressed_unnamedObjects : Addressed plain unnamedObjects :=
  (grows_putObject ∅ _ _).addressed addressed_empty

/-- A store that an object was put in has that object and what it had. -/
theorem lookup_putObject_cases {kind : String} {payload : JsonValue} {h : Hash}
    {object : StoredObject}
    (found : (putObject P objects kind payload).2.lookup h = some object) :
    h = objectHash P kind payload ∨ objects.lookup h = some object := by
  by_cases same : h = objectHash P kind payload
  · exact Or.inl same
  · exact Or.inr ((lookup_insertOrIgnore_of_ne _ _ same).symm.trans found)

theorem lookup_namedObjects {h : Hash} {object : StoredObject}
    (found : namedObjects.lookup h = some object) :
    h = hashNamed (some "Point") ∧ object = ⟨"ProgramRoot", schemaVersion,
        canonicalJson plain.floatText (rootToValue (rootNamed (some "Point")))⟩ ∨
      h = birthHash ∧ object = ⟨"SymbolBirth", schemaVersion,
        canonicalJson plain.floatText namedTypeBirth⟩ := by
  rcases lookup_putObject_cases found with same | found'
  · subst same
    exact Or.inl ⟨rfl, Option.some.inj (found.symm.trans stored_namedObjects)⟩
  · rcases lookup_putObject_cases found' with same | none
    · subst same
      exact Or.inr ⟨rfl, Option.some.inj (found.symm.trans stored_birth)⟩
    · simp at none

theorem birthHash_ne (name : Option String) : birthHash ≠ hashNamed name := fun same =>
  absurd (objectHash_inj plain_reliable same).1 (by decide)

/-- The other store has none of these objects. -/
theorem absent_unnamedObjects {h : Hash} (mem : h ∈ namedObjects) : h ∉ unnamedObjects := by
  intro there
  obtain ⟨object, found⟩ := Option.isSome_iff_exists.mp (AList.lookup_isSome.mpr mem)
  obtain ⟨object', found'⟩ := Option.isSome_iff_exists.mp (AList.lookup_isSome.mpr there)
  have empty : h = hashNamed none := by
    rcases lookup_putObject_cases found' with same | none
    · exact same
    · simp at none
  rcases lookup_namedObjects found with ⟨rfl, -⟩ | ⟨rfl, -⟩
  · exact absurd (hashNamed_inj empty) (by simp)
  · exact birthHash_ne none empty

theorem read_rootNamed (name : Option String) :
    plain.parseJson (canonicalJson plain.floatText (rootToValue (rootNamed name))) =
      .ok (rootToValue (rootNamed name)) := by
  have fixed : Fixed plain.floatText (rootToValue (rootNamed name)) := fixed_rootToValue nofun
  exact plain_reads.mpr fixed.symm

theorem read_namedTypeBirth :
    plain.parseJson (canonicalJson plain.floatText namedTypeBirth) = .ok namedTypeBirth := by
  have fixed : Fixed plain.floatText namedTypeBirth :=
    Fixed.object (by simp only [List.map]; decide) (by simp [Fixed.string])
  exact plain_reads.mpr fixed.symm

/-- The name of a type mentions it. -/
theorem extract_typeName {h : Hash} (prefixed : "sha256:".toList <+: h.toList) (name : String) :
    h ∈ extractHashStrings (TypeNameBinding.toValue ⟨"main", name, h, true⟩) := by
  have itself : extractHashStrings (.string h) = [h] := by
    rw [extractHashStrings, if_pos (List.isPrefixOf_iff_prefix.mpr prefixed)]
  rw [TypeNameBinding.toValue, extractHashStrings]
  simp [extractFromEntries, itself]

/-- A root that names the type mentions it. -/
theorem extract_rootNamed (name : String) :
    birthHash ∈ extractHashStrings (rootToValue (rootNamed (some name))) := by
  have binding := extract_typeName (h := birthHash) (prefix_objectHash _ _ _) name
  have listed : rootToValue (rootNamed (some name)) = .object [("metadata", .object []),
      ("names", .array []), ("param_names", .array []), ("symbols", .array []),
      ("type_names", .array [TypeNameBinding.toValue ⟨"main", name, birthHash, true⟩])] := rfl
  rw [listed]
  simp [extractHashStrings, extractFromEntries, extractFromList, binding]

/-- What is only read, for each of a list, is only read. -/
theorem StoreM.each_run_read {α : Type} {f : α → StoreM P Unit} {s : Objects} {l : List α}
    (reads : ∀ a ∈ l, (f a).run s = .ok ((), s)) :
    ∃ done, (StoreM.each f l).run s = .ok (done, s) := by
  induction l with
  | nil => exact ⟨[], rfl⟩
  | cons a l ih =>
    obtain ⟨done, rest⟩ := ih fun b mem => reads b (List.mem_cons_of_mem _ mem)
    refine ⟨() :: done, ?_⟩
    rw [StoreM.each, StoreM.run_bind_ok (reads a List.mem_cons_self), StoreM.run_bind_ok rest]
    rfl

/-- A root that names the type has types alone, where the type is stored. -/
theorem typesOnly_rootNamed {objects : Objects} (born : birthHash ∈ objects) (name : String) :
    TypesOnly objects (rootNamed (some name)) := by
  refine ⟨rfl, rfl, rfl, rfl, rfl, nofun, nofun, fun b mem => ?_⟩
  obtain rfl : b = ⟨"main", name, birthHash, true⟩ := by simpa [rootNamed, birthHash] using mem
  exact born

/-- What the merge takes along is the root and the type, both as they are stored, and nothing
else. -/
theorem collects_namedObjects : ∃ collected,
    collectMergeObjectPayloads plain namedObjects (hashNamed (some "Point"))
      (rootToValue (rootNamed (some "Point"))) = .ok collected ∧
    (∀ p ∈ collected, BroughtAlong plain namedObjects p ∧ ReadsBack plain namedObjects p) ∧
    ∀ h object, namedObjects.lookup h = some object → ∃ p ∈ collected, p.hash = h := by
  rcases collectMergeObjectPayloads_cases plain namedObjects (hashNamed (some "Point"))
    (rootToValue (rootNamed (some "Point"))) with
    ⟨collected, run, -, members, -⟩ | ⟨-, h, object, -, found, unread⟩
  · refine ⟨collected, run, fun p listed => ?_, fun h object found => ?_⟩
    · obtain ⟨-, object, found, kind, parsed⟩ := (members p).mp listed
      refine ⟨⟨object, found, kind, parsed⟩, object, found, ?_⟩
      rcases lookup_namedObjects found with ⟨-, rfl⟩ | ⟨-, rfl⟩
      · rw [← Except.ok.inj ((read_rootNamed _).symm.trans parsed)]
      · rw [← Except.ok.inj (read_namedTypeBirth.symm.trans parsed)]
    · rcases lookup_namedObjects found with ⟨rfl, rfl⟩ | ⟨rfl, rfl⟩
      · exact ⟨⟨_, _, _⟩, (members _).mpr ⟨.of_mem (Or.inl rfl), _, found, rfl, read_rootNamed _⟩,
          rfl⟩
      · exact ⟨⟨_, _, _⟩, (members _).mpr ⟨.of_mem (Or.inr (extract_rootNamed _)), _, found, rfl,
          read_namedTypeBirth⟩, rfl⟩
  · rcases lookup_namedObjects found with ⟨-, rfl⟩ | ⟨-, rfl⟩
    · exact absurd (read_rootNamed _) (unread _)
    · exact absurd read_namedTypeBirth (unread _)

/-- The root that is taken along is indexed and checked, and the type is no root. -/
theorem checks_namedObjects {put : Objects} {collected : List MergeObjectPayload}
    (brought : ∀ p ∈ collected, BroughtAlong plain namedObjects p)
    (only : TypesOnly put (rootNamed (some "Point")))
    (loaded : loadRoot plain put (hashNamed (some "Point")) = .ok (rootNamed (some "Point"))) :
    ∃ checks, (StoreM.each (checkMergeObject builtinTypes) collected).run put =
      .ok (checks, put) := by
  refine StoreM.each_run_read fun p listed => ?_
  obtain ⟨object, found, kind, -⟩ := brought p listed
  rcases lookup_namedObjects found with ⟨hash, rfl⟩ | ⟨-, rfl⟩
  · rw [checkMergeObject, if_pos kind.symm, hash, StoreM.run_bind_ok (only.indexed loaded)]
    exact StoreM.run_read.mpr ⟨only.accepted loaded, rfl⟩
  · rw [checkMergeObject, if_neg (by rw [← kind]; decide)]
    exact StoreM.run_pure

end CodeDb

import CodeDb.Store.JsonReader
import Mathlib.Data.List.TakeWhile

/-!
# Program roots round trip

A program root is read from the JSON value it is written as, and with primitives
that can be computed with it is loaded from the store as it was stored.

## Main results

* `rootFromValue_rootToValue` — a root is read from its JSON form
* `Stored.loadRoot` — a stored root is loaded
* `stored_putAll` — what is put into a store is stored
-/

namespace CodeDb

open SortOn

/-! ### The JSON form -/

section Fields

variable {α : Type} (write : α → JsonValue) {read : JsonValue → Except Error α} {name : String}
  {entries : List (String × JsonValue)}

theorem asList_map (reads : ∀ a, read (write a) = .ok a) (l : List α) :
    JsonValue.asList read (.array (l.map write)) = .ok l := by
  refine Except.mapM_eq_ok.mpr ?_
  rw [List.forall₂_map_left_iff]
  exact List.forall₂_same.mpr fun a _ => reads a

omit write in
theorem field_ok {v : JsonValue} {a : α} (found : entries.lookup name = some v)
    (run : read v = .ok a) : JsonValue.field read name entries = .ok a := by
  rw [JsonValue.field, found]
  exact run

theorem listField_ok (reads : ∀ a, read (write a) = .ok a) {l : List α}
    (written : entries.lookup name = if l.isEmpty then none else some (.array (l.map write))) :
    JsonValue.listField read name entries = .ok l := by
  rw [JsonValue.listField, written]
  cases l with
  | nil => rfl
  | cons a l => exact asList_map write reads (a :: l)

end Fields

/-- Metadata is read from its entries. -/
theorem metadataFromValue_entries (m : Metadata) :
    metadataFromValue (.object m.entries) = .ok m :=
  congrArg Except.ok m.foldl_insert_entries

/-- A program root is read from its JSON form. -/
theorem rootFromValue_rootToValue (root : ProgramRootPayload) :
    rootFromValue (rootToValue root) = .ok root := by
  have strings : ∀ s : String, JsonValue.asString (.string s) = .ok s := fun _ => rfl
  have params : ∀ p : ParamNames, ParamNames.fromValue p.toValue = .ok p := fun p =>
    Except.bind_eq_ok.mpr ⟨_, rfl, Except.bind_eq_ok.mpr ⟨_, rfl, Except.bind_eq_ok.mpr
      ⟨_, field_ok rfl (asList_map .string strings p.names), rfl⟩⟩⟩
  refine Except.bind_eq_ok.mpr ⟨rootEntries root, rfl,
    Except.bind_eq_ok.mpr ⟨_, field_ok ?_ (asList_map RootSymbolPayload.toValue (fun _ => rfl) _),
    Except.bind_eq_ok.mpr ⟨_, listField_ok RootTypePayload.toValue (fun _ => rfl) ?_,
    Except.bind_eq_ok.mpr ⟨_, field_ok ?_ (asList_map NameBinding.toValue (fun _ => rfl) _),
    Except.bind_eq_ok.mpr ⟨_, listField_ok TypeNameBinding.toValue (fun _ => rfl) ?_,
    Except.bind_eq_ok.mpr ⟨_, field_ok ?_ (asList_map ParamNames.toValue params _),
    Except.bind_eq_ok.mpr ⟨_, listField_ok ExportBinding.toValue (fun _ => rfl) ?_,
    Except.bind_eq_ok.mpr ⟨_, listField_ok RootTestBinding.toValue (fun _ => rfl) ?_,
    Except.bind_eq_ok.mpr ⟨_, listField_ok .string strings ?_,
    Except.bind_eq_ok.mpr ⟨_, listField_ok .string strings ?_,
    Except.bind_eq_ok.mpr ⟨_, field_ok ?_ (metadataFromValue_entries _), rfl⟩⟩⟩⟩⟩⟩⟩⟩⟩⟩⟩
  all_goals
    simp [rootEntries, lookup_listEntry_append, lookup_listEntry, List.lookup_cons]

/-! ### Reading back -/

section ReadBack

variable {floatText : UInt64 → List Char}

/-- A value that is read back as it is. -/
def Fixed (floatText : UInt64 → List Char) (v : JsonValue) : Prop := readBack floatText v = v

theorem readBackValues_map {α : Type} {write : α → JsonValue} (l : List α)
    (fixed : ∀ a ∈ l, Fixed floatText (write a)) :
    readBackValues floatText (l.map write) = l.map write := by
  induction l with
  | nil => rfl
  | cons a l ih =>
    rw [List.map_cons, readBackValues, fixed a List.mem_cons_self,
      ih fun b hb => fixed b (List.mem_cons_of_mem _ hb)]

theorem Fixed.array {α : Type} {write : α → JsonValue} (fixed : ∀ a, Fixed floatText (write a))
    (l : List α) : Fixed floatText (.array (l.map write)) :=
  congrArg JsonValue.array (readBackValues_map l fun a _ => fixed a)

theorem readBackEntries_eq_self {entries : List (String × JsonValue)}
    (fixed : ∀ e ∈ entries, Fixed floatText e.2) : readBackEntries floatText entries = entries := by
  induction entries with
  | nil => rfl
  | cons e entries ih =>
    rw [readBackEntries, fixed e List.mem_cons_self,
      ih fun b hb => fixed b (List.mem_cons_of_mem _ hb)]

/-- An object with entries in order is read back as it is if its values are. -/
theorem Fixed.object {entries : List (String × JsonValue)}
    (sorted : (entries.map (·.1)).Pairwise (· < ·)) (fixed : ∀ e ∈ entries, Fixed floatText e.2) :
    Fixed floatText (.object entries) :=
  (readBack_object sorted).trans (congrArg _ (readBackEntries_eq_self fixed))

theorem Fixed.string (s : String) : Fixed floatText (.string s) := rfl

theorem Fixed.bool (b : Bool) : Fixed floatText (.bool b) := rfl

/-- A number without a sign is read back as it is. -/
theorem Fixed.posInt (n : UInt64) : Fixed floatText (.number (.posInt n)) := by
  have digits : ∀ c ∈ Nat.toDigits 10 n.toNat, c.isDigit := fun c hc =>
    Nat.isDigit_of_mem_toDigits (by decide) (by decide) hc
  have number : (!(Nat.toDigits 10 n.toNat).isEmpty &&
      (Nat.toDigits 10 n.toNat).all isNumberChar) = true := by
    simpa [isNumberChar] using fun c hc => Or.inl (digits c hc)
  have read : readNumber (Nat.toDigits 10 n.toNat) = some (.posInt n) := by
    unfold readNumber
    rw [if_pos number]
    split
    · rename_i rest same
      exact absurd (digits '-' (same ▸ List.mem_cons_self)) (by decide)
    · dsimp only
      rw [List.takeWhile_eq_self_iff.mpr digits, if_pos (List.all_eq_true.mpr digits),
        Nat.ofDigitChars_ten_toDigits, UInt64.ofNat_toNat]
  exact congrArg JsonValue.number (congrArg (·.getD (.posInt n)) read)

theorem Fixed.listEntry {α : Type} {write : α → JsonValue} (fixed : ∀ a, Fixed floatText (write a))
    {name : String} {l : List α} : ∀ e ∈ listEntry write name l, Fixed floatText e.2 := by
  intro e he
  unfold CodeDb.listEntry at he
  split_ifs at he
  · cases he
  · rw [List.mem_singleton.mp he]
    exact Fixed.array fixed l

/-- A program root is written as a value that is read back as it is, if its metadata
is. -/
theorem fixed_rootToValue {root : ProgramRootPayload}
    (metadata : ∀ e ∈ root.metadata.entries, Fixed floatText e.2) :
    Fixed floatText (rootToValue root) := by
  have symbols : ∀ e : RootSymbolPayload, Fixed floatText e.toValue := fun e =>
    Fixed.object (by simp only [List.map]; decide) (by simp [Fixed.string])
  have types : ∀ e : RootTypePayload, Fixed floatText e.toValue := fun e =>
    Fixed.object (by simp only [List.map]; decide) (by simp [Fixed.string])
  have names : ∀ b : NameBinding, Fixed floatText b.toValue := fun b =>
    Fixed.object (by simp only [List.map]; decide) (by simp [Fixed.string, Fixed.bool])
  have typeNames : ∀ b : TypeNameBinding, Fixed floatText b.toValue := fun b =>
    Fixed.object (by simp only [List.map]; decide) (by simp [Fixed.string, Fixed.bool])
  have params : ∀ p : ParamNames, Fixed floatText p.toValue := fun p =>
    Fixed.object (by simp only [List.map]; decide)
      (by simp [Fixed.string, Fixed.array Fixed.string])
  have exports : ∀ b : ExportBinding, Fixed floatText b.toValue := fun b =>
    Fixed.object (by simp only [List.map]; decide) (by simp [Fixed.string])
  have tests : ∀ b : RootTestBinding, Fixed floatText b.toValue := fun b =>
    Fixed.object (by simp only [List.map]; decide) (by simp [Fixed.string])
  have data : Fixed floatText (.object root.metadata.entries) :=
    Fixed.object (List.pairwise_map.mpr root.metadata.sorted) metadata
  refine Fixed.object (keys_rootEntries root) fun e he => ?_
  simp only [List.mem_append, or_assoc] at he
  rcases he with he | he | he | he | he | he | he | he
  · exact Fixed.listEntry exports e he
  · simp only [List.mem_cons, List.not_mem_nil, or_false] at he
    rcases he with rfl | rfl | rfl
    · exact data
    · exact Fixed.array names _
    · exact Fixed.array params _
  · exact Fixed.listEntry Fixed.string e he
  · rw [List.mem_singleton.mp he]
    exact Fixed.array symbols _
  · exact Fixed.listEntry tests e he
  · exact Fixed.listEntry typeNames e he
  · exact Fixed.listEntry Fixed.string e he
  · exact Fixed.listEntry types e he

end ReadBack

/-! ### Stored objects -/

/-- An object is stored under its hash. -/
def Stored (P : Primitives) (objects : Objects) (kind : String) (payload : JsonValue) : Prop :=
  objects.lookup (objectHash P kind payload) = some
    ⟨kind, schemaVersion, canonicalJson P.floatText payload⟩

section Stored

variable {P : Primitives} {objects later : Objects} {kind : String} {payload : JsonValue}

theorem Stored.grow (stored : Stored P objects kind payload) (grows : Grows P objects later) :
    Stored P later kind payload :=
  grows.kept _ _ stored

theorem Stored.put (reliable : P.Reliable) (addressed : Addressed P objects) :
    Stored P (putObject P objects kind payload).2 kind payload :=
  lookup_putObject reliable addressed kind payload

theorem Stored.mem (stored : Stored P objects kind payload) :
    objectHash P kind payload ∈ objects :=
  AList.lookup_isSome.mp (Option.isSome_iff_exists.mpr ⟨_, stored⟩)

theorem Stored.getKind (stored : Stored P objects kind payload) :
    getKind objects (objectHash P kind payload) = .ok kind := by
  rw [CodeDb.getKind, stored]

/-- A stored payload that is read back as it is. -/
theorem Stored.getPayload (stored : Stored plain objects kind payload)
    (fixed : Fixed plain.floatText payload) :
    getPayload plain objects (objectHash plain kind payload) = .ok payload := by
  rw [CodeDb.getPayload, stored]
  exact plain_reads.mpr fixed.symm

/-- A stored program root is loaded. -/
theorem Stored.loadRoot {root : ProgramRootPayload}
    (stored : Stored plain objects "ProgramRoot" (rootToValue root))
    (metadata : ∀ e ∈ root.metadata.entries, Fixed plain.floatText e.2) :
    loadRoot plain objects (objectHash plain "ProgramRoot" (rootToValue root)) =
      .ok (normalizeRoot root) :=
  Except.bind_eq_ok.mpr ⟨_, stored.getPayload (fixed_rootToValue metadata),
    Except.bind_eq_ok.mpr ⟨_, rootFromValue_rootToValue root, rfl⟩⟩

theorem normalizeRoot_empty : normalizeRoot .empty = ProgramRootPayload.empty := by
  simp [normalizeRoot, ProgramRootPayload.empty]

/-- The empty root is put into the store. -/
theorem putProgramRoot_empty (objects : Objects) :
    putProgramRoot plain objects .empty =
      .ok (putObject plain objects "ProgramRoot" (rootToValue .empty)) := by
  unfold putProgramRoot
  rw [normalizeRoot_empty]
  rfl

/-- Put a list of objects into a store. -/
def putAll (P : Primitives) (objects : Objects) (added : List (String × JsonValue)) : Objects :=
  added.foldl (fun objects object => (putObject P objects object.1 object.2).2) objects

theorem grows_putAll (objects : Objects) (added : List (String × JsonValue)) :
    Grows P objects (putAll P objects added) := by
  induction added generalizing objects with
  | nil => exact .refl _
  | cons object added ih => exact (grows_putObject _ _ _).trans (ih _)

/-- What is put into an addressed store is stored. -/
theorem stored_putAll (reliable : P.Reliable) (addressed : Addressed P objects)
    {added : List (String × JsonValue)} (mem : (kind, payload) ∈ added) :
    Stored P (putAll P objects added) kind payload := by
  induction added generalizing objects with
  | nil => cases mem
  | cons object added ih =>
    rcases List.mem_cons.mp mem with rfl | mem
    · exact (Stored.put reliable addressed).grow (grows_putAll _ added)
    · exact ih ((grows_putObject _ _ _).addressed addressed) mem

/-- What the hash of an object begins with. -/
theorem prefix_objectHash (P : Primitives) (kind : String) (payload : JsonValue) :
    "sha256:".toList <+: (objectHash P kind payload).toList := by
  simp only [objectHash, hashObjectCanonical, hashBytes, String.toList_append]
  exact List.prefix_append _ _

/-- Values that are read back as they are have different hashes. -/
theorem objectHash_value_inj {kind' : String} {payload' : JsonValue}
    (fixed : Fixed plain.floatText payload) (fixed' : Fixed plain.floatText payload')
    (same : objectHash plain kind payload = objectHash plain kind' payload') :
    payload = payload' := by
  have texts := (objectHash_inj plain_reliable same).2
  have parsed := plain_reads.mpr fixed.symm
  rw [Primitives.Reads, texts] at parsed
  exact (plain_reads.mp parsed).trans fixed'

end Stored

end CodeDb

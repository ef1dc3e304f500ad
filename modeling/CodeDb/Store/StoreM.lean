import CodeDb.Lib.Except
import CodeDb.Store.Objects

/-!
# Actions on the store

The appliers of operations read objects and store new ones, and may fail on the
way. They never remove or replace an object, and what they store they store under
its hash. An action carries the proof of that, so whatever is composed of actions
has it too.

## Main definitions

* `Addressed` — every object is stored under its hash
* `Grows` — a store that kept every object, and is addressed if it was
* `StoreM` — actions that may fail, and otherwise grow the store

## Main results

* `StoreM.run_bind` — the two stages of a successful action
* `StoreM.run_read_bind`, `StoreM.run_lift_bind` — the first stage leaves the store
* `lookup_putObject` — what is stored is found under its hash
-/

namespace CodeDb

variable {P : Primitives}

/-- Every object is stored under the hash of its kind and its canonical text, in the schema that
objects are put in. -/
def Addressed (P : Primitives) (objects : Objects) : Prop :=
  ∀ hash object, objects.lookup hash = some object → ∃ payload,
    object = ⟨object.kind, schemaVersion, canonicalJson P.floatText payload⟩ ∧
      hash = objectHash P object.kind payload

/-- One store has grown into another. -/
structure Grows (P : Primitives) (before after : Objects) : Prop where
  kept : ∀ hash object, before.lookup hash = some object → after.lookup hash = some object
  addressed : Addressed P before → Addressed P after

namespace Grows

@[refl] theorem refl (objects : Objects) : Grows P objects objects := ⟨fun _ _ => id, id⟩

theorem trans {a b c : Objects} (ab : Grows P a b) (bc : Grows P b c) : Grows P a c :=
  ⟨fun hash object found => bc.kept hash object (ab.kept hash object found),
    fun addressed => bc.addressed (ab.addressed addressed)⟩

theorem getPayload {a b : Objects} (grows : Grows P a b) {hash : Hash} {payload : JsonValue}
    (read : CodeDb.getPayload P a hash = .ok payload) :
    CodeDb.getPayload P b hash = .ok payload := by
  cases found : a.lookup hash with
  | none => simp [CodeDb.getPayload, found] at read
  | some object => simpa [CodeDb.getPayload, found, grows.kept hash object found] using read

theorem getKind {a b : Objects} (grows : Grows P a b) {hash : Hash} {kind : String}
    (read : CodeDb.getKind a hash = .ok kind) : CodeDb.getKind b hash = .ok kind := by
  cases found : a.lookup hash with
  | none => simp [CodeDb.getKind, found] at read
  | some object => simpa [CodeDb.getKind, found, grows.kept hash object found] using read

theorem loadRoot {a b : Objects} (grows : Grows P a b) {hash : Hash} {root : ProgramRootPayload}
    (read : CodeDb.loadRoot P a hash = .ok root) : CodeDb.loadRoot P b hash = .ok root := by
  obtain ⟨payload, read, rest⟩ := Except.bind_eq_ok.mp read
  exact Except.bind_eq_ok.mpr ⟨payload, grows.getPayload read, rest⟩

end Grows

theorem grows_putObject (objects : Objects) (kind : String) (payload : JsonValue) :
    Grows P objects (putObject P objects kind payload).2 := by
  constructor
  · intro hash object found
    simp only [putObject, insertOrIgnore]
    split_ifs with taken
    · exact found
    · have other : hash ≠ objectHash P kind payload := by
        rintro rfl
        exact taken (AList.lookup_isSome.mp (by simp [found]))
      rwa [AList.lookup_insert_ne other]
  · intro addressed hash object found
    simp only [putObject, insertOrIgnore] at found
    split_ifs at found with taken
    · exact addressed hash object found
    · by_cases same : hash = objectHash P kind payload
      · subst same
        rw [AList.lookup_insert] at found
        obtain rfl := Option.some.inj found
        exact ⟨payload, rfl, rfl⟩
      · rw [AList.lookup_insert_ne same] at found
        exact addressed hash object found

/-! ### Actions -/

/-- An action: what it computes, or why it fails, and the store it leaves. -/
structure StoreM (P : Primitives) (α : Type) where
  run : Objects → Except Error (α × Objects)
  grows : ∀ {before a after}, run before = .ok (a, after) → Grows P before after

namespace StoreM

variable {α β : Type} {s s' : Objects} {a : α} {b : β}

instance : Monad (StoreM P) where
  pure a :=
    { run := fun s => .ok (a, s)
      grows := fun run => by cases run; rfl }
  bind x f :=
    { run := fun s =>
        match x.run s with
        | .ok (a, s') => (f a).run s'
        | .error e => .error e
      grows := fun {s b s''} run => by
        cases stage : x.run s with
        | error e => simp [stage] at run
        | ok r => exact (x.grows stage).trans ((f r.1).grows (by simpa [stage] using run)) }

/-- Fail. -/
def fail (message : Error) : StoreM P α where
  run _ := .error message
  grows := nofun

/-- Read from the store. -/
def read (query : Objects → Except Error α) : StoreM P α where
  run s := (query s).map (·, s)
  grows run := by
    obtain ⟨_, -, same⟩ := Except.map_eq_ok.mp run
    cases same
    rfl

/-- Store an object, and return its hash. -/
def put (kind : String) (payload : JsonValue) : StoreM P Hash where
  run s := .ok (putObject P s kind payload)
  grows run := by
    have stored := Prod.mk.inj (Except.ok.inj run)
    exact stored.2 ▸ grows_putObject _ kind payload

instance : MonadLift (Except Error) (StoreM P) := ⟨fun e => read fun _ => e⟩

@[simp] theorem run_pure : (pure a : StoreM P α).run s = .ok (a, s) := rfl

theorem run_pure_iff {c : α} : (pure a : StoreM P α).run s = .ok (c, s') ↔ a = c ∧ s = s' := by
  simp

/-- A successful action went through two successful stages. -/
theorem run_bind {x : StoreM P α} {f : α → StoreM P β} :
    (x >>= f).run s = .ok (b, s') ↔
      ∃ a mid, x.run s = .ok (a, mid) ∧ (f a).run mid = .ok (b, s') := by
  change (match x.run s with
    | .ok (a, s') => (f a).run s'
    | .error e => .error e) = _ ↔ _
  cases x.run s with
  | error e => simp
  | ok r => cases r; simp

/-- What follows a successful stage. -/
theorem run_bind_ok {x : StoreM P α} {f : α → StoreM P β} (stage : x.run s = .ok (a, s')) :
    (x >>= f).run s = (f a).run s' := by
  change (match x.run s with
    | .ok (a, s') => (f a).run s'
    | .error e => .error e) = _
  rw [stage]

/-- The first stage of a successful action grew the store for the second. -/
theorem run_stage {x : StoreM P α} {f : α → StoreM P β} (run : (x >>= f).run s = .ok (b, s')) :
    ∃ a mid, x.run s = .ok (a, mid) ∧ Grows P s mid ∧ (f a).run mid = .ok (b, s') := by
  obtain ⟨a, mid, stage, rest⟩ := run_bind.mp run
  exact ⟨a, mid, stage, x.grows stage, rest⟩

@[simp] theorem run_fail {message : Error} :
    ((fail message : StoreM P α).run s = .ok (a, s')) ↔ False := by
  simp [fail]

theorem run_read {query : Objects → Except Error α} :
    (read query : StoreM P α).run s = .ok (a, s') ↔ query s = .ok a ∧ s' = s := by
  simp only [read, Except.map_eq_ok, Prod.mk.injEq]
  constructor
  · rintro ⟨c, run, rfl, rfl⟩
    exact ⟨run, rfl⟩
  · rintro ⟨run, rfl⟩
    exact ⟨a, run, rfl, rfl⟩

theorem run_lift {e : Except Error α} :
    (liftM e : StoreM P α).run s = .ok (a, s') ↔ e = .ok a ∧ s' = s := run_read

theorem run_read_bind {query : Objects → Except Error α} {f : α → StoreM P β} :
    (read query >>= f).run s = .ok (b, s') ↔
      ∃ a, query s = .ok a ∧ (f a).run s = .ok (b, s') := by
  rw [run_bind]
  constructor
  · rintro ⟨a, _, stage, rest⟩
    obtain ⟨stage, rfl⟩ := run_read.mp stage
    exact ⟨a, stage, rest⟩
  · rintro ⟨a, stage, rest⟩
    exact ⟨a, s, run_read.mpr ⟨stage, rfl⟩, rest⟩

theorem run_lift_bind {e : Except Error α} {f : α → StoreM P β} :
    ((liftM e : StoreM P α) >>= f).run s = .ok (b, s') ↔
      ∃ a, e = .ok a ∧ (f a).run s = .ok (b, s') := run_read_bind

theorem run_put {kind : String} {payload : JsonValue} {hash : Hash} :
    (put kind payload : StoreM P Hash).run s = .ok (hash, s') ↔
      hash = objectHash P kind payload ∧ s' = (putObject P s kind payload).2 := by
  simp only [put, Except.ok.injEq, putObject, Prod.mk.injEq]
  constructor <;> rintro ⟨rfl, rfl⟩ <;> exact ⟨rfl, rfl⟩

/-- An action on every element of a list, in order. -/
def each (f : α → StoreM P β) : List α → StoreM P (List β)
  | [] => pure []
  | a :: rest => do
    let b ← f a
    let bs ← each f rest
    return b :: bs

theorem each_length {f : α → StoreM P β} {l : List α} {bs : List β}
    (run : (each f l).run s = .ok (bs, s')) : bs.length = l.length := by
  induction l generalizing s bs s' with
  | nil =>
    obtain ⟨rfl, -⟩ := run_pure_iff.mp run
    rfl
  | cons a rest ih =>
    obtain ⟨b, mid, -, run⟩ := run_bind.mp run
    obtain ⟨bs', mid', more, run⟩ := run_bind.mp run
    obtain ⟨rfl, -⟩ := run_pure_iff.mp run
    simp [ih more]

end StoreM

/-! ### What is stored -/

theorem objectHash_inj (reliable : P.Reliable) {kind kind' : String} {payload payload' : JsonValue}
    (same : objectHash P kind payload = objectHash P kind' payload') :
    kind = kind' ∧ canonicalJson P.floatText payload = canonicalJson P.floatText payload' :=
  hashObjectCanonical_inj reliable
    (by simpa [canonicalJson] using canonicalChars_plain reliable.floats payload)
    (by simpa [canonicalJson] using canonicalChars_plain reliable.floats payload') same

/-- What is stored is found under its hash. -/
theorem lookup_putObject (reliable : P.Reliable) {objects : Objects}
    (addressed : Addressed P objects) (kind : String) (payload : JsonValue) :
    (putObject P objects kind payload).2.lookup (objectHash P kind payload) =
      some ⟨kind, schemaVersion, canonicalJson P.floatText payload⟩ := by
  simp only [putObject, insertOrIgnore]
  split_ifs with taken
  · obtain ⟨object, found⟩ := Option.isSome_iff_exists.mp (AList.lookup_isSome.mpr taken)
    obtain ⟨payload', text, same⟩ := addressed _ _ found
    obtain ⟨kinds, texts⟩ := objectHash_inj reliable same
    rw [found, text, kinds, texts]
  · exact AList.lookup_insert _

end CodeDb

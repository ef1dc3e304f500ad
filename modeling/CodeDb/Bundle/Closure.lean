import CodeDb.Bundle.Document
import CodeDb.Lib.Except
import CodeDb.Lib.Worklist

/-!
# The objects of a bundle

A bundle must carry the objects its roots are made of, and no others: neither may an object be
missing that another refers to, nor may there be one that nothing refers to. Besides the roots only
the inputs of artifacts count, and what is brought along for their sake alone must be of a kind
that artifacts are computed from.

## Main definitions

* `bundleObjectClosureFromMap` — the search along references
* `validateBundleObjectClosure` — the check
* `BundleRefs`, `BundleDocument.IsInput` — references, and inputs of artifacts
* `BundleClosed` — what a bundle should carry

## Main results

* `bundleObjectClosureFromMap_eq_ok_iff` — what the search finds
* `validateBundleObjectClosure_exact` — what the check admits
-/

namespace CodeDb

open SortOn Worklist

variable {P : Primitives}

/-! ### The search -/

/-- The objects reached from a stack of hashes, its top first. -/
def closureFrom (objects : BundleObjects) : List Hash → List Hash → Except Error (List Hash)
  | [], seen => .ok seen
  | hash :: stack, seen =>
    if hash ∈ seen then closureFrom objects stack seen
    else
      match _found : objects.lookup hash with
      | none => .error ("bad_bundle_closure: missing object " ++ hash)
      | some object =>
        let refs := collectBundleObjectRefs object.kind object.payload
        match refs.find? (· ∉ objects) with
        | some childHash =>
          .error ("bad_bundle_closure: missing object " ++ childHash ++ " referenced by " ++ hash)
        | none =>
          closureFrom objects ((refs.filter (· ∉ hash :: seen)).reverse ++ stack) (hash :: seen)
termination_by stack seen => ((objects.keys.toFinset \ seen.toFinset).card, stack.length)
decreasing_by
  · exact Prod.Lex.right _ (by simp)
  · -- an object met for the first time: one object fewer is left
    rename_i fresh
    have present : hash ∈ objects.keys.toFinset := by
      have : hash ∈ objects := AList.lookup_isSome.mp (by simp [_found])
      simpa using AList.mem_keys.mp this
    refine Prod.Lex.left _ _ (Finset.card_lt_card ?_)
    rw [List.toFinset_cons, Finset.sdiff_insert]
    exact Finset.erase_ssubset (Finset.mem_sdiff.mpr ⟨present, by simpa using fresh⟩)

/-- The objects that are reached from some roots. -/
def bundleObjectClosureFromMap (roots : List Hash) (objects : BundleObjects) :
    Except Error (List Hash) :=
  closureFrom objects (sortOn id roots).reverse []

/-! ### The check -/

/-- The roots a bundle is about. -/
def bundleRoots (document : BundleDocument P) : List Hash :=
  (document.manifest.rootHash ::
    document.migrations.flatMap fun row => [row.inputRootHash, row.outputRootHash]).dedup

def validateArtifactInputObject (object : BundleObject) : Except Error Unit :=
  bundleCheck (artifactInputObjectKindIsSupported object)
    ("bad_bundle_closure: artifact input object " ++ object.hash ++ " has unsupported kind " ++
      object.kind)

section Artifacts

variable (readInputHash : JsonValue → Except Error Hash) (objects : BundleObjects)

/-- The inputs of artifacts that the roots are not made of. -/
def artifactInputs (rootClosure : List Hash) : List BundleArtifact → Except Error (List Hash)
  | [] => .ok []
  | artifact :: rest =>
    match readInputHash artifact.cacheKeyInput with
    | .error err =>
      .error ("bad_bundle_artifact: invalid cache key " ++ artifact.cacheKey ++ ": " ++ err)
    | .ok inputHash =>
      if inputHash ∈ rootClosure then artifactInputs rootClosure rest
      else
        match objects.lookup inputHash with
        | none => .error ("bad_bundle_closure: missing artifact input object " ++ inputHash)
        | some object => do
          validateArtifactInputObject object
          let inputs ← artifactInputs rootClosure rest
          return inputHash :: inputs

/-- The inputs of the artifacts a bundle includes. -/
def BundleDocument.inputsFrom (document : BundleDocument P) (rootClosure : List Hash) :
    Except Error (List Hash) :=
  if document.manifest.artifactCacheIncluded then
    artifactInputs readInputHash objects rootClosure document.artifactCache
  else .ok []

/-- Whatever is there for the sake of artifacts alone is of a supported kind. -/
def validateArtifactObjects (hashes : List Hash) : Except Error Unit :=
  hashes.forM fun hash =>
    match objects.lookup hash with
    | none => .error ("bad_bundle_closure: missing artifact input object " ++ hash)
    | some object => validateArtifactInputObject object

/-- The objects a bundle should carry. -/
def expectedBundleObjectSet (document : BundleDocument P) (rootClosure : List Hash) :
    Except Error (List Hash) := do
  let inputs ← document.inputsFrom readInputHash objects rootClosure
  let expected ← bundleObjectClosureFromMap (rootClosure ++ inputs) objects
  validateArtifactObjects objects (sortOn id (expected.filter (· ∉ rootClosure)))
  return expected

/-- A bundle carries the objects it should. -/
def validateBundleObjectClosure (document : BundleDocument P) : Except Error Unit := do
  let rootClosure ← bundleObjectClosureFromMap (bundleRoots document) objects
  let expected ← expectedBundleObjectSet readInputHash objects document rootClosure
  let actual := objects.keys
  let missing := ",".intercalate (sortOn id (expected.filter (· ∉ actual)))
  let extra := ",".intercalate (sortOn id (actual.filter (· ∉ expected)))
  bundleCheck (expected.toFinset = actual.toFinset)
    ("bad_bundle_closure: object set does not match root closure; missing [" ++ missing ++
      "], extra [" ++ extra ++ "]")

end Artifacts

variable {readInputHash : JsonValue → Except Error Hash} {objects : BundleObjects}

/-! ### What the search finds -/

/-- An object of a bundle refers to a hash. -/
def BundleRefs (objects : BundleObjects) (a b : Hash) : Prop :=
  ∃ object, objects.lookup a = some object ∧ b ∈ collectBundleObjectRefs object.kind object.payload

theorem closureFrom_missing {hash : Hash} {stack seen : List Hash} (new : hash ∉ seen)
    (absent : objects.lookup hash = none) :
    closureFrom objects (hash :: stack) seen =
      .error ("bad_bundle_closure: missing object " ++ hash) := by
  rw [closureFrom, if_neg new]
  split
  · rfl
  · rename_i found
    simp [absent] at found

theorem closureFrom_object {hash : Hash} {seen : List Hash} {object : BundleObject}
    (new : hash ∉ seen) (found : objects.lookup hash = some object) (stack : List Hash) :
    closureFrom objects (hash :: stack) seen =
      match (collectBundleObjectRefs object.kind object.payload).find? (· ∉ objects) with
      | some childHash =>
        .error ("bad_bundle_closure: missing object " ++ childHash ++ " referenced by " ++ hash)
      | none =>
        closureFrom objects (((collectBundleObjectRefs object.kind object.payload).filter
          (· ∉ hash :: seen)).reverse ++ stack) (hash :: seen) := by
  rw [closureFrom, if_neg new]
  split
  · rename_i absent
    simp [found] at absent
  · rename_i other
    obtain rfl := Option.some.inj (found.symm.trans other)
    rfl

/-- The search either sees all that is reached, which is there, or comes to something missing. -/
theorem closureFrom_spec {start : Set Hash} (stack seen : List Hash)
    (search : Searching (BundleRefs objects) start {h | h ∈ seen} {h | h ∈ stack})
    (present : ∀ h ∈ seen, h ∈ objects) :
    (∃ final, closureFrom objects stack seen = .ok final ∧
      Searching (BundleRefs objects) start {h | h ∈ final} ∅ ∧ ∀ h ∈ final, h ∈ objects) ∨
    (∃ error, closureFrom objects stack seen = .error error) ∧
      ∃ h, Reached (BundleRefs objects) start h ∧ h ∉ objects := by
  -- as the search goes: what is seen and what waits are all that is reached so far
  induction stack, seen using closureFrom.induct objects with
  | case1 seen =>
    exact Or.inl ⟨seen, by unfold closureFrom; rfl, by simpa using search, present⟩
  | case2 hash stack seen old ih =>
    rw [waiting_cons] at search
    rw [closureFrom, if_pos old]
    exact ih (search.skip old) present
  | case3 hash stack seen new absent =>
    exact Or.inr ⟨⟨_, closureFrom_missing new absent⟩, hash,
      search.sound hash (Or.inr List.mem_cons_self), AList.lookup_eq_none.mp absent⟩
  | case4 hash stack seen new object found refs child missing =>
    have mentioned : child ∈ refs := List.mem_of_find?_eq_some missing
    have here : Reached (BundleRefs objects) start hash :=
      search.sound hash (Or.inr List.mem_cons_self)
    have run := closureFrom_object new found stack
    rw [show List.find? _ _ = some child from missing] at run
    exact Or.inr ⟨⟨_, run⟩, child, here.step ⟨object, found, mentioned⟩,
      by simpa using List.find?_some missing⟩
  | case5 hash stack seen new object found refs complete ih =>
    rw [waiting_cons] at search
    have there : hash ∈ objects := AList.lookup_isSome.mp (by simp [found])
    have run := closureFrom_object new found stack
    rw [show List.find? _ _ = none from complete] at run
    rw [run]
    refine ih ?_ (List.forall_mem_cons.mpr ⟨there, present⟩)
    rw [waiting_cons]
    -- what the object refers to waits now, unless it was seen
    refine search.visit (fun h mem => List.mem_append_right _ mem) (fun b mem => ?_)
      fun b refers => ?_
    · rcases List.mem_append.mp mem with new | old
      · exact Or.inr ⟨object, found, (List.mem_filter.mp (List.mem_reverse.mp new)).1⟩
      · exact Or.inl old
    · obtain ⟨object', found', mem⟩ := refers
      obtain rfl := Option.some.inj (found.symm.trans found')
      by_cases old : b ∈ hash :: seen
      · exact Or.inl (by simpa using old)
      · refine Or.inr (List.mem_append_left _ (List.mem_reverse.mpr ?_))
        exact List.mem_filter.mpr ⟨mem, by simpa using old⟩

/-- The search succeeds exactly if nothing that is reached is missing, and it finds what is
reached. -/
theorem bundleObjectClosureFromMap_spec (objects : BundleObjects) (roots : List Hash) :
    (∃ final, bundleObjectClosureFromMap roots objects = .ok final ∧
      (∀ h, h ∈ final ↔ Reached (BundleRefs objects) {h | h ∈ roots} h) ∧
      ∀ h, Reached (BundleRefs objects) {h | h ∈ roots} h → h ∈ objects) ∨
    (∃ error, bundleObjectClosureFromMap roots objects = .error error) ∧
      ∃ h, Reached (BundleRefs objects) {h | h ∈ roots} h ∧ h ∉ objects := by
  have waiting : {h | h ∈ (sortOn id roots).reverse} = {h | h ∈ roots} := by
    ext h
    simp [mem_sortOn]
  have begin : Searching (BundleRefs objects) {h | h ∈ roots} {h | h ∈ ([] : List Hash)}
      {h | h ∈ (sortOn id roots).reverse} := by
    rw [waiting]
    simpa using Searching.init
  -- a search with nothing left to look at has seen all that is reached
  rcases closureFrom_spec _ _ begin (by simp) with ⟨final, run, done, present⟩ | failed
  · exact Or.inl ⟨final, run, fun h => done.mem_iff,
      fun h reached => present h (done.mem_iff.mpr reached)⟩
  · exact Or.inr failed

/-- What a successful search found. -/
theorem mem_bundleObjectClosureFromMap {roots final : List Hash}
    (run : bundleObjectClosureFromMap roots objects = .ok final) :
    (∀ h, h ∈ final ↔ Reached (BundleRefs objects) {h | h ∈ roots} h) ∧
      ∀ h, Reached (BundleRefs objects) {h | h ∈ roots} h → h ∈ objects := by
  rcases bundleObjectClosureFromMap_spec objects roots with
    ⟨final', run', spec⟩ | ⟨⟨error, run'⟩, -⟩
  · obtain rfl := Except.ok.inj (run.symm.trans run')
    exact spec
  · simp [run] at run'

/-- A search that misses nothing succeeds. -/
theorem exists_bundleObjectClosureFromMap {roots : List Hash}
    (present : ∀ h, Reached (BundleRefs objects) {h | h ∈ roots} h → h ∈ objects) :
    ∃ final, bundleObjectClosureFromMap roots objects = .ok final := by
  rcases bundleObjectClosureFromMap_spec objects roots with
    ⟨final, run, -⟩ | ⟨-, h, reached, missing⟩
  · exact ⟨final, run⟩
  · exact absurd (present h reached) missing

/-! ### What the check admits -/

/-- An object is there, and of a kind artifacts are computed from. -/
def SupportedInput (objects : BundleObjects) (h : Hash) : Prop :=
  ∃ object, objects.lookup h = some object ∧ artifactInputObjectKindIsSupported object = true

/-- The hash of the input of an artifact of a bundle. -/
def BundleDocument.IsInput (document : BundleDocument P)
    (readInputHash : JsonValue → Except Error Hash) (h : Hash) : Prop :=
  document.manifest.artifactCacheIncluded = true ∧
    ∃ artifact ∈ document.artifactCache, readInputHash artifact.cacheKeyInput = .ok h

/-- What is checked of the inputs of artifacts. -/
theorem artifactInputs_eq_ok {rootClosure inputs : List Hash} {artifacts : List BundleArtifact}
    (run : artifactInputs readInputHash objects rootClosure artifacts = .ok inputs) :
    (∀ artifact ∈ artifacts, ∃ h, readInputHash artifact.cacheKeyInput = .ok h ∧
      (h ∈ rootClosure ∨ h ∈ inputs)) ∧
    ∀ h ∈ inputs, ∃ artifact ∈ artifacts, readInputHash artifact.cacheKeyInput = .ok h := by
  induction artifacts generalizing inputs with
  | nil =>
    obtain rfl : [] = inputs := Except.ok.inj run
    simp
  | cons artifact rest ih =>
    rw [artifactInputs] at run
    split at run
    · simp at run
    · rename_i inputHash read
      -- an input that belongs to the roots is not collected a second time
      split_ifs at run with old
      · obtain ⟨all, only⟩ := ih run
        refine ⟨List.forall_mem_cons.mpr ⟨⟨inputHash, read, Or.inl old⟩, all⟩, fun h mem => ?_⟩
        obtain ⟨other, listed, read'⟩ := only h mem
        exact ⟨other, List.mem_cons_of_mem _ listed, read'⟩
      · split at run
        · simp at run
        · obtain ⟨_, -, run⟩ := Except.bind_eq_ok.mp run
          obtain ⟨inputs', run', result⟩ := Except.bind_eq_ok.mp run
          obtain rfl := Except.pure_eq_ok.mp result
          obtain ⟨all, only⟩ := ih run'
          constructor
          · refine List.forall_mem_cons.mpr
              ⟨⟨inputHash, read, Or.inr List.mem_cons_self⟩, fun other listed => ?_⟩
            obtain ⟨h, read', there⟩ := all other listed
            exact ⟨h, read', there.imp_right (List.mem_cons_of_mem _)⟩
          · intro h mem
            rcases List.mem_cons.mp mem with rfl | mem
            · exact ⟨artifact, List.mem_cons_self, read⟩
            · obtain ⟨other, listed, read'⟩ := only h mem
              exact ⟨other, List.mem_cons_of_mem _ listed, read'⟩

/-- Inputs that are read and supported, or belong to the roots, pass. -/
theorem exists_artifactInputs {rootClosure : List Hash} {artifacts : List BundleArtifact}
    (all : ∀ artifact ∈ artifacts, ∃ h, readInputHash artifact.cacheKeyInput = .ok h ∧
      (h ∈ rootClosure ∨ SupportedInput objects h)) :
    ∃ inputs, artifactInputs readInputHash objects rootClosure artifacts = .ok inputs := by
  induction artifacts with
  | nil => exact ⟨[], rfl⟩
  | cons artifact rest ih =>
    obtain ⟨⟨h, read, here⟩, others⟩ := List.forall_mem_cons.mp all
    obtain ⟨inputs, run⟩ := ih others
    simp only [artifactInputs, read]
    split_ifs with old
    · exact ⟨inputs, run⟩
    · obtain ⟨object, found, supported⟩ := here.resolve_left old
      have checked : validateArtifactInputObject object = .ok () := bundleCheck_eq_ok.mpr supported
      simp only [found, checked, run]
      exact ⟨_, rfl⟩

theorem validateArtifactObjects_eq_ok {hashes : List Hash} {u : Unit} :
    validateArtifactObjects objects hashes = .ok u ↔ ∀ h ∈ hashes, SupportedInput objects h := by
  rw [validateArtifactObjects, Except.forM_eq_ok]
  refine forall₂_congr fun h _ => ?_
  cases found : objects.lookup h with
  | none => simp [SupportedInput, found]
  | some object => simp [SupportedInput, found, validateArtifactInputObject]

/-- What the check looks for: all that is reached from the roots or the input of an artifact. -/
theorem reached_inputsFrom {document : BundleDocument P} {rootClosure inputs : List Hash}
    (roots : ∀ h, h ∈ rootClosure ↔
      Reached (BundleRefs objects) {h | h ∈ bundleRoots document} h)
    (run : document.inputsFrom readInputHash objects rootClosure = .ok inputs) {h : Hash} :
    Reached (BundleRefs objects) {h | h ∈ rootClosure ++ inputs} h ↔
      Reached (BundleRefs objects)
        {h | h ∈ bundleRoots document ∨ document.IsInput readInputHash h} h := by
  have all : ∀ h, document.IsInput readInputHash h → h ∈ rootClosure ++ inputs := by
    rintro h ⟨included, artifact, listed, read⟩
    rw [BundleDocument.inputsFrom, if_pos included] at run
    obtain ⟨h', read', there⟩ := (artifactInputs_eq_ok run).1 artifact listed
    obtain rfl := Except.ok.inj (read.symm.trans read')
    exact List.mem_append.mpr there
  have only : ∀ h ∈ inputs, document.IsInput readInputHash h := by
    intro h mem
    rw [BundleDocument.inputsFrom] at run
    split_ifs at run with included
    · exact ⟨included, (artifactInputs_eq_ok run).2 h mem⟩
    · obtain rfl := Except.ok.inj run
      simp at mem
  -- the closure of the roots may be started from, as it is reached from them
  constructor
  · intro reached
    refine reached.trans fun s mem => ?_
    rcases List.mem_append.mp mem with root | input
    · exact ((roots s).mp root).trans fun s mem => .of_mem (Or.inl mem)
    · exact .of_mem (Or.inr (only s input))
  · intro reached
    refine reached.trans fun s mem => ?_
    rcases mem with root | input
    · exact .of_mem (List.mem_append_left _ ((roots s).mpr (.of_mem root)))
    · exact .of_mem (all s input)

/-- What a bundle that is admitted carries. -/
structure BundleClosed (objects : BundleObjects) (readInputHash : JsonValue → Except Error Hash)
    (document : BundleDocument P) : Prop where
  /-- The keys of the artifacts it includes are read. -/
  keys : document.manifest.artifactCacheIncluded = true → ∀ artifact ∈ document.artifactCache,
    ∃ h, readInputHash artifact.cacheKeyInput = .ok h
  /-- Its objects are those reached from its roots and the inputs of its artifacts. -/
  carried : ∀ h, h ∈ objects ↔ Reached (BundleRefs objects)
    {h | h ∈ bundleRoots document ∨ document.IsInput readInputHash h} h
  /-- Those that are not reached from its roots are of a kind artifacts are computed from. -/
  supported : ∀ h ∈ objects, Reached (BundleRefs objects) {h | h ∈ bundleRoots document} h ∨
    SupportedInput objects h

theorem bundleClosed_of_validate {document : BundleDocument P}
    (run : validateBundleObjectClosure readInputHash objects document = .ok ()) :
    BundleClosed objects readInputHash document := by
  obtain ⟨rootClosure, closed, run⟩ := Except.bind_eq_ok.mp run
  obtain ⟨expected, expects, same⟩ := Except.bind_eq_ok.mp run
  unfold expectedBundleObjectSet at expects
  obtain ⟨inputs, taken, rest⟩ := Except.bind_eq_ok.mp expects
  obtain ⟨expected', closed', rest⟩ := Except.bind_eq_ok.mp rest
  obtain ⟨_, supported, result⟩ := Except.bind_eq_ok.mp rest
  obtain rfl : expected' = expected := Except.pure_eq_ok.mp result
  -- the first search finds what the roots reach, the second what the bundle may carry
  obtain ⟨roots, -⟩ := mem_bundleObjectClosureFromMap closed
  obtain ⟨found, -⟩ := mem_bundleObjectClosureFromMap closed'
  have equal : ∀ h, h ∈ objects ↔ h ∈ expected' := by
    intro h
    have sets := Finset.ext_iff.mp (bundleCheck_eq_ok.mp same) h
    rw [List.mem_toFinset, List.mem_toFinset] at sets
    exact sets.symm
  refine ⟨fun included artifact listed => ?_, fun h => ?_, fun h mem => ?_⟩
  · rw [BundleDocument.inputsFrom, if_pos included] at taken
    obtain ⟨h, read, -⟩ := (artifactInputs_eq_ok taken).1 artifact listed
    exact ⟨h, read⟩
  · rw [equal, found, reached_inputsFrom roots taken]
  · by_cases old : h ∈ rootClosure
    · exact Or.inl ((roots h).mp old)
    · refine Or.inr (validateArtifactObjects_eq_ok.mp supported h ?_)
      rw [mem_sortOn, List.mem_filter]
      exact ⟨(equal h).mp mem, by simpa using old⟩

theorem BundleClosed.validate {document : BundleDocument P}
    (admitted : BundleClosed objects readInputHash document) :
    validateBundleObjectClosure readInputHash objects document = .ok () := by
  -- neither search comes to an object that is missing
  have rooted : ∀ h, Reached (BundleRefs objects) {h | h ∈ bundleRoots document} h →
      h ∈ objects := fun h reached =>
    (admitted.carried h).mpr (reached.trans fun s mem => .of_mem (Or.inl mem))
  obtain ⟨rootClosure, closed⟩ := exists_bundleObjectClosureFromMap rooted
  obtain ⟨roots, -⟩ := mem_bundleObjectClosureFromMap closed
  obtain ⟨inputs, taken⟩ :
      ∃ inputs, document.inputsFrom readInputHash objects rootClosure = .ok inputs := by
    rw [BundleDocument.inputsFrom]
    split_ifs with included
    · refine exists_artifactInputs fun artifact listed => ?_
      obtain ⟨h, reads⟩ := admitted.keys included artifact listed
      have there : h ∈ objects :=
        (admitted.carried h).mpr (.of_mem (Or.inr ⟨included, artifact, listed, reads⟩))
      exact ⟨h, reads, (admitted.supported h there).imp_left (roots h).mpr⟩
    · exact ⟨[], rfl⟩
  obtain ⟨expected, closed'⟩ : ∃ expected,
      bundleObjectClosureFromMap (rootClosure ++ inputs) objects = .ok expected :=
    exists_bundleObjectClosureFromMap fun h reached =>
      (admitted.carried h).mpr ((reached_inputsFrom roots taken).mp reached)
  obtain ⟨found, -⟩ := mem_bundleObjectClosureFromMap closed'
  have equal : ∀ h, h ∈ expected ↔ h ∈ objects := fun h => by
    rw [found, reached_inputsFrom roots taken, admitted.carried]
  refine Except.bind_eq_ok.mpr ⟨rootClosure, closed, Except.bind_eq_ok.mpr ⟨expected, ?_, ?_⟩⟩
  · refine Except.bind_eq_ok.mpr ⟨inputs, taken, Except.bind_eq_ok.mpr ⟨expected, closed',
      Except.bind_eq_ok.mpr ⟨(), validateArtifactObjects_eq_ok.mpr fun h mem => ?_, rfl⟩⟩⟩
    rw [mem_sortOn, List.mem_filter] at mem
    have new : h ∉ rootClosure := by simpa using mem.2
    exact (admitted.supported h ((equal h).mp mem.1)).resolve_left
      fun old => new ((roots h).mpr old)
  · refine bundleCheck_eq_ok.mpr (Finset.ext fun h => ?_)
    rw [List.mem_toFinset, List.mem_toFinset, equal]
    exact AList.mem_keys

/-- The check admits a bundle exactly if its objects are those that are reached from its roots and
from the inputs of its artifacts, and those that are not reached from the roots alone are of a kind
artifacts are computed from. -/
theorem validateBundleObjectClosure_exact (objects : BundleObjects)
    (readInputHash : JsonValue → Except Error Hash) (document : BundleDocument P) :
    validateBundleObjectClosure readInputHash objects document = .ok () ↔
      BundleClosed objects readInputHash document :=
  ⟨bundleClosed_of_validate, BundleClosed.validate⟩

end CodeDb

import CodeDb.Merge.Plan
import CodeDb.Store.RoundTrip

/-!
# The edges between objects

The database lists which object mentions which, next to the objects themselves. An object's edges
are worked out when it is put into the store, and only to objects that are there by then. A bundle
or a merge brings objects that mention each other in any order, so it works all their edges out
again once all are there. Verifying the database works out the edges of every object anew, and
compares.

## Main definitions

* `EdgeStore` — the objects and their edges
* `Transaction` — what changes them
* `verifyEdges` — the comparison

## Main results

* `Transaction.run_edges` — the edges after a transaction
* `edges_verified_iff` — the runs that are verified throughout
-/

namespace CodeDb

variable (P : Primitives)

/-- An object to store, whose payload is read back as it was written. -/
structure ReadableObject where
  kind : String
  payload : JsonValue
  readable : P.Reads payload payload

/-- The hash an object is stored under. -/
def ReadableObject.hash {P : Primitives} (o : ReadableObject P) : Hash :=
  objectHash P o.kind o.payload

/-- A row: an object mentions another, first at some place among the hashes it mentions. -/
structure EdgeRow where
  parentHash : Hash
  childHash : Hash
  edgePosition : ℕ
  deriving DecidableEq

/-! ### Working edges out -/

/-- The rows of the hashes an object mentions, from some place on. A hash counts where it is
mentioned first, if it is the hash of another stored object. -/
def referenceRows (objects : Objects) (parentHash : Hash) :
    ℕ → List Hash → List Hash → List EdgeRow
  | _, [], _ => []
  | position, childHash :: refs, seen =>
    if childHash ∈ seen then referenceRows objects parentHash (position + 1) refs seen
    else if childHash ∈ objects ∧ childHash ≠ parentHash then
      ⟨parentHash, childHash, position⟩ ::
        referenceRows objects parentHash (position + 1) refs (childHash :: seen)
    else referenceRows objects parentHash (position + 1) refs (childHash :: seen)

/-- The edges of an object. -/
def edgesOf (objects : Objects) (parentHash : Hash) (payload : JsonValue) : List EdgeRow :=
  referenceRows objects parentHash 0 (extractHashStrings payload) []

/-- Drop the edges of an object and work them out again. The object itself is stored, so that
its rows have no missing parent. -/
def refreshEdges (objects : Objects) (edges : List EdgeRow) (parentHash : Hash)
    (payload : JsonValue) : List EdgeRow :=
  edges.filter (·.parentHash ≠ parentHash) ++ edgesOf objects parentHash payload

/-- The objects and their edges. -/
structure EdgeStore where
  objects : Objects
  edges : List EdgeRow

namespace EdgeStore

variable {P}

/-- Store an object without its edges. -/
def insert (s : EdgeStore) (o : ReadableObject P) : EdgeStore :=
  { s with objects := (CodeDb.putObject P s.objects o.kind o.payload).2 }

/-- Work out the edges of an object. -/
def refresh (s : EdgeStore) (o : ReadableObject P) : EdgeStore :=
  { s with edges := refreshEdges s.objects s.edges o.hash o.payload }

/-- Put an object into the store. -/
def put (s : EdgeStore) (o : ReadableObject P) : EdgeStore := (s.insert o).refresh o

end EdgeStore

/-- What changes the store: an object is put into it, the objects of a bundle are inserted and
their edges worked out, or the objects of a merge are put into it and their edges worked out
again. -/
inductive Transaction where
  | put (o : ReadableObject P)
  | bundle (os : List (ReadableObject P))
  | merge (os : List (ReadableObject P))

namespace Transaction

variable {P}

/-- The objects a transaction stores. -/
def objects : Transaction P → List (ReadableObject P)
  | .put o => [o]
  | .bundle os | .merge os => os

def run (s : EdgeStore) : Transaction P → EdgeStore
  | .put o => s.put o
  | .bundle os => os.foldl .refresh (os.foldl .insert s)
  | .merge os => os.foldl .refresh (os.foldl .put s)

end Transaction

/-- The hashes and texts of the objects, by hash. -/
def payloadTexts (objects : Objects) : List (Hash × String) :=
  SortOn.sortOn (·.1) (objects.entries.map fun e => (e.1, e.2.payloadJson))

/-- The objects whose text cannot be read. -/
def corruptObjects (objects : Objects) : List Error :=
  (payloadTexts objects).filterMap fun row =>
    match P.parseJson row.2 with
    | .ok _ => none
    | .error err => some ("corrupt_object: cannot recompute edges for " ++ row.1 ++ ": " ++ err)

/-- The edges of all objects, worked out anew. -/
def expectedEdges (objects : Objects) : List EdgeRow :=
  (payloadTexts objects).flatMap fun row =>
    match P.parseJson row.2 with
    | .ok payload => edgesOf objects row.1 payload
    | .error _ => []

/-- What is wrong with the edges. -/
def verifyEdges (s : EdgeStore) : List Error :=
  let missingParent := (s.edges.filter (·.parentHash ∉ s.objects)).length
  let missingChild := (s.edges.filter (·.childHash ∉ s.objects)).length
  (if 0 < missingParent ∨ 0 < missingChild then
      ["missing_object: object_edges missing parents=" ++ toString missingParent ++
        " children=" ++ toString missingChild]
    else []) ++
  corruptObjects P s.objects ++
  (if (expectedEdges P s.objects).toFinset ≠ s.edges.toFinset then
      ["bad_index: object_edges mismatch"]
    else [])

variable {P}

/-! ### The rows -/

theorem mem_referenceRows {objects : Objects} {parentHash parent child : Hash}
    {position place : ℕ} {refs seen : List Hash} :
    ⟨parent, child, place⟩ ∈ referenceRows objects parentHash position refs seen ↔
      parent = parentHash ∧ child ∈ objects ∧ child ≠ parentHash ∧ child ∉ seen ∧
        ∃ n, refs.idxOf? child = some n ∧ place = position + n := by
  induction refs generalizing position seen with
  | nil => simp [referenceRows]
  | cons childHash refs ih =>
    rw [referenceRows]
    by_cases same : childHash = child
    · -- the hash at hand: it is listed here or not at all
      subst same
      have here : (childHash :: refs).idxOf? childHash = some 0 := by
        rw [List.idxOf?_cons, if_pos (beq_self_eq_true _)]
      rw [here]
      split_ifs with old stored
      · simp [ih, old]
      · simp [ih, old, stored]
      · simp only [ih, List.mem_cons, true_or, not_true, false_and, and_false, false_iff]
        rintro ⟨-, isStored, other, -⟩
        exact stored ⟨isStored, other⟩
    · have shifted : (childHash :: refs).idxOf? child = (refs.idxOf? child).map (· + 1) := by
        rw [List.idxOf?_cons, if_neg (by simpa using same)]
      have later : (∃ n, (childHash :: refs).idxOf? child = some n ∧ place = position + n) ↔
          ∃ n, refs.idxOf? child = some n ∧ place = position + 1 + n := by
        rw [shifted]
        constructor
        · rintro ⟨_, found, rfl⟩
          obtain ⟨n, found', rfl⟩ := Option.map_eq_some_iff.mp found
          exact ⟨n, found', by omega⟩
        · rintro ⟨n, found, rfl⟩
          exact ⟨n + 1, by rw [found]; rfl, by omega⟩
      have other : child ≠ childHash := Ne.symm same
      rw [later]
      split_ifs with old stored
      · exact ih
      · simp [ih, other]
      · simp [ih, other]

theorem mem_edgesOf {objects : Objects} {parentHash : Hash} {payload : JsonValue}
    {row : EdgeRow} : row ∈ edgesOf objects parentHash payload ↔
      row.parentHash = parentHash ∧ row.childHash ∈ objects ∧ row.childHash ≠ parentHash ∧
        (extractHashStrings payload).idxOf? row.childHash = some row.edgePosition := by
  obtain ⟨parent, child, place⟩ := row
  rw [edgesOf, mem_referenceRows]
  simp

/-- An object that mentions another stored one has an edge to it. -/
theorem exists_mem_edgesOf {objects : Objects} {parentHash child : Hash} {payload : JsonValue}
    (mentioned : child ∈ extractHashStrings payload) (stored : child ∈ objects)
    (other : child ≠ parentHash) :
    ∃ row ∈ edgesOf objects parentHash payload, row.childHash = child := by
  obtain ⟨place, found⟩ := Option.isSome_iff_exists.mp (List.isSome_idxOf?.mpr mentioned)
  exact ⟨⟨parentHash, child, place⟩, mem_edgesOf.mpr ⟨rfl, stored, other, found⟩, rfl⟩

/-- Edges mention what the object mentions. -/
theorem mentioned_of_mem_edgesOf {objects : Objects} {parentHash : Hash} {payload : JsonValue}
    {row : EdgeRow} (mem : row ∈ edgesOf objects parentHash payload) :
    row.childHash ∈ extractHashStrings payload :=
  List.isSome_idxOf?.mp (by rw [(mem_edgesOf.mp mem).2.2.2]; rfl)

/-! ### One transaction -/

/-- Objects with one hash have one payload. -/
theorem ReadableObject.payload_eq (reliable : P.Reliable) {o o' : ReadableObject P}
    (same : o.hash = o'.hash) : o.payload = o'.payload := by
  have texts := (objectHash_inj reliable same).2
  have read := o.readable
  rw [Primitives.Reads, texts] at read
  exact Except.ok.inj (read.symm.trans o'.readable)

namespace EdgeStore

variable {s : EdgeStore} {o : ReadableObject P} {os : List (ReadableObject P)}

theorem mem_refresh {row : EdgeRow} : row ∈ (s.refresh o).edges ↔
    row ∈ s.edges ∧ row.parentHash ≠ o.hash ∨ row ∈ edgesOf s.objects o.hash o.payload := by
  simp [refresh, refreshEdges]

theorem foldl_refresh_objects (s : EdgeStore) (os : List (ReadableObject P)) :
    (os.foldl refresh s).objects = s.objects := by
  induction os generalizing s with
  | nil => rfl
  | cons o os ih => exact ih (s.refresh o)

/-- Working the edges of some objects out replaces the edges of these objects. -/
theorem mem_foldl_refresh (reliable : P.Reliable) {row : EdgeRow} :
    row ∈ (os.foldl refresh s).edges ↔ row ∈ s.edges ∧ (∀ o ∈ os, row.parentHash ≠ o.hash) ∨
      ∃ o ∈ os, row ∈ edgesOf s.objects o.hash o.payload := by
  induction os generalizing s with
  | nil => simp
  | cons o os ih =>
    rw [List.foldl_cons, ih, mem_refresh]
    have objects : (s.refresh o).objects = s.objects := rfl
    rw [objects]
    constructor
    · rintro (⟨⟨old, other⟩ | new, others⟩ | ⟨o', mem, new⟩)
      · exact Or.inl ⟨old, List.forall_mem_cons.mpr ⟨other, others⟩⟩
      · exact Or.inr ⟨o, List.mem_cons_self, new⟩
      · exact Or.inr ⟨o', List.mem_cons_of_mem _ mem, new⟩
    · rintro (⟨old, others⟩ | ⟨o', mem, new⟩)
      · obtain ⟨other, others⟩ := List.forall_mem_cons.mp others
        exact Or.inl ⟨Or.inl ⟨old, other⟩, others⟩
      · rcases List.mem_cons.mp mem with rfl | mem
        · -- an object that comes again later has the same edges there
          by_cases again : ∃ o ∈ os, row.parentHash = o.hash
          · obtain ⟨later, listed, same⟩ := again
            have hashes : o'.hash = later.hash := (mem_edgesOf.mp new).1.symm.trans same
            refine Or.inr ⟨later, listed, ?_⟩
            rwa [← hashes, ← ReadableObject.payload_eq reliable hashes]
          · exact Or.inl ⟨Or.inr new, fun later listed same => again ⟨later, listed, same⟩⟩
        · exact Or.inr ⟨o', mem, new⟩

/-- What some objects add to a store: themselves, and nothing else. -/
structure Adds (os : List (ReadableObject P)) (before after : Objects) : Prop where
  grows : Grows P before after
  stored : Addressed P before → ∀ o ∈ os, Stored P after o.kind o.payload
  only : ∀ hash ∈ after, hash ∈ before ∨ ∃ o ∈ os, o.hash = hash

theorem adds_nil (objects : Objects) : Adds ([] : List (ReadableObject P)) objects objects where
  grows := .refl _
  stored _ _ mem := absurd mem List.not_mem_nil
  only _ mem := Or.inl mem

theorem adds_cons (reliable : P.Reliable) {objects after : Objects}
    (rest : Adds os (CodeDb.putObject P objects o.kind o.payload).2 after) :
    Adds (o :: os) objects after where
  grows := (grows_putObject _ _ _).trans rest.grows
  stored addressed := List.forall_mem_cons.mpr
    ⟨(Stored.put reliable addressed).grow rest.grows,
      rest.stored ((grows_putObject _ _ _).addressed addressed)⟩
  only hash mem := by
    rcases rest.only hash mem with old | ⟨o', listed, same⟩
    -- nothing but the object at hand can have come in with it
    · by_cases new : hash = o.hash
      · exact Or.inr ⟨o, List.mem_cons_self, new.symm⟩
      · refine Or.inl (AList.lookup_isSome.mp ?_)
        rw [← lookup_insertOrIgnore_of_ne objects _ new]
        exact AList.lookup_isSome.mpr old
    · exact Or.inr ⟨o', List.mem_cons_of_mem _ listed, same⟩

theorem adds_foldl_insert (reliable : P.Reliable) (s : EdgeStore) (os : List (ReadableObject P)) :
    Adds os s.objects (os.foldl insert s).objects := by
  induction os generalizing s with
  | nil => exact adds_nil _
  | cons o os ih => exact adds_cons reliable (ih (s.insert o))

theorem adds_foldl_put (reliable : P.Reliable) (s : EdgeStore) (os : List (ReadableObject P)) :
    Adds os s.objects (os.foldl put s).objects := by
  induction os generalizing s with
  | nil => exact adds_nil _
  | cons o os ih => exact adds_cons reliable (ih (s.put o))

theorem foldl_insert_edges (s : EdgeStore) (os : List (ReadableObject P)) :
    (os.foldl insert s).edges = s.edges := by
  induction os generalizing s with
  | nil => rfl
  | cons o os ih => exact ih (s.insert o)

/-- Putting objects into the store leaves the edges of the others. -/
theorem mem_foldl_put {row : EdgeRow} (others : ∀ o ∈ os, row.parentHash ≠ o.hash) :
    row ∈ (os.foldl put s).edges ↔ row ∈ s.edges := by
  induction os generalizing s with
  | nil => rfl
  | cons o os ih =>
    obtain ⟨other, others⟩ := List.forall_mem_cons.mp others
    rw [List.foldl_cons, ih others, put, mem_refresh]
    constructor
    · rintro (⟨old, -⟩ | new)
      · exact old
      · exact absurd (mem_edgesOf.mp new).1 other
    · exact fun old => Or.inl ⟨old, other⟩

end EdgeStore

namespace Transaction

open EdgeStore

variable {s : EdgeStore} {t : Transaction P}

theorem run_adds (reliable : P.Reliable) : Adds t.objects s.objects (t.run s).objects := by
  cases t with
  | put o => exact adds_cons reliable (adds_nil _)
  | bundle os =>
    rw [run, foldl_refresh_objects]
    exact adds_foldl_insert reliable s os
  | merge os =>
    rw [run, foldl_refresh_objects]
    exact adds_foldl_put reliable s os

/-- After a transaction the objects it stores have the edges of the store as it is then, and
the others those they had. -/
theorem run_edges (reliable : P.Reliable) {row : EdgeRow} : row ∈ (t.run s).edges ↔
    row ∈ s.edges ∧ (∀ o ∈ t.objects, row.parentHash ≠ o.hash) ∨
      ∃ o ∈ t.objects, row ∈ edgesOf (t.run s).objects o.hash o.payload := by
  cases t with
  | put o =>
    change row ∈ ((s.insert o).refresh o).edges ↔ _
    rw [mem_refresh]
    simp [objects, run, EdgeStore.put, EdgeStore.insert, refresh]
  | bundle os =>
    rw [run, foldl_refresh_objects, mem_foldl_refresh reliable, foldl_insert_edges]
    rfl
  | merge os =>
    rw [run, foldl_refresh_objects, mem_foldl_refresh reliable]
    refine or_congr ?_ Iff.rfl
    constructor
    · exact fun ⟨old, others⟩ => ⟨(mem_foldl_put others).mp old, others⟩
    · exact fun ⟨old, others⟩ => ⟨(mem_foldl_put others).mpr old, others⟩

end Transaction

/-! ### Verified states -/

namespace EdgeStore

/-- What every state keeps: its objects are read back as they were written, under their hashes, and
its edges are edges of its objects. -/
structure Kept (P : Primitives) (s : EdgeStore) : Prop where
  addressed : Addressed P s.objects
  readable : ∀ hash object, s.objects.lookup hash = some object → ∃ o : ReadableObject P,
    o.hash = hash ∧ object = ⟨o.kind, schemaVersion, canonicalJson P.floatText o.payload⟩
  edges : ∀ row ∈ s.edges, ∃ o : ReadableObject P, Stored P s.objects o.kind o.payload ∧
    row ∈ edgesOf s.objects o.hash o.payload

/-- All edges of the objects are listed. -/
def UpToDate (P : Primitives) (s : EdgeStore) : Prop :=
  ∀ o : ReadableObject P, Stored P s.objects o.kind o.payload →
    ∀ row ∈ edgesOf s.objects o.hash o.payload, row ∈ s.edges

/-- No object that a transaction leaves alone mentions one that it adds. -/
def LeavesUnmentioned (s : EdgeStore) (t : Transaction P) : Prop :=
  ∀ o : ReadableObject P, Stored P s.objects o.kind o.payload →
    (∀ o' ∈ t.objects, o'.hash ≠ o.hash) → ∀ child ∈ extractHashStrings o.payload,
      child ∈ (t.run s).objects → child ∈ s.objects

variable {s : EdgeStore} {t : Transaction P}

theorem kept_empty : Kept P ⟨∅, []⟩ where
  addressed _ _ found := by simp at found
  readable _ _ found := by simp at found
  edges _ mem := absurd mem List.not_mem_nil

theorem Kept.run (reliable : P.Reliable) (kept : Kept P s) : Kept P (t.run s) := by
  have adds := t.run_adds reliable (s := s)
  have stored := adds.stored kept.addressed
  refine ⟨adds.grows.addressed kept.addressed, fun hash object found => ?_, fun row mem => ?_⟩
  -- an object is an old one as it was, or one that the transaction stores
  · rcases adds.only hash (AList.lookup_isSome.mp (found ▸ rfl)) with old | ⟨o, listed, rfl⟩
    · obtain ⟨object', found'⟩ := Option.isSome_iff_exists.mp (AList.lookup_isSome.mpr old)
      have same := adds.grows.kept hash object' found'
      obtain rfl := Option.some.inj (same.symm.trans found)
      exact kept.readable hash object' found'
    · exact ⟨o, rfl, Option.some.inj (found.symm.trans (stored o listed))⟩
  -- an old edge is still one of its object, as both of its ends are still stored
  · rcases (t.run_edges reliable).mp mem with ⟨old, -⟩ | ⟨o, listed, new⟩
    · obtain ⟨o, isStored, edge⟩ := kept.edges row old
      refine ⟨o, isStored.grow adds.grows, mem_edgesOf.mpr ?_⟩
      obtain ⟨parent, child, other, place⟩ := mem_edgesOf.mp edge
      obtain ⟨object, found⟩ := Option.isSome_iff_exists.mp (AList.lookup_isSome.mpr child)
      exact ⟨parent, AList.lookup_isSome.mp (adds.grows.kept _ _ found ▸ rfl), other, place⟩
    · exact ⟨o, stored o listed, new⟩

/-- From a state whose edges are up to date a transaction leads to one exactly if no object it
leaves alone mentions one it adds. -/
theorem upToDate_run_iff (reliable : P.Reliable) (kept : Kept P s) (upToDate : UpToDate P s) :
    UpToDate P (t.run s) ↔ LeavesUnmentioned s t := by
  have adds := t.run_adds reliable (s := s)
  constructor
  · intro after o stored others child mentioned added
    -- the edge to what was added is listed, but no one can have written it
    by_contra absent
    have other : child ≠ o.hash := fun same => absent (same ▸ stored.mem)
    obtain ⟨row, edge, rfl⟩ := exists_mem_edgesOf mentioned added other
    have parent := (mem_edgesOf.mp edge).1
    rcases (t.run_edges reliable).mp (after o (stored.grow adds.grows) row edge) with
      ⟨old, -⟩ | ⟨o', listed, new⟩
    · obtain ⟨o', -, edge'⟩ := kept.edges row old
      exact absent (mem_edgesOf.mp edge').2.1
    · exact others o' listed ((mem_edgesOf.mp new).1.symm.trans parent)
  · intro unmentioned o stored row edge
    have parent := (mem_edgesOf.mp edge).1
    refine (t.run_edges reliable).mpr ?_
    -- the edges of what the transaction stores are worked out again
    by_cases rewritten : ∃ o' ∈ t.objects, o'.hash = o.hash
    · obtain ⟨o', listed, same⟩ := rewritten
      refine Or.inr ⟨o', listed, ?_⟩
      rwa [same, ReadableObject.payload_eq reliable same]
    · have others : ∀ o' ∈ t.objects, o'.hash ≠ o.hash := fun o' listed same =>
        rewritten ⟨o', listed, same⟩
      have old : Stored P s.objects o.kind o.payload := by
        have mem := (adds.only o.hash stored.mem).resolve_right rewritten
        obtain ⟨object, found⟩ := Option.isSome_iff_exists.mp (AList.lookup_isSome.mpr mem)
        have same := adds.grows.kept _ _ found
        exact found.trans (same.symm.trans stored)
      -- what is left alone mentions nothing new, so it has the edges that it had
      obtain ⟨-, child, other, place⟩ := mem_edgesOf.mp edge
      have here := unmentioned o old others row.childHash (mentioned_of_mem_edgesOf edge) child
      exact Or.inl ⟨upToDate o old row (mem_edgesOf.mpr ⟨parent, here, other, place⟩),
        fun o' listed same => others o' listed (same.symm.trans parent)⟩

/-- The texts of the objects are read back. -/
theorem Kept.mem_payloadTexts (kept : Kept P s) {hash : Hash} {text : String} :
    (hash, text) ∈ payloadTexts s.objects ↔ ∃ o : ReadableObject P, o.hash = hash ∧
      canonicalJson P.floatText o.payload = text ∧ Stored P s.objects o.kind o.payload := by
  rw [payloadTexts, SortOn.mem_sortOn, List.mem_map]
  constructor
  · rintro ⟨⟨hash, object⟩, mem, same⟩
    obtain ⟨rfl, rfl⟩ := Prod.mk.inj same
    have found : s.objects.lookup hash = some object := AList.mem_lookup_iff.mpr mem
    obtain ⟨o, rfl, rfl⟩ := kept.readable hash object found
    exact ⟨o, rfl, rfl, found⟩
  · rintro ⟨o, rfl, rfl, stored⟩
    exact ⟨⟨_, _⟩, AList.mem_lookup_iff.mp stored, rfl⟩

theorem Kept.corruptObjects_eq_nil (kept : Kept P s) : corruptObjects P s.objects = [] := by
  refine List.filterMap_eq_nil_iff.mpr fun ⟨hash, text⟩ mem => ?_
  obtain ⟨o, -, rfl, -⟩ := kept.mem_payloadTexts.mp mem
  have read : P.parseJson (canonicalJson P.floatText o.payload) = .ok o.payload := o.readable
  simp only [read]

theorem Kept.mem_expectedEdges (kept : Kept P s) {row : EdgeRow} :
    row ∈ expectedEdges P s.objects ↔ ∃ o : ReadableObject P,
      Stored P s.objects o.kind o.payload ∧ row ∈ edgesOf s.objects o.hash o.payload := by
  have read : ∀ o : ReadableObject P,
      P.parseJson (canonicalJson P.floatText o.payload) = .ok o.payload := fun o => o.readable
  rw [expectedEdges, List.mem_flatMap]
  constructor
  · rintro ⟨⟨hash, text⟩, mem, edge⟩
    obtain ⟨o, rfl, rfl, stored⟩ := kept.mem_payloadTexts.mp mem
    simp only [read o] at edge
    exact ⟨o, stored, edge⟩
  · rintro ⟨o, stored, edge⟩
    refine ⟨(o.hash, _), kept.mem_payloadTexts.mpr ⟨o, rfl, rfl, stored⟩, ?_⟩
    simpa only [read o] using edge

/-- Verifying a state finds nothing wrong exactly if its edges are up to date. -/
theorem verifyEdges_eq_nil_iff (kept : Kept P s) : verifyEdges P s = [] ↔ UpToDate P s := by
  -- no edge dangles and every text can be read, so it is the comparison that decides
  have parents : s.edges.filter (·.parentHash ∉ s.objects) = [] := by
    refine List.filter_eq_nil_iff.mpr fun row mem => ?_
    obtain ⟨o, stored, edge⟩ := kept.edges row mem
    have mem : o.hash ∈ s.objects := stored.mem
    simpa [(mem_edgesOf.mp edge).1] using mem
  have children : s.edges.filter (·.childHash ∉ s.objects) = [] := by
    refine List.filter_eq_nil_iff.mpr fun row mem => ?_
    obtain ⟨o, stored, edge⟩ := kept.edges row mem
    simpa using (mem_edgesOf.mp edge).2.1
  have compared : verifyEdges P s = [] ↔
      (expectedEdges P s.objects).toFinset = s.edges.toFinset := by
    rw [verifyEdges, parents, children, kept.corruptObjects_eq_nil]
    simp
  rw [compared, Finset.ext_iff]
  simp only [List.mem_toFinset, kept.mem_expectedEdges]
  constructor
  · exact fun same o stored row edge => (same row).mp ⟨o, stored, edge⟩
  · exact fun upToDate row => ⟨fun ⟨o, stored, edge⟩ => upToDate o stored row edge, kept.edges row⟩

/-! ### Runs -/

/-- The store after some transactions. -/
def after (transactions : List (Transaction P)) : EdgeStore :=
  transactions.foldl (fun s t => t.run s) ⟨∅, []⟩

theorem after_append (done : List (Transaction P)) (t : Transaction P) :
    after (done ++ [t]) = t.run (after done) := by
  simp [after]

theorem kept_after (reliable : P.Reliable) (transactions : List (Transaction P)) :
    Kept P (after transactions) := by
  induction transactions using List.reverseRecOn with
  | nil => exact kept_empty
  | append_singleton done t ih =>
    rw [after_append]
    exact ih.run reliable

/-- Every state of a run is verified exactly if no transaction adds an object that is mentioned by
one it leaves alone. -/
theorem edges_verified_iff (reliable : P.Reliable) (transactions : List (Transaction P)) :
    (∀ done, done <+: transactions → verifyEdges P (after done) = []) ↔
      ∀ done t, done ++ [t] <+: transactions → LeavesUnmentioned (after done) t := by
  have verified : ∀ done : List (Transaction P), verifyEdges P (after done) = [] ↔
      UpToDate P (after done) := fun done => verifyEdges_eq_nil_iff (kept_after reliable done)
  simp only [verified]
  constructor
  -- the step that is verified before and after leaves alone what it may
  · intro all done t run
    have before := all done ((List.prefix_append _ _).trans run)
    refine (upToDate_run_iff reliable (kept_after reliable done) before).mp ?_
    rw [← after_append]
    exact all _ run
  · intro all done
    induction done using List.reverseRecOn with
    | nil =>
      rintro - o stored
      simp [after, Stored] at stored
    | append_singleton done t ih =>
      intro run
      have before := ih ((List.prefix_append _ _).trans run)
      rw [after_append]
      exact (upToDate_run_iff reliable (kept_after reliable done) before).mpr (all done t run)

/-- An object that mentions nothing. -/
def blank : ReadableObject plain := ⟨"Blank", .array [], plain_reads.mpr (by decide)⟩

/-- An object that mentions it. -/
def mention : ReadableObject plain where
  kind := "Mention"
  payload := .array ([blank.hash].map .string)
  readable := plain_reads.mpr (Fixed.array Fixed.string [blank.hash]).symm

theorem blank_ne_mention : blank.hash ≠ mention.hash := fun same =>
  absurd (objectHash_inj plain_reliable same).1 (by decide)

theorem extract_mention : extractHashStrings mention.payload = [blank.hash] := by
  have prefixed : "sha256:".toList.isPrefixOf blank.hash.toList = true :=
    List.isPrefixOf_iff_prefix.mpr (prefix_objectHash _ _ _)
  simp only [mention, List.map, extractHashStrings, extractFromList, if_pos prefixed,
    List.append_nil]

/-- What is stored stays when an object is added. -/
theorem mem_insert {s : EdgeStore} (o : ReadableObject P) {hash : Hash} (mem : hash ∈ s.objects) :
    hash ∈ (s.insert o).objects := by
  obtain ⟨object, found⟩ := Option.isSome_iff_exists.mp (AList.lookup_isSome.mpr mem)
  have kept : (s.insert o).objects.lookup hash = some object :=
    (grows_putObject s.objects o.kind o.payload).kept _ _ found
  exact AList.lookup_isSome.mp (by rw [kept]; rfl)

/-- In a store that one object was put in, that one is stored and nothing else. -/
theorem mem_after_put {o : ReadableObject plain} {hash : Hash} :
    hash ∈ (after [Transaction.put o]).objects ↔ hash = o.hash := by
  have stored : Stored plain (after [Transaction.put o]).objects o.kind o.payload :=
    Stored.put plain_reliable (kept_empty (P := plain)).addressed
  constructor
  · intro mem
    by_contra other
    have absent : (after [Transaction.put o]).objects.lookup hash = (∅ : Objects).lookup hash :=
      lookup_insertOrIgnore_of_ne ∅ _ other
    exact AList.lookup_eq_none.mp absent mem
  · rintro rfl
    exact stored.mem

/-- An object and another one that mentions it, in both orders: if what is mentioned comes last, the
edge to it is missing. -/
theorem edges_verified_iff_mention :
    (∀ done, done <+: [Transaction.put blank, .put mention] →
      verifyEdges plain (after done) = []) ∧
    (∃ row ∈ (after [Transaction.put blank, .put mention]).edges,
      row.parentHash = mention.hash ∧ row.childHash = blank.hash) ∧
    ¬ ∀ done, done <+: [Transaction.put mention, .put blank] →
      verifyEdges plain (after done) = [] := by
  refine ⟨?_, ?_, fun all => ?_⟩
  · refine (edges_verified_iff plain_reliable _).mpr fun done t run o stored others child => ?_
    obtain ⟨rest, same⟩ := run
    -- before the first there is nothing, and before the second what mentions nothing
    match done with
    | [] => simp [after, Stored] at stored
    | [first] =>
      obtain rfl : first = .put blank := (List.cons.inj same).1
      rw [ReadableObject.payload_eq plain_reliable (mem_after_put.mp stored.mem)]
      exact fun mentioned => absurd mentioned List.not_mem_nil
    | _ :: _ :: done => simp at same
  · have there : blank.hash ∈ ((after [Transaction.put blank]).insert mention).objects :=
      mem_insert mention (mem_after_put.mpr rfl)
    have listed : blank.hash ∈ extractHashStrings mention.payload := by
      rw [extract_mention]
      exact List.mem_singleton_self _
    obtain ⟨row, edge, child⟩ := exists_mem_edgesOf listed there blank_ne_mention
    refine ⟨row, mem_refresh.mpr (Or.inr edge), (mem_edgesOf.mp edge).1, child⟩
  · -- when what is mentioned is put, what mentions it is left alone
    have unmentioned := (edges_verified_iff plain_reliable _).mp all [.put mention] (.put blank)
      (List.prefix_refl _)
    have stored : Stored plain (after [Transaction.put mention]).objects mention.kind
        mention.payload := Stored.put plain_reliable (kept_empty (P := plain)).addressed
    have added : blank.hash ∈ ((Transaction.put blank).run (after [.put mention])).objects :=
      (Transaction.run_adds plain_reliable (t := .put blank)).stored
        (kept_after plain_reliable _).addressed blank List.mem_cons_self |>.mem
    have there := unmentioned mention stored (fun o listed => by
      rw [List.mem_singleton.mp listed]
      exact blank_ne_mention) blank.hash (by rw [extract_mention]; exact List.mem_singleton_self _)
      added
    exact blank_ne_mention (mem_after_put.mp there)

end EdgeStore

end CodeDb

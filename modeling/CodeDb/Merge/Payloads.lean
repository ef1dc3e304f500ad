import CodeDb.Lib.Except
import CodeDb.Lib.Worklist
import CodeDb.Merge.Plan

/-!
# The objects a merge brings along

A merge is recorded with the objects it needs, so that it can be replayed in a store that has not
seen the branch it came from. They are collected by a search: from the source root and the hashes
the merged root mentions, along the hashes that stored objects mention.

What is collected is closed: it is every stored object that can be reached.

## Main definitions

* `Mentions` — a stored object mentions a hash
* `BroughtAlong` — what is brought along of a stored object

## Main results

* `collectFrom_spec` — the search
* `collectMergeObjectPayloads_exact` — what is collected
-/

namespace CodeDb

open SortOn Worklist

variable {P : Primitives} {objects : Objects}

/-! ### Collecting -/

/-- A stored object whose payload mentions a hash. -/
def Mentions (P : Primitives) (objects : Objects) (a b : Hash) : Prop :=
  ∃ object payload, objects.lookup a = some object ∧
    P.parseJson object.payloadJson = .ok payload ∧ b ∈ extractHashStrings payload

/-- What is brought along of a stored object. -/
def BroughtAlong (P : Primitives) (objects : Objects) (p : MergeObjectPayload) : Prop :=
  ∃ object, objects.lookup p.hash = some object ∧ object.kind = p.kind ∧
    P.parseJson object.payloadJson = .ok p.payload

/-- What the search has collected when it ends: the objects it came to see. -/
structure Collected (P : Primitives) (objects : Objects) (seen final : List Hash)
    (collected : List MergeObjectPayload) : Prop where
  kept : ∀ h ∈ seen, h ∈ final
  distinct : (collected.map (·.hash)).Nodup
  new : ∀ p ∈ collected, p.hash ∈ final ∧ p.hash ∉ seen
  brought : ∀ p ∈ collected, BroughtAlong P objects p
  complete : ∀ h ∈ final, h ∉ seen → h ∈ objects → ∃ p ∈ collected, p.hash = h

theorem collectFrom_missing {hash : Hash} {stack seen : List Hash} (new : hash ∉ seen)
    (absent : objects.lookup hash = none) :
    collectFrom P objects (hash :: stack) seen = collectFrom P objects stack (hash :: seen) := by
  rw [collectFrom, if_neg new]
  split
  · rfl
  · rename_i found
    simp [absent] at found

theorem collectFrom_object {hash : Hash} {stack seen : List Hash} {object : StoredObject}
    (new : hash ∉ seen) (found : objects.lookup hash = some object) :
    collectFrom P objects (hash :: stack) seen = do
      let payload ← P.parseJson object.payloadJson
      let rest ← collectFrom P objects ((extractHashStrings payload).reverse ++ stack)
        (hash :: seen)
      return ⟨hash, object.kind, payload⟩ :: rest := by
  rw [collectFrom, if_neg new]
  split
  · rename_i absent
    simp [found] at absent
  · rename_i other
    obtain rfl := Option.some.inj (found.symm.trans other)
    rfl

theorem mem_objects {hash : Hash} {object : StoredObject}
    (found : objects.lookup hash = some object) : hash ∈ objects :=
  AList.lookup_isSome.mp (by simp [found])

/-- What is collected after an object that is new, with it. -/
theorem Collected.cons {hash : Hash} {seen final : List Hash} {object : StoredObject}
    {payload : JsonValue} {rest : List MergeObjectPayload} (new : hash ∉ seen)
    (found : objects.lookup hash = some object)
    (read : P.parseJson object.payloadJson = .ok payload)
    (collected : Collected P objects (hash :: seen) final rest) :
    Collected P objects seen final (⟨hash, object.kind, payload⟩ :: rest) where
  kept h old := collected.kept h (List.mem_cons_of_mem _ old)
  distinct := by
    rw [List.map_cons, List.nodup_cons]
    -- what is collected later was not seen when the search came to it
    refine ⟨fun again => ?_, collected.distinct⟩
    obtain ⟨p, listed, same⟩ := List.mem_map.mp again
    exact (collected.new p listed).2 (by simp [same])
  new p listed := by
    rcases List.mem_cons.mp listed with rfl | listed
    · exact ⟨collected.kept hash List.mem_cons_self, new⟩
    · exact ⟨(collected.new p listed).1,
        fun old => (collected.new p listed).2 (List.mem_cons_of_mem _ old)⟩
  brought p listed := by
    rcases List.mem_cons.mp listed with rfl | listed
    · exact ⟨object, found, rfl, read⟩
    · exact collected.brought p listed
  complete h mem fresh stored := by
    by_cases same : h = hash
    · exact ⟨_, List.mem_cons_self, same.symm⟩
    · obtain ⟨p, listed, equal⟩ := collected.complete h mem (by simp [same, fresh]) stored
      exact ⟨p, List.mem_cons_of_mem _ listed, equal⟩

/-- What is collected after a hash that no object has. -/
theorem Collected.missing {hash : Hash} {seen final : List Hash} {rest : List MergeObjectPayload}
    (absent : objects.lookup hash = none)
    (collected : Collected P objects (hash :: seen) final rest) :
    Collected P objects seen final rest where
  kept h old := collected.kept h (List.mem_cons_of_mem _ old)
  distinct := collected.distinct
  new p listed := ⟨(collected.new p listed).1,
    fun old => (collected.new p listed).2 (List.mem_cons_of_mem _ old)⟩
  brought := collected.brought
  complete h mem fresh stored := by
    have other : h ≠ hash := by
      rintro rfl
      exact AList.lookup_eq_none.mp absent stored
    exact collected.complete h mem (by simp [other, fresh]) stored

/-- The search either sees all that can be reached, and collects what of it is stored, or comes to
an object that is not read. -/
theorem collectFrom_spec {start : Set Hash} (stack seen : List Hash)
    (search : Searching (Mentions P objects) start {h | h ∈ seen} {h | h ∈ stack}) :
    (∃ collected final, collectFrom P objects stack seen = .ok collected ∧
      Searching (Mentions P objects) start {h | h ∈ final} ∅ ∧
      Collected P objects seen final collected) ∨
    (∃ error, collectFrom P objects stack seen = .error error) ∧ ∃ h object,
      Reached (Mentions P objects) start h ∧ objects.lookup h = some object ∧
      ∀ payload, P.parseJson object.payloadJson ≠ .ok payload := by
  -- as the search goes: what was seen stays seen, so each object is collected once
  induction stack, seen using collectFrom.induct objects with
  | case1 seen =>
    refine Or.inl ⟨[], seen, by unfold collectFrom; rfl, by simpa using search, ?_⟩
    exact ⟨fun _ => id, by simp, by simp, by simp, fun h mem old => absurd mem old⟩
  | case2 hash stack seen old ih =>
    rw [waiting_cons] at search
    rw [collectFrom, if_pos old]
    exact ih (search.skip old)
  | case3 hash stack seen new absent ih =>
    rw [waiting_cons] at search
    -- a hash that no object has mentions nothing, and is only marked
    have next : Searching (Mentions P objects) start {h | h ∈ hash :: seen} {h | h ∈ stack} := by
      rw [waiting_cons]
      refine search.visit (fun _ => id) (fun _ => Or.inl) fun b mentions => ?_
      obtain ⟨object, payload, found, -⟩ := mentions
      simp [absent] at found
    rw [collectFrom_missing new absent]
    rcases ih next with ⟨collected, final, run, done, spec⟩ | failed
    · exact Or.inl ⟨collected, final, run, done, spec.missing absent⟩
    · exact Or.inr failed
  | case4 hash stack seen new object found ih =>
    rw [waiting_cons] at search
    rw [collectFrom_object new found]
    cases read : P.parseJson object.payloadJson with
    | error error =>
      exact Or.inr ⟨⟨error, rfl⟩, hash, object,
        search.sound hash (Or.inr (Set.mem_insert _ _)), found, by simp [read]⟩
    | ok payload =>
      have next : Searching (Mentions P objects) start {h | h ∈ hash :: seen}
          {h | h ∈ (extractHashStrings payload).reverse ++ stack} := by
        rw [waiting_cons]
        refine search.visit (fun h mem => List.mem_append_right _ mem) (fun b mem => ?_)
          fun b mentions => ?_
        · rcases List.mem_append.mp mem with new | old
          · exact Or.inr ⟨object, payload, found, read, List.mem_reverse.mp new⟩
          · exact Or.inl old
        · obtain ⟨object', payload', found', read', mem⟩ := mentions
          obtain rfl := Option.some.inj (found.symm.trans found')
          obtain rfl := Except.ok.inj (read.symm.trans read')
          exact Or.inr (List.mem_append_left _ (List.mem_reverse.mpr mem))
      rcases ih payload next with ⟨collected, final, run, done, spec⟩ | ⟨⟨error, run⟩, stuck⟩
      · refine Or.inl ⟨_, final, ?_, done, spec.cons new found read⟩
        simp [run, bind, Except.bind, pure, Except.pure]
      · refine Or.inr ⟨⟨error, ?_⟩, stuck⟩
        simp [run, bind, Except.bind]

/-- The hashes a merge begins to collect from. -/
def mergeStart (sourceRootHash : Hash) (mergedRootPayload : JsonValue) : Set Hash :=
  {h | h = sourceRootHash ∨ h ∈ extractHashStrings mergedRootPayload}

theorem searching_mergeStart (P : Primitives) (objects : Objects) (sourceRootHash : Hash)
    (mergedRootPayload : JsonValue) :
    Searching (Mentions P objects) (mergeStart sourceRootHash mergedRootPayload)
      {h | h ∈ ([] : List Hash)}
      {h | h ∈ (extractHashStrings mergedRootPayload).reverse ++ [sourceRootHash]} := by
  have waiting : {h | h ∈ (extractHashStrings mergedRootPayload).reverse ++ [sourceRootHash]} =
      mergeStart sourceRootHash mergedRootPayload := by
    ext h
    simp [mergeStart, or_comm]
  rw [waiting]
  simpa using Searching.init

/-- The objects of a merge are collected, all that are stored and reached, or one of those cannot be
read. -/
theorem collectMergeObjectPayloads_cases (P : Primitives) (objects : Objects)
    (sourceRootHash : Hash) (mergedRootPayload : JsonValue) :
    (∃ collected, collectMergeObjectPayloads P objects sourceRootHash mergedRootPayload =
        .ok collected ∧
      (collected.map (·.hash)).Pairwise (· < ·) ∧
      (∀ p, p ∈ collected ↔
        Reached (Mentions P objects) (mergeStart sourceRootHash mergedRootPayload) p.hash ∧
          BroughtAlong P objects p) ∧
      ∀ h object, Reached (Mentions P objects) (mergeStart sourceRootHash mergedRootPayload) h →
        objects.lookup h = some object → ∃ payload, P.parseJson object.payloadJson = .ok payload) ∨
    (∃ error, collectMergeObjectPayloads P objects sourceRootHash mergedRootPayload =
        .error error) ∧
      ∃ h object, Reached (Mentions P objects) (mergeStart sourceRootHash mergedRootPayload) h ∧
        objects.lookup h = some object ∧
          ∀ payload, P.parseJson object.payloadJson ≠ .ok payload := by
  rcases collectFrom_spec _ _ (searching_mergeStart P objects sourceRootHash mergedRootPayload) with
    ⟨found, final, run, done, spec⟩ | ⟨⟨error, run⟩, unread⟩
  · refine Or.inl ⟨sortOn (·.hash) found, ?_, ?_, fun p => ?_, fun h object reached stored => ?_⟩
    · simp [collectMergeObjectPayloads, run, bind, Except.bind, pure, Except.pure]
    -- sorted by a key that tells them apart, so strictly
    · have distinct : ((sortOn (·.hash) found).map (·.hash)).Nodup :=
        ((sortOn_perm _ found).map _).nodup_iff.mpr spec.distinct
      have apart : (sortOn (·.hash) found).Pairwise fun a b => a.hash ≠ b.hash :=
        List.pairwise_map.mp distinct
      rw [List.pairwise_map]
      exact ((pairwise_sortOn (·.hash) found).and apart).imp fun ⟨le, ne⟩ => lt_of_le_of_ne le ne
    · rw [mem_sortOn]
      constructor
      · exact fun listed => ⟨done.mem_iff.mp (spec.new p listed).1, spec.brought p listed⟩
      · rintro ⟨reached, object, stored, kind, read⟩
        -- under the hash is what was collected under it: the same kind, and the same payload
        obtain ⟨q, listed, same⟩ := spec.complete p.hash (done.mem_iff.mpr reached)
          List.not_mem_nil (mem_objects stored)
        obtain ⟨object', stored', kind', read'⟩ := spec.brought q listed
        rw [same, stored] at stored'
        obtain rfl := Option.some.inj stored'
        have payload : p.payload = q.payload := Except.ok.inj (read.symm.trans read')
        obtain ⟨hash, _, _⟩ := p
        obtain ⟨hash', _, _⟩ := q
        simp only at same kind kind' payload
        subst same kind kind' payload
        exact listed
    · obtain ⟨p, listed, rfl⟩ := spec.complete h (done.mem_iff.mpr reached) List.not_mem_nil
        (mem_objects stored)
      obtain ⟨object', stored', -, read⟩ := spec.brought p listed
      obtain rfl := Option.some.inj (stored.symm.trans stored')
      exact ⟨p.payload, read⟩
  · refine Or.inr ⟨⟨error, ?_⟩, unread⟩
    simp [collectMergeObjectPayloads, run, bind, Except.bind]

/-- The objects a merge brings along are collected unless one of those it comes to cannot be read.
They are the stored objects that are reached from the source root and from what the merged root
mentions, along what stored objects mention, each once and in the order of their hashes. -/
theorem collectMergeObjectPayloads_exact (P : Primitives) (objects : Objects)
    (sourceRootHash : Hash) (mergedRootPayload : JsonValue) :
    ((∃ collected, collectMergeObjectPayloads P objects sourceRootHash mergedRootPayload =
        .ok collected) ↔
      ∀ h object, Reached (Mentions P objects) (mergeStart sourceRootHash mergedRootPayload) h →
        objects.lookup h = some object → ∃ payload, P.parseJson object.payloadJson = .ok payload) ∧
    ∀ collected, collectMergeObjectPayloads P objects sourceRootHash mergedRootPayload =
        .ok collected →
      (collected.map (·.hash)).Pairwise (· < ·) ∧
      ∀ p, p ∈ collected ↔
        Reached (Mentions P objects) (mergeStart sourceRootHash mergedRootPayload) p.hash ∧
          BroughtAlong P objects p := by
  rcases collectMergeObjectPayloads_cases P objects sourceRootHash mergedRootPayload with
    ⟨collected, run, sorted, members, reads⟩ | ⟨⟨error, run⟩, h, object, reached, stored, unread⟩
  · refine ⟨iff_of_true ⟨collected, run⟩ reads, fun other same => ?_⟩
    obtain rfl := Except.ok.inj (run.symm.trans same)
    exact ⟨sorted, members⟩
  · refine ⟨iff_of_false ?_ fun reads => ?_, fun collected same => ?_⟩
    · rintro ⟨collected, same⟩
      simp [run] at same
    · obtain ⟨payload, read⟩ := reads h object reached stored
      exact unread payload read
    · simp [run] at same

end CodeDb

import CodeDb.Lib.SortOn
import CodeDb.Lib.Worklist
import CodeDb.Model.ProgramRoot
import Mathlib.Data.Finset.Card
import Mathlib.Data.List.Sort

/-!
# The dependency table

Indexing a root records which symbol of it calls which. Build planning asks the table for the
symbols that depend on a symbol, and for those that depend on it through others: a search along
the rows backwards, which takes the largest waiting symbol first.

## Main definitions

* `DependencyTable` — the rows, each once
* `transitiveDependentsForSymbol` — the search
* `DependsOn` — one symbol depends on another by at least one row

## Main results

* `mem_transitiveDependentsForSymbol` — the search finds what depends on a symbol
-/

namespace CodeDb

open SortOn Worklist Relation

/-- A row: a symbol of a root depends on another. -/
structure DependencyRow where
  rootHash : Hash
  fromSymbol : Hash
  toSymbol : Hash
  deriving DecidableEq

/-- The table of dependencies. A row is there at most once. -/
structure DependencyTable where
  rows : List DependencyRow
  distinct : rows.Nodup

namespace DependencyTable

variable (table : DependencyTable) (rootHash : Hash)

/-- The symbols a symbol depends on. -/
def dependenciesForSymbol (symbol : Hash) : List Hash :=
  sortOn id ((table.rows.filter fun row =>
    row.rootHash == rootHash && row.fromSymbol == symbol).map (·.toSymbol))

/-- The symbols that depend on a symbol. -/
def directDependentsForSymbol (symbol : Hash) : List Hash :=
  sortOn id ((table.rows.filter fun row =>
    row.rootHash == rootHash && row.toSymbol == symbol).map (·.fromSymbol))

/-- One symbol depends on another directly. -/
def DirectlyDependsOn (a b : Hash) : Prop := ⟨rootHash, a, b⟩ ∈ table.rows

/-- One symbol depends on another, directly or through others. -/
def DependsOn : Hash → Hash → Prop := TransGen (table.DirectlyDependsOn rootHash)

variable {table rootHash}

theorem mem_dependenciesForSymbol {a b : Hash} :
    b ∈ table.dependenciesForSymbol rootHash a ↔ table.DirectlyDependsOn rootHash a b := by
  simp only [dependenciesForSymbol, mem_sortOn, List.mem_map, List.mem_filter, Bool.and_eq_true,
    beq_iff_eq, DirectlyDependsOn]
  constructor
  · rintro ⟨⟨_, _, _⟩, ⟨listed, rfl, rfl⟩, rfl⟩
    exact listed
  · exact fun listed => ⟨_, ⟨listed, rfl, rfl⟩, rfl⟩

theorem mem_directDependentsForSymbol {a b : Hash} :
    a ∈ table.directDependentsForSymbol rootHash b ↔ table.DirectlyDependsOn rootHash a b := by
  simp only [directDependentsForSymbol, mem_sortOn, List.mem_map, List.mem_filter,
    Bool.and_eq_true, beq_iff_eq, DirectlyDependsOn]
  constructor
  · rintro ⟨⟨_, _, _⟩, ⟨listed, rfl, rfl⟩, rfl⟩
    exact listed
  · exact fun listed => ⟨_, ⟨listed, rfl, rfl⟩, rfl⟩

variable (table rootHash)

/-- All symbols that depend on something. -/
def dependents : Finset Hash := (table.rows.map (·.fromSymbol)).toFinset

variable {table rootHash} in
theorem mem_dependents {a b : Hash} (h : a ∈ table.directDependentsForSymbol rootHash b) :
    a ∈ table.dependents :=
  List.mem_toFinset.mpr (List.mem_map.mpr ⟨_, mem_directDependentsForSymbol.mp h, rfl⟩)

/-- Search from the symbols that wait, which are in increasing order: the last is taken first. -/
def searchDependents (frontier seen : List Hash) : List Hash :=
  match _last : frontier.getLast? with
  | none => seen
  | some dependent =>
    if dependent ∈ seen then searchDependents frontier.dropLast seen
    else
      let next := (table.directDependentsForSymbol rootHash dependent).filter
        (· ∉ dependent :: seen)
      searchDependents (sortOn id (frontier.dropLast ++ next)) (dependent :: seen)
termination_by (((table.dependents ∪ frontier.toFinset) \ seen.toFinset).card, frontier.length)
decreasing_by
  · -- seen before: no symbol is added, and one fewer waits
    have some : frontier ≠ [] := by
      rintro rfl
      simp at _last
    have positive := List.length_pos_iff.mpr some
    refine Prod.Lex.right' _ (Finset.card_le_card (Finset.sdiff_subset_sdiff
      (Finset.union_subset_union_right ?_) subset_rfl)) ?_
    · intro a mem
      exact List.mem_toFinset.mpr (List.dropLast_subset frontier (List.mem_toFinset.mp mem))
    · rw [List.length_dropLast]
      omega
  · -- seen for the first time: one symbol fewer is left
    rename_i fresh
    have waits : dependent ∈ frontier := List.mem_of_getLast? _last
    refine Prod.Lex.left _ _ (Finset.card_lt_card ⟨?_, fun all => ?_⟩)
    · intro a left
      simp only [Finset.mem_sdiff, Finset.mem_union, List.mem_toFinset, mem_sortOn,
        List.mem_append, List.mem_cons, not_or] at left ⊢
      obtain ⟨known | old | new, -, unseen⟩ := left
      · exact ⟨Or.inl known, unseen⟩
      · exact ⟨Or.inr (List.mem_of_mem_dropLast old), unseen⟩
      · exact ⟨Or.inl (mem_dependents (List.mem_filter.mp new).1), unseen⟩
    · have left := all (Finset.mem_sdiff.mpr ⟨Finset.mem_union_right _
        (List.mem_toFinset.mpr waits), by simpa using fresh⟩)
      simp at left

/-- The symbols that depend on a symbol, directly or through others. -/
def transitiveDependentsForSymbol (symbol : Hash) : List Hash :=
  sortedSet (searchDependents table rootHash (table.directDependentsForSymbol rootHash symbol) [])

variable {table rootHash}

theorem searchDependents_seen {frontier seen : List Hash} {dependent : Hash}
    (last : frontier.getLast? = some dependent) (old : dependent ∈ seen) :
    table.searchDependents rootHash frontier seen =
      table.searchDependents rootHash frontier.dropLast seen := by
  rw [searchDependents]
  split
  · rename_i none
    simp [last] at none
  · rename_i other
    obtain rfl := Option.some.inj (last.symm.trans other)
    rw [if_pos old]

theorem searchDependents_fresh {frontier seen : List Hash} {dependent : Hash}
    (last : frontier.getLast? = some dependent) (fresh : dependent ∉ seen) :
    table.searchDependents rootHash frontier seen =
      table.searchDependents rootHash (sortOn id (frontier.dropLast ++
        (table.directDependentsForSymbol rootHash dependent).filter (· ∉ dependent :: seen)))
        (dependent :: seen) := by
  rw [searchDependents]
  split
  · rename_i none
    simp [last] at none
  · rename_i other
    obtain rfl := Option.some.inj (last.symm.trans other)
    rw [if_neg fresh]

/-- The row a dependency is read from, backwards. -/
def DependencyOf (table : DependencyTable) (rootHash b a : Hash) : Prop :=
  table.DirectlyDependsOn rootHash a b

theorem waiting_dropLast {frontier : List Hash} {dependent : Hash}
    (last : frontier.getLast? = some dependent) :
    {a | a ∈ frontier} = insert dependent {a | a ∈ frontier.dropLast} := by
  obtain ⟨rest, rfl⟩ := List.getLast?_eq_some_iff.mp last
  ext a
  simp [or_comm]

/-- The search sees what can be reached backwards from what waits. -/
theorem searching_searchDependents {start : Set Hash} (frontier seen : List Hash)
    (search : Searching (DependencyOf table rootHash) start {a | a ∈ seen} {a | a ∈ frontier}) :
    Searching (DependencyOf table rootHash) start
      {a | a ∈ table.searchDependents rootHash frontier seen} ∅ := by
  -- as the search goes: what is seen and what waits are all that is reached so far
  induction frontier, seen using searchDependents.induct table rootHash with
  | case1 frontier seen none =>
    obtain rfl := List.getLast?_eq_none_iff.mp none
    rw [searchDependents]
    simpa using search
  | case2 frontier seen dependent last old ih =>
    rw [waiting_dropLast last] at search
    rw [searchDependents_seen last old]
    exact ih (search.skip old)
  | case3 frontier seen dependent last fresh next ih =>
    rw [waiting_dropLast last] at search
    rw [searchDependents_fresh last fresh]
    refine ih ?_
    have seen' : {a | a ∈ dependent :: seen} = insert dependent {a | a ∈ seen} := by
      ext a
      simp
    rw [seen']
    refine search.visit (fun a waits => ?_) (fun a waits => ?_) fun a row => ?_
    · exact (mem_sortOn _).mpr (List.mem_append_left _ waits)
    · rcases List.mem_append.mp ((mem_sortOn _).mp waits) with old | new
      · exact Or.inl old
      · exact Or.inr (mem_directDependentsForSymbol.mp (List.mem_filter.mp new).1)
    · by_cases known : a ∈ dependent :: seen
      · exact Or.inl (by simpa using known)
      · exact Or.inr ((mem_sortOn _).mpr (List.mem_append_right _ (List.mem_filter.mpr
          ⟨mem_directDependentsForSymbol.mpr row, by simpa using known⟩)))

/-- The search finds the symbols that depend on a symbol, directly or through others. -/
theorem mem_transitiveDependentsForSymbol {a b : Hash} :
    a ∈ table.transitiveDependentsForSymbol rootHash b ↔ table.DependsOn rootHash a b := by
  have start : {a | a ∈ table.directDependentsForSymbol rootHash b} =
      {a | DependencyOf table rootHash b a} := by
    ext a
    exact mem_directDependentsForSymbol
  -- a symbol is found only through a step, so the closure is not reflexive
  have begun : Searching (DependencyOf table rootHash)
      {a | a ∈ table.directDependentsForSymbol rootHash b} {a | a ∈ ([] : List Hash)}
      {a | a ∈ table.directDependentsForSymbol rootHash b} := by
    simpa using Searching.init
  have search := searching_searchDependents _ [] begun
  have seen := search.mem_iff (a := a)
  rw [start, Reached.iff_transGen] at seen
  rw [transitiveDependentsForSymbol, mem_sortedSet, DependsOn, ← transGen_swap]
  exact seen

end DependencyTable

end CodeDb

import CodeDb.Build.Dependencies
import CodeDb.Lib.PostOrder

/-!
# The symbols of a program, in link order

A program is linked from its entry and all that the entry depends on. A depth-first search along
the dependency table lists them, each after what it depends on. Symbols may call each other in a
circle, so this is no topological order: a symbol can be listed before one it depends on, but then
the two depend on each other.

## Main definitions

* `DependencyTable.reachableSymbols` — the symbols in link order

## Main results

* `reachableSymbols_exact` — which symbols are listed, and in what order
-/

namespace CodeDb

open PostOrder Relation

namespace DependencyTable

variable (table : DependencyTable) (rootHash : Hash)

/-- Visit a symbol: what it depends on in turn, then the symbol. -/
def visitReachableSymbol :
    ℕ → Hash → List Hash × List Hash → Option (List Hash × List Hash) :=
  visit (table.dependenciesForSymbol rootHash)

/-- The symbols an entry is linked with, in link order. Below the entry and the symbols that the
rows lead to no search goes any deeper. -/
def reachableSymbols (entry : Hash) : Option (List Hash) := do
  let (_, ordered) ← table.visitReachableSymbol rootHash (table.rows.length + 2) entry ([], [])
  return ordered

/-- A symbol depends on another, or is it. -/
def Reaches : Hash → Hash → Prop := ReflTransGen (table.DirectlyDependsOn rootHash)

/-- All symbols that something depends on. -/
def dependencies : Finset Hash := (table.rows.map (·.toSymbol)).toFinset

variable {table rootHash}

theorem mem_dependencies {a b : Hash} (h : b ∈ table.dependenciesForSymbol rootHash a) :
    b ∈ table.dependencies :=
  List.mem_toFinset.mpr (List.mem_map.mpr ⟨_, mem_dependenciesForSymbol.mp h, rfl⟩)

theorem leadsTo_iff {a b : Hash} :
    LeadsTo (table.dependenciesForSymbol rootHash) a b ↔ table.Reaches rootHash a b := by
  have same : (fun a b => b ∈ table.dependenciesForSymbol rootHash a) =
      table.DirectlyDependsOn rootHash := by
    funext a b
    exact propext mem_dependenciesForSymbol
  rw [LeadsTo, Reaches, same]

variable (table rootHash) in
/-- The depth of the search is enough. -/
theorem exists_reachableSymbols (entry : Hash) : ∃ ordered,
    table.reachableSymbols rootHash entry = some ordered ∧
      Listed (table.dependenciesForSymbol rootHash) [entry] [] ordered ∧
      ordered.getLast? = some entry := by
  -- the search meets the entry and what rows lead to, and nothing else
  have enough : (insert entry table.dependencies \ ([] : List Hash).toFinset).card <
      table.rows.length + 2 := by
    have few : table.dependencies.card ≤ table.rows.length :=
      (List.toFinset_card_le _).trans (List.length_map _).le
    have inserted := Finset.card_insert_le entry table.dependencies
    simp only [List.toFinset_nil, Finset.sdiff_empty]
    omega
  obtain ⟨⟨seen, ordered⟩, run⟩ := exists_visit
    (fun a b mem => Finset.mem_insert_of_mem (mem_dependencies mem))
    (Finset.mem_insert_self entry table.dependencies) enough []
  obtain ⟨new, same, listed, -, last⟩ := visit_listed run
  obtain rfl : ordered = new := same
  exact ⟨ordered, by rw [reachableSymbols, visitReachableSymbol, run]; rfl, listed,
    last List.not_mem_nil⟩

/-- The link order lists what the entry reaches, each symbol once and the entry last. A symbol
comes after what it depends on directly, unless that depends on it in turn; and all it depends on
is listed up to some symbol of its circle. -/
theorem reachableSymbols_exact (table : DependencyTable) (rootHash entry : Hash) :
    ∃ ordered, table.reachableSymbols rootHash entry = some ordered ∧ ordered.Nodup ∧
      (∀ a, a ∈ ordered ↔ table.Reaches rootHash entry a) ∧ ordered.getLast? = some entry ∧
      (∀ before a after, ordered = before ++ a :: after → ∀ b,
        table.DirectlyDependsOn rootHash a b → b ∈ before ∨ table.Reaches rootHash b a) ∧
      ∀ a ∈ ordered, ∀ b, table.Reaches rootHash a b →
        ∃ before c after, ordered = before ++ c :: after ∧ table.Reaches rootHash a c ∧
          table.Reaches rootHash c a ∧ b ∈ before ++ [c] := by
  obtain ⟨ordered, run, listed, last⟩ := exists_reachableSymbols table rootHash entry
  refine ⟨ordered, run, listed.nodup, fun a => ?_, last, ?_, ?_⟩
  · rw [listed.mem_iff]
    simp [leadsTo_iff]
  · intro before a after split b row
    rcases listed.closed before a after split b (mem_dependenciesForSymbol.mpr row) with
      old | earlier | ⟨between, rest, eq, all⟩
    · exact absurd old List.not_mem_nil
    · exact Or.inl earlier
    · -- everything from the symbol on comes from the one it depends on, so the symbol does
      cases between with
      | nil =>
        obtain ⟨rfl, -⟩ := List.cons.inj eq
        exact Or.inr .refl
      | cons c between =>
        obtain ⟨rfl, -⟩ := List.cons.inj eq
        exact Or.inr (leadsTo_iff.mp (all a List.mem_cons_self))
  · intro a mem b path
    simpa only [leadsTo_iff] using listed.exists_upTo mem (leadsTo_iff.mpr path)

end DependencyTable

end CodeDb

import Mathlib.Data.List.Basic
import Mathlib.Data.List.Perm.Subperm

/-!
# Linked rows

A table whose rows point at a parent row is walked along these links. Nothing
about a table says that a walk comes to an end, or that it never meets a row
twice; where it does end, both follow.

## Main definitions

* `Walk` — the rows met along parent links, up to one without a parent

## Main results

* `Walk.unique`, `Walk.mono` — a walk is determined, also in larger tables
* `Walk.nodup_keys`, `Walk.length_le` — a walk that ends meets no row twice
* `Walk.isChain` — what links relate, a walk relates row by row
-/

namespace Linked

variable {κ ρ : Type*} {row row' : κ → Option ρ} {parent : ρ → Option κ} {key : ρ → κ}

/-- Walking along parent links from a cursor meets these rows, and ends. -/
inductive Walk (row : κ → Option ρ) (parent : ρ → Option κ) : Option κ → List ρ → Prop
  | done : Walk row parent none []
  | step {k : κ} {r : ρ} {rows : List ρ} (found : row k = some r)
      (next : Walk row parent (parent r) rows) : Walk row parent (some k) (r :: rows)

namespace Walk

theorem unique {cursor : Option κ} {rows rows' : List ρ} (h : Walk row parent cursor rows)
    (h' : Walk row parent cursor rows') : rows = rows' := by
  induction h generalizing rows' with
  | done => cases h'; rfl
  | step found _ ih =>
    cases h' with
    | step found' next' =>
      obtain rfl := Option.some.inj (found.symm.trans found')
      rw [ih next']

/-- A walk is the same in a table that has more rows. -/
theorem mono {cursor : Option κ} {rows : List ρ} (h : Walk row parent cursor rows)
    (more : ∀ k r, row k = some r → row' k = some r) : Walk row' parent cursor rows := by
  induction h with
  | done => exact done
  | step found _ ih => exact step (more _ _ found) ih

/-- A property of the rows of a table holds of the rows of a walk. -/
theorem forall_mem {cursor : Option κ} {rows : List ρ} (h : Walk row parent cursor rows)
    {p : ρ → Prop} (holds : ∀ k r, row k = some r → p r) : ∀ r ∈ rows, p r := by
  induction h with
  | done => simp
  | step found _ ih =>
    intro r hr
    rcases List.mem_cons.mp hr with rfl | hr
    · exact holds _ _ found
    · exact ih r hr

/-- What a link relates, neighbours in a walk are related by. -/
theorem isChain {cursor : Option κ} {rows : List ρ} (h : Walk row parent cursor rows)
    {rel : ρ → ρ → Prop}
    (related : ∀ k r j s, row k = some r → parent r = some j → row j = some s → rel r s) :
    rows.IsChain rel := by
  induction h with
  | done => exact List.IsChain.nil
  | step found next ih =>
    rename_i k r rows
    cases rows with
    | nil => exact List.IsChain.singleton r
    | cons s rows =>
      refine List.IsChain.cons_cons ?_ ih
      generalize link : parent r = cursor at next
      cases next with
      | step found' _ => exact related k r _ s found link found'

/-- The last row of a walk has no parent. -/
theorem parent_getLast? {cursor : Option κ} {rows : List ρ} (h : Walk row parent cursor rows) :
    ∀ r ∈ rows.getLast?, parent r = none := by
  induction h with
  | done => simp
  | step found next ih =>
    rename_i k r rows
    cases rows with
    | nil =>
      intro s hs
      obtain rfl : r = s := by simpa using hs
      generalize parent r = cursor at next
      cases next
      rfl
    | cons s rows =>
      simpa [List.getLast?_cons_cons] using ih

/-- The cursor is the key of the first row. -/
theorem head?_key {cursor : Option κ} {rows : List ρ} (h : Walk row parent cursor rows)
    (keyed : ∀ k r, row k = some r → key r = k) : rows.head?.map key = cursor := by
  cases h with
  | done => rfl
  | step found _ => simp [keyed _ _ found]

/-- From every row of a walk, the walk goes on with the rest. -/
private theorem exists_suffix {cursor : Option κ} {rows : List ρ} (h : Walk row parent cursor rows)
    (keyed : ∀ k r, row k = some r → key r = k) {r : ρ} (mem : r ∈ rows) :
    ∃ rest, Walk row parent (some (key r)) (r :: rest) ∧ rest.length < rows.length := by
  induction h with
  | done => simp at mem
  | step found next ih =>
    rename_i k s rows
    rcases List.mem_cons.mp mem with rfl | mem
    · exact ⟨rows, by rw [keyed _ _ found]; exact step found next, by simp⟩
    · obtain ⟨rest, walk, shorter⟩ := ih mem
      exact ⟨rest, walk, by simpa using Nat.lt_succ_of_lt shorter⟩

/-- A walk that ends meets no row twice. -/
theorem nodup_keys {cursor : Option κ} {rows : List ρ} (h : Walk row parent cursor rows)
    (keyed : ∀ k r, row k = some r → key r = k) : (rows.map key).Nodup := by
  induction h with
  | done => simp
  | step found next ih =>
    rename_i k r rows
    rw [List.map_cons, List.nodup_cons]
    refine ⟨fun again => ?_, ih⟩
    -- a second visit would start the same walk over, and that one is shorter
    obtain ⟨s, mem, same⟩ := List.mem_map.mp again
    obtain ⟨rest, walk, shorter⟩ := exists_suffix next keyed mem
    rw [same, keyed _ _ found] at walk
    have := congrArg List.length (unique walk (step found next))
    simp only [List.length_cons] at this
    omega

/-- The walk from a row of a walk is its rest. -/
theorem suffix_of_key_mem {cursor : Option κ} {rows rows' : List ρ}
    (h : Walk row parent cursor rows) (keyed : ∀ k r, row k = some r → key r = k) {k : κ}
    (h' : Walk row parent (some k) rows') (mem : k ∈ rows.map key) : rows' <:+ rows := by
  induction h with
  | done => simp at mem
  | step found next ih =>
    rename_i j r rows
    by_cases same : key r = k
    · obtain rfl : j = k := (keyed j r found).symm.trans same
      exact unique h' (step found next) ▸ List.suffix_rfl
    · refine (ih ?_).trans (List.suffix_cons r rows)
      simpa [Ne.symm same] using mem

/-- A walk is no longer than the table. -/
theorem length_le {cursor : Option κ} {rows : List ρ} (h : Walk row parent cursor rows)
    (keyed : ∀ k r, row k = some r → key r = k) {keys : List κ}
    (listed : ∀ k r, row k = some r → k ∈ keys) : rows.length ≤ keys.length := by
  have sub : rows.map key ⊆ keys := by
    intro k hk
    obtain ⟨r, hr, rfl⟩ := List.mem_map.mp hk
    exact h.forall_mem (p := fun r => key r ∈ keys)
      (fun k r found => by rw [keyed k r found]; exact listed k r found) r hr
  simpa using ((h.nodup_keys keyed).subperm sub).length_le

end Walk

end Linked

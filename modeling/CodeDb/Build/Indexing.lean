import CodeDb.Build.LinkOrder
import CodeDb.Language.StoredBodies
import CodeDb.Language.UnlistedInstance

/-!
# Indexing a root

The dependency table is derived data: indexing a root drops its rows and walks the bodies of its
definitions for new ones. Objects are only ever added to the store, so a root that was indexed
once has the rows its definitions give it, whatever else is stored and indexed later. What build
planning and linking read from the table is then what the definitions say, and the callers read
from it are those that edits of a root find by walking the bodies.

## Main definitions

* `DependencyTable.indexRoot` — index a root
* `IndexRun` — what can become of store and table

## Main results

* `indexRoot_spec` — one root
* `dependencies_exact` — the rows of an indexed root in every run
* `callers_exact` — the callers read from the table and from the bodies
-/

namespace CodeDb

open SortOn Except Relation

variable (P : Primitives)

/-- A symbol of a root calls another: its definition depends on it. -/
def CallsIn (objects : Objects) (root : ProgramRootPayload) (a b : Hash) : Prop :=
  ∃ entry ∈ root.symbols, entry.symbol = a ∧
    ∃ deps, dependenciesForDefinition P objects root entry.definition = .ok deps ∧ b ∈ deps

namespace DependencyTable

/-! ### One root -/

/-- The table before any root is indexed. -/
def empty : DependencyTable := ⟨[], List.nodup_nil⟩

/-- Drop the rows of a root. -/
def deleteRoot (rootHash : Hash) (table : DependencyTable) : DependencyTable where
  rows := table.rows.filter (·.rootHash ≠ rootHash)
  distinct := table.distinct.filter _

/-- Add a row, unless it is there. The root and the symbols must be stored objects. -/
def insertRow (objects : Objects) (row : DependencyRow) (table : DependencyTable) :
    Except Error DependencyTable :=
  if row.rootHash ∈ objects ∧ row.fromSymbol ∈ objects ∧ row.toSymbol ∈ objects then
    if listed : row ∈ table.rows then .ok table
    else .ok ⟨row :: table.rows, List.nodup_cons.mpr ⟨listed, table.distinct⟩⟩
  else .error "FOREIGN KEY constraint failed"

/-- What a symbol depends on. External functions depend on nothing. -/
def symbolDependencies (objects : Objects) (root : ProgramRootPayload)
    (entry : RootSymbolPayload) : Except Error (List Hash) := do
  let external ← definitionIsExternal objects entry.definition
  if external then .ok [] else dependenciesForDefinition P objects root entry.definition

/-- Add the rows of a symbol. -/
def indexSymbol (objects : Objects) (rootHash : Hash) (root : ProgramRootPayload)
    (table : DependencyTable) (entry : RootSymbolPayload) : Except Error DependencyTable := do
  let deps ← symbolDependencies P objects root entry
  deps.foldlM (fun table dep => insertRow objects ⟨rootHash, entry.symbol, dep⟩ table) table

/-- Index a root: its rows are dropped and worked out again. -/
def indexRoot (objects : Objects) (table : DependencyTable) (rootHash : Hash) :
    Except Error DependencyTable := do
  let root ← loadRoot P objects rootHash
  root.symbols.foldlM (indexSymbol P objects rootHash root) (table.deleteRoot rootHash)

variable {P} {objects objects' : Objects} {table table' : DependencyTable} {rootHash : Hash}
  {root : ProgramRootPayload}

theorem insertRow_spec {row other : DependencyRow}
    (run : table.insertRow objects row = .ok table') :
    other ∈ table'.rows ↔ other ∈ table.rows ∨ other = row := by
  unfold insertRow at run
  split_ifs at run with stored listed
  · obtain rfl := Except.ok.inj run
    exact ⟨Or.inl, fun h => h.elim id fun same => same ▸ listed⟩
  · obtain rfl := Except.ok.inj run
    rw [List.mem_cons, or_comm]

/-- Walking a definition finds that an external function depends on nothing, too. -/
theorem symbolDependencies_eq (entry : RootSymbolPayload) :
    symbolDependencies P objects root entry =
      dependenciesForDefinition P objects root entry.definition := by
  unfold symbolDependencies dependenciesForDefinition
  cases definitionIsExternal objects entry.definition with
  | error e => rfl
  | ok external => cases external <;> rfl

/-- The rows of a symbol are what its definition depends on. -/
theorem indexSymbol_spec {entry : RootSymbolPayload}
    (run : indexSymbol P objects rootHash root table entry = .ok table') :
    ∃ deps, dependenciesForDefinition P objects root entry.definition = .ok deps ∧
      ∀ row, row ∈ table'.rows ↔
        row ∈ table.rows ∨ ∃ dep ∈ deps, row = ⟨rootHash, entry.symbol, dep⟩ := by
  obtain ⟨deps, found, added⟩ := Except.bind_eq_ok.mp run
  rw [symbolDependencies_eq] at found
  refine ⟨deps, found, fun row => ?_⟩
  clear run found
  induction deps generalizing table with
  | nil =>
    obtain rfl := Except.pure_eq_ok.mp added
    simp
  | cons dep deps ih =>
    rw [List.foldlM_cons] at added
    obtain ⟨mid, first, rest⟩ := Except.bind_eq_ok.mp added
    rw [ih rest, insertRow_spec first, or_assoc]
    simp

/-- After indexing, the rows of the root are the calls its definitions make, and the rows of other
roots are as they were. -/
theorem indexRoot_spec (run : table.indexRoot P objects rootHash = .ok table') :
    ∃ root, loadRoot P objects rootHash = .ok root ∧
      (∀ entry ∈ root.symbols, ∃ deps,
        dependenciesForDefinition P objects root entry.definition = .ok deps) ∧
      ∀ row, row ∈ table'.rows ↔ row ∈ table.rows ∧ row.rootHash ≠ rootHash ∨
        row.rootHash = rootHash ∧ CallsIn P objects root row.fromSymbol row.toSymbol := by
  obtain ⟨root, loaded, run⟩ := Except.bind_eq_ok.mp run
  -- of some of the symbols
  have all : ∀ (symbols : List RootSymbolPayload) (table table' : DependencyTable),
      symbols.foldlM (indexSymbol P objects rootHash root) table = .ok table' →
      (∀ entry ∈ symbols, ∃ deps,
        dependenciesForDefinition P objects root entry.definition = .ok deps) ∧
      ∀ row, row ∈ table'.rows ↔ row ∈ table.rows ∨ ∃ entry ∈ symbols, ∃ deps,
        dependenciesForDefinition P objects root entry.definition = .ok deps ∧
          ∃ dep ∈ deps, row = ⟨rootHash, entry.symbol, dep⟩ := by
    intro symbols
    induction symbols with
    | nil =>
      intro table table' run
      obtain rfl := Except.pure_eq_ok.mp run
      simp
    | cons entry symbols ih =>
      intro table table' run
      rw [List.foldlM_cons] at run
      obtain ⟨mid, first, rest⟩ := Except.bind_eq_ok.mp run
      obtain ⟨deps, depends, rows⟩ := indexSymbol_spec first
      obtain ⟨read, rows'⟩ := ih mid table' rest
      refine ⟨List.forall_mem_cons.mpr ⟨⟨deps, depends⟩, read⟩, fun row => ?_⟩
      rw [rows', rows, or_assoc]
      simp [depends]
  obtain ⟨read, rows⟩ := all _ _ _ run
  refine ⟨root, loaded, read, fun row => ?_⟩
  rw [rows]
  constructor
  · rintro (old | ⟨entry, mem, deps, depends, dep, listed, rfl⟩)
    · exact Or.inl (by simpa [deleteRoot] using old)
    · exact Or.inr ⟨rfl, entry, mem, rfl, deps, depends, listed⟩
  · rintro (⟨old, other⟩ | ⟨same, entry, mem, symbol, deps, depends, listed⟩)
    · exact Or.inl (by simpa [deleteRoot] using ⟨old, other⟩)
    · refine Or.inr ⟨entry, mem, deps, depends, row.toSymbol, listed, ?_⟩
      obtain ⟨_, _, _⟩ := row
      simp_all

end DependencyTable

/-! ### Runs -/

/-- What can become of the store and the table, and which roots have been indexed: objects are
stored, and roots are indexed. -/
inductive IndexRun : Objects → DependencyTable → Set Hash → Prop
  | start (objects : Objects) : IndexRun objects .empty ∅
  | store {objects objects' : Objects} {table : DependencyTable} {indexed : Set Hash} :
      IndexRun objects table indexed → Grows P objects objects' → IndexRun objects' table indexed
  | index {objects : Objects} {table table' : DependencyTable} {indexed : Set Hash}
      {rootHash : Hash} : IndexRun objects table indexed →
      table.indexRoot P objects rootHash = .ok table' →
      IndexRun objects table' (insert rootHash indexed)

/-- The rows of a root are the calls its definitions make, and all definitions can be read. -/
structure DependencyTable.Exact (objects : Objects) (table : DependencyTable) (rootHash : Hash)
    (root : ProgramRootPayload) : Prop where
  loaded : loadRoot P objects rootHash = .ok root
  read : ∀ entry ∈ root.symbols, ∃ deps,
    dependenciesForDefinition P objects root entry.definition = .ok deps
  rows : ∀ a b, table.DirectlyDependsOn rootHash a b ↔ CallsIn P objects root a b

variable {P} {objects objects' : Objects} {table table' : DependencyTable} {rootHash : Hash}
  {root : ProgramRootPayload} {indexed : Set Hash}

/-- Where all definitions can be read, a larger store has the same calls. -/
theorem callsIn_iff_of_grows (grows : Grows P objects objects')
    (read : ∀ entry ∈ root.symbols, ∃ deps,
      dependenciesForDefinition P objects root entry.definition = .ok deps) (a b : Hash) :
    CallsIn P objects' root a b ↔ CallsIn P objects root a b := by
  constructor
  · rintro ⟨entry, mem, rfl, deps, depends, listed⟩
    obtain ⟨old, oldDepends⟩ := read entry mem
    -- what could be read is read as it was, so nothing new is called
    have same := grows.below_dependenciesForDefinition root entry.definition old oldDepends
    obtain rfl := Except.ok.inj (same.symm.trans depends)
    exact ⟨entry, mem, rfl, old, oldDepends, listed⟩
  · rintro ⟨entry, mem, rfl, deps, depends, listed⟩
    exact ⟨entry, mem, rfl, deps,
      grows.below_dependenciesForDefinition root entry.definition deps depends, listed⟩

theorem DependencyTable.Exact.grow (exact : table.Exact P objects rootHash root)
    (grows : Grows P objects objects') : table.Exact P objects' rootHash root where
  loaded := grows.loadRoot exact.loaded
  read entry mem := by
    obtain ⟨deps, depends⟩ := exact.read entry mem
    exact ⟨deps, grows.below_dependenciesForDefinition root entry.definition deps depends⟩
  rows a b := (exact.rows a b).trans (callsIn_iff_of_grows grows exact.read a b).symm

/-- In every run the rows of an indexed root are exact, and the others have none. -/
theorem IndexRun.rows (run : IndexRun P objects table indexed) (rootHash : Hash) :
    (rootHash ∈ indexed → ∃ root, table.Exact P objects rootHash root) ∧
      (rootHash ∉ indexed → ∀ a b, ¬ table.DirectlyDependsOn rootHash a b) := by
  induction run with
  | start objects =>
    refine ⟨fun mem => absurd mem (Set.notMem_empty _), fun _ a b row => ?_⟩
    exact List.not_mem_nil row
  | store _ grows ih =>
    refine ⟨fun mem => ?_, ih.2⟩
    obtain ⟨root, exact⟩ := ih.1 mem
    exact ⟨root, exact.grow grows⟩
  | @index objects table table' indexed newRoot _ step ih =>
    obtain ⟨root, loaded, read, rows⟩ := DependencyTable.indexRoot_spec step
    -- the rows of the root that is indexed are written anew, and the others left alone
    by_cases same : rootHash = newRoot
    · subst same
      refine ⟨fun _ => ⟨root, loaded, read, fun a b => ?_⟩,
        fun out => absurd (Set.mem_insert _ _) out⟩
      simp [DependencyTable.DirectlyDependsOn, rows]
    · have kept : ∀ a b, table'.DirectlyDependsOn rootHash a b ↔
          table.DirectlyDependsOn rootHash a b := by
        simp [DependencyTable.DirectlyDependsOn, rows, same]
      refine ⟨fun mem => ?_, fun out a b => ?_⟩
      · obtain ⟨root, exact⟩ := ih.1 (mem.resolve_left same)
        exact ⟨root, exact.loaded, exact.read, fun a b => (kept a b).trans (exact.rows a b)⟩
      · rw [kept]
        exact ih.2 (fun mem => out (Set.mem_insert_of_mem _ mem)) a b

/-! ### What is read from the table -/

namespace DependencyTable.Exact

variable (exact : table.Exact P objects rootHash root)
include exact

theorem directlyDependsOn_eq : table.DirectlyDependsOn rootHash = CallsIn P objects root := by
  funext a b
  exact propext (exact.rows a b)

/-- Edits of a root find the callers that the table has. -/
theorem callers (El : Elaborator P) (symbol : Hash) : ∃ callers,
    reverseDependenciesForRoot El.withBodies root symbol objects = .ok callers ∧
      sortedSet callers = sortedSet (table.directDependentsForSymbol rootHash symbol) := by
  -- of some of the symbols
  have all : ∀ symbols : List RootSymbolPayload, (∀ entry ∈ symbols, ∃ deps,
      dependenciesForDefinition P objects root entry.definition = .ok deps) →
      ∃ callers, reverseDependenciesForRoot.go El.withBodies root symbol objects symbols =
          .ok callers ∧
        ∀ a, a ∈ callers ↔ ∃ entry ∈ symbols, entry.symbol = a ∧ ∃ deps,
          dependenciesForDefinition P objects root entry.definition = .ok deps ∧
            symbol ∈ deps := by
    intro symbols read
    induction symbols with
    | nil => exact ⟨[], rfl, by simp⟩
    | cons entry symbols ih =>
      obtain ⟨⟨deps, depends⟩, read⟩ := List.forall_mem_cons.mp read
      obtain ⟨callers, run, mem⟩ := ih read
      have step : reverseDependenciesForRoot.go El.withBodies root symbol objects
          (entry :: symbols) = .ok (if deps.contains symbol then entry.symbol :: callers
            else callers) := by
        have found := depends
        rw [← symbolDependencies_eq] at found
        obtain ⟨external, isExternal, found⟩ := Except.bind_eq_ok.mp found
        refine Except.bind_eq_ok.mpr ⟨external, isExternal, ?_⟩
        cases external with
        | true =>
          obtain rfl := Except.ok.inj found
          exact Except.bind_eq_ok.mpr ⟨[], rfl, Except.bind_eq_ok.mpr ⟨callers, run, rfl⟩⟩
        | false =>
          exact Except.bind_eq_ok.mpr ⟨deps, depends,
            Except.bind_eq_ok.mpr ⟨callers, run, rfl⟩⟩
      refine ⟨_, step, fun a => ?_⟩
      by_cases calls : symbol ∈ deps
      · simp [calls, mem, depends, eq_comm]
      · simp [calls, mem, depends]
  obtain ⟨callers, run, mem⟩ := all root.symbols exact.read
  refine ⟨sortOn id callers, Except.bind_eq_ok.mpr ⟨callers, run, rfl⟩, ?_⟩
  refine sortedSet_eq_of_mem_iff fun a => ?_
  rw [mem_sortOn, mem, mem_directDependentsForSymbol, exact.rows]
  rfl

end DependencyTable.Exact

/-- In every run, what is read from the table about a root that was indexed is what its
definitions say: the callers are those that edits find, the symbols that depend on a symbol are
those that call it in any number of steps, and the symbols a program is linked with are those its
entry calls so. -/
theorem dependencies_exact (run : IndexRun P objects table indexed) (mem : rootHash ∈ indexed) :
    ∃ root, loadRoot P objects rootHash = .ok root ∧
      (∀ (El : Elaborator P) symbol, ∃ callers,
        reverseDependenciesForRoot El.withBodies root symbol objects = .ok callers ∧
          sortedSet callers = sortedSet (table.directDependentsForSymbol rootHash symbol)) ∧
      (∀ a b, a ∈ table.transitiveDependentsForSymbol rootHash b ↔
        TransGen (CallsIn P objects root) a b) ∧
      ∀ entry, ∃ ordered, table.reachableSymbols rootHash entry = some ordered ∧
        ∀ a, a ∈ ordered ↔ ReflTransGen (CallsIn P objects root) entry a := by
  obtain ⟨root, exact⟩ := (run.rows rootHash).1 mem
  refine ⟨root, exact.loaded, exact.callers, fun a b => ?_, fun entry => ?_⟩
  · rw [DependencyTable.mem_transitiveDependentsForSymbol, DependencyTable.DependsOn,
      exact.directlyDependsOn_eq]
  · obtain ⟨ordered, linked, listed, -⟩ :=
      DependencyTable.exists_reachableSymbols table rootHash entry
    refine ⟨ordered, linked, fun a => ?_⟩
    rw [listed.mem_iff]
    simp [DependencyTable.leadsTo_iff, DependencyTable.Reaches, exact.directlyDependsOn_eq]

/-! ### A function that calls itself -/

def loopSymbol : JsonValue := .object [("name", .string "loop")]

def loop : Hash := objectHash plain "Symbol" loopSymbol

def loopBody : JsonValue :=
  .object [("args", .strings []), ("expr_kind", .string "call"), ("symbol", .string loop)]

def loopEntry : RootSymbolPayload :=
  functionEntry loop (signaturePayload [] typeI64 [] [] []) loopBody

def loopRoot : ProgramRootPayload := { ProgramRootPayload.empty with symbols := [loopEntry] }

def loopRootHash : Hash := objectHash plain "ProgramRoot" (rootToValue loopRoot)

/-- The store with the function. -/
@[irreducible] def loopObjects : Objects :=
  putAll plain ∅ [("Symbol", loopSymbol), ("Expression", loopBody),
    ("FunctionDef", functionDefPayload loop (signaturePayload [] typeI64 [] [] []) loopBody),
    ("ProgramRoot", rootToValue loopRoot)]

theorem stored_loopObjects {kind : String} {payload : JsonValue}
    (mem : (kind, payload) ∈ [("Symbol", loopSymbol), ("Expression", loopBody),
      ("FunctionDef", functionDefPayload loop (signaturePayload [] typeI64 [] [] []) loopBody),
      ("ProgramRoot", rootToValue loopRoot)]) : Stored plain loopObjects kind payload := by
  have empty : Addressed plain ∅ := fun hash _ found =>
    nomatch (AList.lookup_empty hash).symm.trans found
  have stored := stored_putAll plain_reliable empty mem
  unfold loopObjects
  exact stored

theorem loadRoot_loopRoot : loadRoot plain loopObjects loopRootHash = .ok loopRoot := by
  have stored : Stored plain loopObjects "ProgramRoot" (rootToValue loopRoot) :=
    stored_loopObjects (by simp)
  rw [loopRootHash, stored.loadRoot nofun]
  rfl

/-- The function depends on itself. -/
theorem symbolDependencies_loopEntry :
    DependencyTable.symbolDependencies plain loopObjects loopRoot loopEntry = .ok [loop] := by
  have definition : Stored plain loopObjects "FunctionDef"
      (functionDefPayload loop (signaturePayload [] typeI64 [] [] []) loopBody) :=
    stored_loopObjects (by simp)
  have body : Stored plain loopObjects "Expression" loopBody := stored_loopObjects (by simp)
  have fixed : Fixed plain.floatText loopBody :=
    Fixed.object (by simp only [List.map]; decide) (by simp [Fixed.string, fixed_strings])
  obtain ⟨depth, length⟩ : ∃ depth, loopObjects.entries.length = depth + 1 := by
    refine Nat.exists_eq_succ_of_ne_zero fun none => ?_
    have mem := AList.mem_keys.mp body.mem
    rw [AList.keys, List.keys, List.length_eq_zero_iff.mp none] at mem
    exact List.not_mem_nil mem
  have loaded : loadBody plain loopObjects (objectHash plain "Expression" loopBody) =
      .ok (.call loop [] []) := by
    rw [loadBody, length]
    exact Except.bind_eq_ok.mpr ⟨_, body.getPayload fixed, Except.bind_eq_ok.mpr ⟨"call", rfl, rfl⟩⟩
  have internal : definitionIsExternal loopObjects loopEntry.definition = .ok false :=
    Except.bind_eq_ok.mpr ⟨_, definition.getKind, rfl⟩
  have listed : (rootSymbol loopRoot loop).isSome := by
    simp [rootSymbol, loopRoot, loopEntry, functionEntry]
  have deps : collectExprDeps plain loopRoot (.call loop [] []) = [loop] := by
    rw [collectExprDeps_eq, Expr.subexprs_eq]
    simp [Expr.children, ownDeps, callTarget, listed]
  rw [DependencyTable.symbolDependencies_eq]
  refine Except.bind_eq_ok.mpr ⟨false, internal, Except.bind_eq_ok.mpr
    ⟨_, Except.bind_eq_ok.mpr ⟨_, definition.getPayload (fixed_functionDefPayload _ _ _), rfl⟩,
      Except.bind_eq_ok.mpr ⟨_, loaded, ?_⟩⟩⟩
  rw [deps]
  rfl

theorem loop_mem : loop ∈ loopObjects := by
  have stored : Stored plain loopObjects "Symbol" loopSymbol := stored_loopObjects (by simp)
  rw [loop]
  exact stored.mem

theorem loopRootHash_mem : loopRootHash ∈ loopObjects := by
  have stored : Stored plain loopObjects "ProgramRoot" (rootToValue loopRoot) :=
    stored_loopObjects (by simp)
  rw [loopRootHash]
  exact stored.mem

/-- The table with the one row. -/
def loopTable : DependencyTable := ⟨[⟨loopRootHash, loop, loop⟩], List.nodup_singleton _⟩

/-- Indexing the root adds the row. -/
theorem indexRoot_loopRoot :
    DependencyTable.empty.indexRoot plain loopObjects loopRootHash = .ok loopTable := by
  have added : DependencyTable.empty.insertRow loopObjects ⟨loopRootHash, loop, loop⟩ =
      .ok loopTable := by
    have fresh : (⟨loopRootHash, loop, loop⟩ : DependencyRow) ∉ DependencyTable.empty.rows :=
      List.not_mem_nil
    rw [DependencyTable.insertRow, if_pos ⟨loopRootHash_mem, loop_mem, loop_mem⟩, dif_neg fresh]
    rfl
  have indexed : DependencyTable.indexSymbol plain loopObjects loopRootHash loopRoot .empty
      loopEntry = .ok loopTable := by
    refine Except.bind_eq_ok.mpr ⟨_, symbolDependencies_loopEntry, ?_⟩
    rw [List.foldlM_cons]
    exact Except.bind_eq_ok.mpr ⟨_, added, rfl⟩
  refine Except.bind_eq_ok.mpr ⟨loopRoot, loadRoot_loopRoot, ?_⟩
  have only : loopRoot.symbols = [loopEntry] := rfl
  rw [only, List.foldlM_cons]
  exact Except.bind_eq_ok.mpr ⟨_, indexed, rfl⟩

theorem callsIn_loop : CallsIn plain loopObjects loopRoot loop loop := by
  have depends := symbolDependencies_loopEntry
  rw [DependencyTable.symbolDependencies_eq] at depends
  exact ⟨loopEntry, List.mem_singleton_self _, rfl, [loop], depends, List.mem_singleton_self _⟩

/-- The table lists the function among the symbols that depend on it, after it was indexed. -/
theorem dependencies_exact_loop : ∃ table, IndexRun plain loopObjects table {loopRootHash} ∧
    loop ∈ table.transitiveDependentsForSymbol loopRootHash loop := by
  have run := (IndexRun.start loopObjects).index indexRoot_loopRoot
  rw [insert_empty_eq] at run
  obtain ⟨root, loaded, -, dependents, -⟩ := dependencies_exact run (Set.mem_singleton _)
  obtain rfl := Except.ok.inj (loadRoot_loopRoot.symm.trans loaded)
  exact ⟨loopTable, run, (dependents loop loop).mpr (.single callsIn_loop)⟩

end CodeDb

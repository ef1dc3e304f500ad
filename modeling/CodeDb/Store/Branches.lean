import CodeDb.Store.Objects

/-!
# Branches and history rows

The database is four tables: objects, migrations, histories and branches. A
history point names the migration that led to it and the point before it; a
branch names a root and, unless it was started from a bare root, a history point.

Branch pointers move in transactions. A transaction that fails leaves the
database as it was, so each of them is a function that returns the new database
or an error.

## Main definitions

* `Db`, `BranchState`, `MigrationRow`, `HistoryRow`
* `createBranchPointer`, `fastForwardBranchPointer`, `deleteBranchPointerExpected`
* `historyDescendsFrom`, `historyChain` — walks along parent links
-/

namespace CodeDb

/-- Where a branch points. -/
structure BranchState where
  rootHash : Hash
  historyHash : Option Hash
  deriving DecidableEq

structure MigrationRow where
  parentHistoryHash : Option Hash
  inputRootHash : Hash
  outputRootHash : Hash
  operationKind : String
  operationJson : String
  preconditionsJson : String
  postconditionsJson : String
  agentJson : String
  deriving DecidableEq

structure HistoryRow where
  parentHistoryHash : Option Hash
  migrationHash : Hash
  outputRootHash : Hash
  deriving DecidableEq

/-- The tables of the database. -/
structure Db where
  objects : Objects
  migrations : AList fun _ : Hash => MigrationRow
  histories : AList fun _ : Hash => HistoryRow
  branches : AList fun _ : String => BranchState

/-- The branch every database has. -/
def mainBranch : String := "main"

namespace Db

/-- The state of a branch. -/
def branch (db : Db) (name : String) : Except Error BranchState :=
  match db.branches.lookup name with
  | some state => .ok state
  | none => .error ("branch not initialized: " ++ name)

/-- Point a branch somewhere. The root must be a stored object. -/
def setBranch (db : Db) (name : String) (state : BranchState) : Except Error Db :=
  if state.rootHash ∈ db.objects then
    .ok { db with branches := db.branches.insert name state }
  else .error "FOREIGN KEY constraint failed"

/-- Record a migration and the history point it leads to. -/
def withPoint (db : Db) (migration history : Hash) (row : MigrationRow) (point : HistoryRow) : Db :=
  { db with
    migrations := insertOrIgnore db.migrations migration row
    histories := insertOrIgnore db.histories history point }

/-- A history point outputs a root. -/
def ensureHistoryMatchesRoot (db : Db) (historyHash rootHash : Hash) : Except Error Unit :=
  match db.histories.lookup historyHash with
  | none => .error ("missing history " ++ historyHash)
  | some row =>
    if row.outputRootHash ≠ rootHash then
      .error ("history " ++ historyHash ++ " outputs root " ++ row.outputRootHash ++
        ", not branch root " ++ rootHash)
    else .ok ()

/-- Where a branch has a history point, the point outputs the branch's root. -/
def ensureStateMatches (db : Db) (state : BranchState) : Except Error Unit :=
  match state.historyHash with
  | none => .ok ()
  | some historyHash => db.ensureHistoryMatchesRoot historyHash state.rootHash

/-- A white space character. -/
def isWhitespace (c : Char) : Bool :=
  (0x09 ≤ c.toNat && c.toNat ≤ 0x0d) || (0x2000 ≤ c.toNat && c.toNat ≤ 0x200a) ||
    [0x20, 0x85, 0xa0, 0x1680, 0x2028, 0x2029, 0x202f, 0x205f, 0x3000].contains c.toNat

/-- A control character. -/
def isControl (c : Char) : Bool := c.toNat < 0x20 || (0x7f ≤ c.toNat && c.toNat ≤ 0x9f)

/-- A name a branch can have. -/
def validateBranchName (name : String) : Except Error Unit :=
  if name.isEmpty then .error "branch name must not be empty"
  else if name.toList.any isWhitespace then .error "branch name must not contain whitespace"
  else if name.toList.any isControl then
    .error "branch name must not contain control characters"
  else .ok ()

/-- Start a branch at a given state, which the caller read before this
transaction or was given by the client. -/
def createBranchPointer (P : Primitives) (db : Db) (name : String) (source : BranchState) :
    Except Error (BranchState × Db) := do
  validateBranchName name
  if (db.branches.lookup name).isSome then .error ("branch already exists: " ++ name)
  else do
    let _ ← loadRoot P db.objects source.rootHash
    db.ensureStateMatches source
    let db ← db.setBranch name source
    return (source, db)

/-- Whether a history point is reached from another by parent links, or the walk
ends at the first migration of a root. The steps are bounded by `fuel`, and a
point met twice is an error. -/
def historyDescendsFrom (db : Db) (target : BranchState) :
    Nat → Option Hash → List Hash → Except Error Bool
  | _, none, _ => .ok false
  | 0, some historyHash, _ => .error ("history chain contains a cycle at " ++ historyHash)
  | fuel + 1, some historyHash, seen =>
    if some historyHash = target.historyHash then .ok true
    else if historyHash ∈ seen then
      .error ("history chain contains a cycle at " ++ historyHash)
    else
      match db.histories.lookup historyHash with
      | none => .error "Query returned no rows"
      | some row =>
        match db.migrations.lookup row.migrationHash with
        | none => .error "Query returned no rows"
        | some migration =>
          if target.historyHash.isNone ∧ row.parentHistoryHash.isNone ∧
              migration.inputRootHash = target.rootHash then .ok true
          else historyDescendsFrom db target fuel row.parentHistoryHash (historyHash :: seen)

/-- How many steps a walk along parent links can take without meeting a point
twice. -/
def walkBound (db : Db) : Nat := db.histories.entries.length + 1

/-- Whether the source is the target, or descends from it. -/
def branchStateDescendsFrom (db : Db) (target source : BranchState) : Except Error Bool :=
  if target = source then .ok true
  else db.historyDescendsFrom target db.walkBound source.historyHash []

/-- What came of a fast-forward. -/
inductive FastForwardOutcome where
  | updated (old new : BranchState)
  | staleRoot (current : BranchState)
  | nonFastForward (current source : BranchState)
  deriving DecidableEq

/-- Move a branch forward to a state read before this transaction. -/
def fastForwardBranchPointer (P : Primitives) (db : Db) (target : String)
    (expectedRootHash : Hash) (source : BranchState) : Except Error (FastForwardOutcome × Db) := do
  validateBranchName target
  let old ← db.branch target
  if old.rootHash ≠ expectedRootHash then return (.staleRoot old, db)
  else do
    db.ensureStateMatches old
    let _ ← loadRoot P db.objects source.rootHash
    db.ensureStateMatches source
    let descends ← db.branchStateDescendsFrom old source
    if !descends then return (.nonFastForward old source, db)
    else do
      let db ← db.setBranch target source
      return (.updated old source, db)

/-- What came of a deletion. -/
inductive DeleteOutcome where
  | deleted (state : BranchState)
  | staleRoot (current : BranchState)
  deriving DecidableEq

/-- Delete a branch, which must still be at the expected root if one is given. -/
def deleteBranchPointerExpected (db : Db) (name : String) (expectedRootHash : Option Hash) :
    Except Error (DeleteOutcome × Db) := do
  validateBranchName name
  let state ← db.branch name
  if expectedRootHash.any (· ≠ state.rootHash) then return (.staleRoot state, db)
  else return (.deleted state, { db with branches := db.branches.erase name })

/-- Delete a branch other than the main one. -/
def deleteBranch (db : Db) (name : String) (expectedRootHash : Option Hash) :
    Except Error (DeleteOutcome × Db) :=
  if name = mainBranch then .error "cannot delete the main branch"
  else db.deleteBranchPointerExpected name expectedRootHash

/-! ### Walking the history -/

/-- A migration on the history of a branch. Its operation is kept as the text it is read from. -/
structure HistoryItem where
  historyHash : Hash
  parentHistoryHash : Option Hash
  migrationHash : Hash
  inputRoot : Hash
  outputRoot : Hash
  operationKind : String
  operationJson : String
  deriving DecidableEq

/-- The migrations found along parent links, newest first, each with an operation that can be
read. The walk itself has no bound; here it gives up when `fuel` runs out. -/
def historyItems {O : Type} (readOperation : String → Except Error O) (db : Db) :
    Nat → Option Hash → Except Error (List HistoryItem)
  | _, none => .ok []
  | 0, some _ => .error "out of fuel"
  | fuel + 1, some historyHash =>
    match db.histories.lookup historyHash with
    | none => .error "Query returned no rows"
    | some row =>
      match db.migrations.lookup row.migrationHash with
      | none => .error "Query returned no rows"
      | some migration => do
        let _ ← readOperation migration.operationJson
        let rest ← historyItems readOperation db fuel row.parentHistoryHash
        return {
          historyHash := historyHash
          parentHistoryHash := row.parentHistoryHash
          migrationHash := row.migrationHash
          inputRoot := migration.inputRootHash
          outputRoot := row.outputRootHash
          operationKind := migration.operationKind
          operationJson := migration.operationJson } :: rest

/-- The migrations of a branch, oldest first. -/
def historyChain {O : Type} (readOperation : String → Except Error O) (db : Db) (fuel : Nat)
    (name : String) : Except Error (List HistoryItem) := do
  let state ← db.branch name
  let items ← db.historyItems readOperation fuel state.historyHash
  return items.reverse

end Db

end CodeDb

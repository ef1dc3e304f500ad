import CodeDb.Bundle.Import
import CodeDb.Operations.Engine

/-!
# Requests and imports

Requests of clients and imports of bundles take turns, in any order. Bundles, forged ones too, keep
what requests keep, so whatever is requested and imported, the rows of the database are verified.

## Main definitions

* `ReachableWithBundles` — the databases reached by requests and imports

## Main results

* `reachableWithBundles_verified` — nothing is ever wrong with the rows
* `operations_verified` — so it is with the operations of the program
-/

namespace CodeDb

variable {P : Primitives} {E : Engine} {A : ArtifactCache} {db : Db}

/-- The databases reached from an empty one by requests of which some may be made, and by imports of
bundles with or without their artifacts, in any order. The cache of artifacts may be any each
time. -/
inductive ReachableWithBundles (P : Primitives) (E : Engine) (A : ArtifactCache)
    (requested : Db → Request E → Prop) : Db → Prop
  | empty : ReachableWithBundles P E A requested .empty
  | perform {db : Db} (before : ReachableWithBundles P E A requested db) {request : Request E}
    (may : requested db request) :
    ReachableWithBundles P E A requested (CodeDb.perform P db request)
  | importBundle {db : Db} (before : ReachableWithBundles P E A requested db) (cache : A.Cache)
    (document : BundleDocument P) (importArtifacts : Bool) :
    ReachableWithBundles P E A requested
      (CodeDb.importBundle E A db cache document importArtifacts).1

/-- What a request may record is read back. -/
def Request.ReadsBack (P : Primitives) (db : Db) (request : Request E) : Prop :=
  ∀ op, request.Records P db op → E.ReadsBack P op

theorem Db.Sound.importBundle (reliable : P.Reliable) (keepsObjects : E.KeepsObjects)
    (reads : E.ReadsTexts P) (sound : Db.Sound P E db) (cache : A.Cache)
    (document : BundleDocument P) (importArtifacts : Bool) :
    Db.Sound P E (CodeDb.importBundle E A db cache document importArtifacts).1 := by
  unfold CodeDb.importBundle
  split
  · exact sound
  · rename_i rootHash ready run
    have initialized := sound.perform reliable keepsObjects .ensureInitialized nofun
    simp only [CodeDb.perform, run, finishImmediate] at initialized
    split
    · exact initialized
    · rename_i after imported
      obtain ⟨objects, genesisRoot, mid, imported⟩ := importBundleDocument_ok imported
      exact imported.sound reliable keepsObjects reads initialized
        (Db.main_of_ensureInitialized run)

/-- What is requested and imported keeps what verification looks for. -/
theorem ReachableWithBundles.sound (reliable : P.Reliable) (keepsObjects : E.KeepsObjects)
    (reads : E.ReadsTexts P) (reach : ReachableWithBundles P E A (Request.ReadsBack P) db) :
    Db.Sound P E db := by
  induction reach with
  | empty => exact .empty
  | @perform _ _ request may ih => exact ih.perform reliable keepsObjects request may
  | importBundle _ cache document importArtifacts ih =>
    exact ih.importBundle reliable keepsObjects reads cache document importArtifacts

/-- However requests and imports are interleaved, and whatever the bundles say, verifying the
branches, the migrations and the histories of the database finds nothing wrong, as long as what is
requested to be recorded is read back. -/
theorem reachableWithBundles_verified (reliable : P.Reliable) (keepsObjects : E.KeepsObjects)
    (reads : E.ReadsTexts P) (reach : ReachableWithBundles P E A (Request.ReadsBack P) db) :
    verifyBranches db = [] ∧ verifyMigrationsAndHistories P E db = [] := by
  have sound := reach.sound reliable keepsObjects reads
  exact ⟨sound.verified_branches, sound.recorded.verified sound.ledger⟩

/-- With the operations of the program, what the store does need not be assumed: whatever is
requested and imported, nothing is wrong, as long as what is requested to be recorded is read
back. -/
theorem operations_verified (reliable : P.Reliable) {El : Elaborator P} {forms : OperationForms El}
    (reads : (operationsEngine El forms).ReadsTexts P)
    (reach : ReachableWithBundles P (operationsEngine El forms) A (Request.ReadsBack P) db) :
    verifyBranches db = [] ∧
      verifyMigrationsAndHistories P (operationsEngine El forms) db = [] := by
  have sound := reach.sound reliable (keepsObjects_operations El forms) reads
  exact ⟨sound.verified_branches, sound.recorded.verified sound.ledger⟩

theorem Reachable.withBundles (readsBack : ∀ op, E.ReadsBack P op) (reach : Reachable P E db) :
    ReachableWithBundles P E A (Request.ReadsBack P) db := by
  induction reach with
  | empty => exact .empty
  | perform _ request ih => exact ih.perform fun op _ => readsBack op

/-- After the requests of clients a bundle is imported. -/
theorem reachableWithBundles_verified_featureDb :
    let after := (importBundle typeNaming keyCache featureDb [] (creationBundle "Pair") true).1
    verifyBranches after = [] ∧ verifyMigrationsAndHistories plain typeNaming after = [] :=
  have reach : ReachableWithBundles plain typeNaming keyCache (Request.ReadsBack plain) featureDb :=
    reachable_featureDb.withBundles readsBack_typeNaming
  reachableWithBundles_verified plain_reliable keepsObjects_typeNaming readsTexts_typeNaming
    (reach.importBundle [] (creationBundle "Pair") true)

end CodeDb

import CodeDb.Language.Effects
import CodeDb.Lib.Below

/-!
# Bodies in a growing store

Objects are only ever added to the store, and never changed. What was read from it once is read
from it ever after: a body, and what a definition depends on.

## Main results

* `Grows.below_loadBody` — a body that was read
* `Grows.below_dependenciesForDefinition` — what a definition was found to depend on
-/

namespace CodeDb

open Except

variable {P : Primitives} {before after : Objects}

/-- An expression is read as often as its children are. -/
theorem below_readExpr {child child' : Hash → Except Error Expr}
    (below : ∀ hash, Below (child hash) (child' hash)) (kind : String) (payload : JsonValue) :
    Below (readExpr child kind payload) (readExpr child' kind payload) := by
  have field : ∀ (v : JsonValue) (key : String) (missing : Error),
      Below (v.getStr key missing >>= child) (v.getStr key missing >>= child') :=
    fun v key missing => (Below.refl _).bind below
  unfold readExpr
  dsimp only
  split
  -- every kind reads its parts in turn: some children, some lists of children, or other fields
  all_goals
    repeat first
      | exact .refl _
      | refine Below.bind (field _ _ _) fun _ => ?_
      | refine Below.bind (Below.refl _) fun _ => ?_
      | refine Below.bind (Below.mapM below _) fun _ => ?_
      | refine Below.bind (Below.mapM (fun _ => field _ _ _) _) fun _ => ?_
      | refine Below.bind (Below.mapM (fun _ => ?_) _) fun _ => ?_
      | exact (field _ _ _).bind fun _ => .refl _
      | exact (Below.refl _).bind fun _ => (field _ _ _).bind fun _ => .refl _
      | exact (Below.mapM_option below _).bind fun _ => (field _ _ _).bind fun _ => .refl _

namespace Grows

/-- A store that has grown has at least as many objects. -/
theorem length_le (grows : Grows P before after) :
    before.entries.length ≤ after.entries.length := by
  have sub : before.keys ⊆ after.keys := by
    intro hash mem
    obtain ⟨object, found⟩ := Option.isSome_iff_exists.mp (AList.lookup_isSome.mpr mem)
    exact AList.lookup_isSome.mp (by rw [grows.kept hash object found]; rfl)
  simpa [AList.keys, List.keys] using (List.subperm_of_subset before.keys_nodup sub).length_le

theorem below_getPayload (grows : Grows P before after) (hash : Hash) :
    Below (CodeDb.getPayload P before hash) (CodeDb.getPayload P after hash) :=
  fun _ read => grows.getPayload read

theorem below_definitionIsExternal (grows : Grows P before after) (definition : Hash) :
    Below (CodeDb.definitionIsExternal before definition)
      (CodeDb.definitionIsExternal after definition) :=
  Below.bind (fun _ read => grows.getKind read) fun _ => .refl _

/-- Deeper searches of a larger store read more expressions. -/
theorem below_loadExpr (grows : Grows P before after) {depth depth' : ℕ} (le : depth ≤ depth')
    (hash : Hash) : Below (CodeDb.loadExpr P before depth hash)
      (CodeDb.loadExpr P after depth' hash) := by
  -- on the depth of the smaller store, which pays for each child
  induction depth generalizing depth' hash with
  | zero => exact .error _ _
  | succ depth ih =>
    obtain ⟨depth', rfl⟩ : ∃ d, depth' = d + 1 := ⟨depth' - 1, by omega⟩
    refine Below.bind (grows.below_getPayload hash) fun payload => ?_
    refine Below.bind (.refl _) fun kind => ?_
    exact below_readExpr (fun child => ih (Nat.le_of_succ_le_succ le) child) kind payload

theorem below_loadBody (grows : Grows P before after) (hash : Hash) :
    Below (CodeDb.loadBody P before hash) (CodeDb.loadBody P after hash) :=
  grows.below_loadExpr grows.length_le hash

/-- What a definition depends on does not change. -/
theorem below_dependenciesForDefinition (grows : Grows P before after)
    (root : ProgramRootPayload) (definition : Hash) :
    Below (CodeDb.dependenciesForDefinition P before root definition)
      (CodeDb.dependenciesForDefinition P after root definition) := by
  refine Below.bind (grows.below_definitionIsExternal definition) fun external => ?_
  split
  · exact .refl _
  · refine Below.bind ?_ fun hash => ?_
    · exact Below.bind (grows.below_getPayload definition) fun _ => .refl _
    · exact Below.bind (grows.below_loadBody hash) fun _ => .refl _

end Grows

end CodeDb

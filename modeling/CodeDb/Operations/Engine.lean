import CodeDb.History.Growth
import CodeDb.Language.Types
import CodeDb.Operations.Apply

/-!
# The operations of the program

Recording and merging work with any operations. Here they are those of the program: applied to
roots as the appliers do, and checked by what every new root has to pass. How they are written down,
read and resolved, and what has to hold before and after them, is left open.

## Main definitions

* `OperationForms` — what is left open
* `operationsEngine` — the engine of the operations

## Main results

* `keepsObjects_operations` — whatever they do, no object is lost or replaced
-/

namespace CodeDb

variable {P : Primitives}

/-- How operations are written down, read, resolved and described, and their conditions. -/
structure OperationForms (El : Elaborator P) where
  ApiOperation : Type
  Condition : Type
  Postcondition : Type
  Summary : Type
  operationValue : Operation El → JsonValue
  readOperation : String → Except Error (Operation El)
  operationFromValue : JsonValue → Except Error (Operation El)
  expectRootHash : ApiOperation → Option Hash
  operationFromApi : Objects → Hash → ApiOperation → Except Error (Operation El)
  conditionsFor : Objects → Hash → Operation El → List Condition
  conditionValue : Condition → JsonValue
  conditionHolds : Objects → Hash → Condition → Except Error Bool
  postconditionsFor : Objects → Hash → Operation El → List Postcondition
  postconditionValue : Postcondition → JsonValue
  postconditionName : Postcondition → String
  postconditionHolds : Objects → Hash → Postcondition → Except Error Bool
  migrationSummary : Operation El → Summary
  migrationSummaryForRoots : Objects → Operation El → Hash → Hash → Except Error Summary
  diffRoots : Objects → Hash → Hash → Except Error JsonValue

/-- What the region of what is never dropped is born with. -/
def staticRegionPayload : JsonValue :=
  .object [("birth_history_hash", .string "genesis"), ("local_nonce", .string "builtin:static"),
    ("symbol_kind", .string "region_param")]

/-- The objects that are there before any other. -/
def builtinObjects : List (String × JsonValue) :=
  ((["Bool", "Unit"] ++ scalarIntTypes.map (·.name)).map fun typeName =>
    ("Type", .object [("type_kind", .string typeName)])) ++ [("SymbolBirth", staticRegionPayload)]

/-- Store the builtin types, and the region of what is never dropped. -/
def insertBuiltinTypes (P : Primitives) (objects : Objects) : Objects :=
  putAll P objects builtinObjects

/-- The operations of the program. -/
def operationsEngine (El : Elaborator P) (forms : OperationForms El) : Engine where
  Operation := Operation El
  ApiOperation := forms.ApiOperation
  Condition := forms.Condition
  Postcondition := forms.Postcondition
  Summary := forms.Summary
  kindName := Operation.kindName
  operationValue := forms.operationValue
  readOperation := forms.readOperation
  operationFromValue := forms.operationFromValue
  expectRootHash := forms.expectRootHash
  operationFromApi := forms.operationFromApi
  conditionsFor := forms.conditionsFor
  conditionValue := forms.conditionValue
  conditionHolds := forms.conditionHolds
  postconditionsFor := forms.postconditionsFor
  postconditionValue := forms.postconditionValue
  postconditionName := forms.postconditionName
  postconditionHolds := forms.postconditionHolds
  applyOperationToRoot objects inputRoot parentHistoryHash op :=
    (applyOperationToRoot El inputRoot parentHistoryHash op).run objects
  migrationSummary := forms.migrationSummary
  migrationSummaryForRoots := forms.migrationSummaryForRoots
  mergeBranch := .mergeBranch
  insertBuiltinTypes := insertBuiltinTypes P
  indexRoot objects rootHash := ((indexRoot El rootHash).run objects).map (·.2)
  typeCheckRoot := typeCheckRoot El
  diffRoots := forms.diffRoots

theorem keptIn_insertBuiltinTypes (objects : Objects) :
    KeptIn objects (insertBuiltinTypes P objects) := by
  unfold insertBuiltinTypes
  exact (grows_putAll objects builtinObjects).kept

/-- Whatever the operations do to the store, no object is lost or replaced. -/
theorem keepsObjects_operations (El : Elaborator P) (forms : OperationForms El) :
    (operationsEngine El forms).KeepsObjects := by
  refine ⟨?_, fun objects => ?_, ?_⟩
  · intro objects objects' root newRoot history op run
    have run : (applyOperationToRoot El root history op).run objects =
        .ok (newRoot, objects') := run
    exact (StoreM.grows _ run).kept
  · dsimp only [operationsEngine]
    exact keptIn_insertBuiltinTypes objects
  · intro objects objects' root run
    have run : ((indexRoot El root).run objects).map (·.2) = .ok objects' := run
    obtain ⟨_, indexed, rfl⟩ := Except.map_eq_ok.mp run
    exact (StoreM.grows _ indexed).kept

end CodeDb

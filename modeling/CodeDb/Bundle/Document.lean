import CodeDb.Merge.Plan
import CodeDb.Operations.Definitions
import CodeDb.Store.ReadBack

/-!
# Bundles

A bundle carries a program root to another database: the objects it is made of, and the migrations
that led to it from the empty root. A bundle comes from outside, so nothing it says is taken on
trust: its manifest must fit the rest, and its objects must be the ones their hashes name.

## Main definitions

* `BundleDocument` — a bundle
* `collectBundleObjectRefs` — what an object of a bundle refers to
* `validateBundleManifest`, `validateBundleObjects` — what is checked of it as it stands
-/

namespace CodeDb

/-! ### The document -/

structure BundleManifest where
  schema : String
  rootHash : Hash
  historyHash : Option Hash
  apiHash : Hash
  packageHash : Hash
  objectCount : ℕ
  migrationCount : ℕ
  artifactCount : ℕ
  artifactCacheIncluded : Bool
  requiresProjectionSources : Bool

structure BundleObject where
  schema : String
  hash : Hash
  kind : String
  schemaVersion : Int
  payload : JsonValue

/-- A migration of a bundle. The text of a bundle is canonical, so what a migration records is read
back as it is written. -/
structure BundleMigration (P : Primitives) where
  schema : String
  sequence : ℕ
  migrationHash : Hash
  historyHash : Hash
  parentHistoryHash : Option Hash
  inputRootHash : Hash
  outputRootHash : Hash
  operationKind : String
  operation : JsonValue
  preconditions : JsonValue
  postconditions : JsonValue
  agent : JsonValue
  auditHash : Hash
  readsOperation : P.Reads operation operation
  readsPreconditions : P.Reads preconditions preconditions
  readsPostconditions : P.Reads postconditions postconditions

/-- An artifact that was computed from an object. -/
structure BundleArtifact where
  schema : String
  cacheKey : String
  cacheKeyInput : JsonValue
  artifactHash : Hash
  artifactJson : Option JsonValue
  artifactBytesHex : Option String

structure BundleDocument (P : Primitives) where
  schema : String
  manifest : BundleManifest
  objects : List BundleObject
  migrations : List (BundleMigration P)
  artifactCache : List BundleArtifact

/-- The objects of a bundle by their hashes. -/
abbrev BundleObjects := AList fun _ : Hash => BundleObject

/-! ### Hashes -/

/-- The separator of bytes that are no objects. -/
def bytesDomain : String := "codedb/bytes/v1\x00"

/-- The hash of the text of a value. -/
def textHash (P : Primitives) (value : JsonValue) : Hash :=
  hashBytes P bytesDomain (utf8 (canonicalJson P.floatText value))

def bundleSchema : String := "codedb/bundle/v1"

def bundleManifestSchema : String := "codedb/bundle-manifest/v1"

def bundleObjectSchema : String := "codedb/bundle-object/v1"

def bundleMigrationSchema : String := "codedb/bundle-migration/v1"

def bundleMigrationAuditSchema : String := "codedb/bundle-migration-audit/v1"

def bundleArtifactSchema : String := "codedb/bundle-artifact/v1"

def bundleApiSchema : String := "codedb/bundle-api/v1"

def packageIdentitySchema : String := "codedb/package-identity/v1"

/-- The hash of the form of bundles. -/
def bundleApiHash (P : Primitives) : Hash :=
  textHash P (.object
    [("artifact_schema", .string bundleArtifactSchema),
     ("bundle_schema", .string bundleSchema),
     ("manifest_schema", .string bundleManifestSchema),
     ("migration_audit_schema", .string bundleMigrationAuditSchema),
     ("migration_schema", .string bundleMigrationSchema),
     ("object_schema", .string bundleObjectSchema),
     ("schema", .string bundleApiSchema)])

/-- The identity of a package. -/
def packageHash (P : Primitives) (rootHash : Hash) (historyHash : Option Hash) (apiHash : Hash) :
    Hash :=
  textHash P (.object
    [("api_hash", .string apiHash),
     ("history_hash", historyHash.elim .null .string),
     ("root_hash", .string rootHash),
     ("schema", .string packageIdentitySchema)])

/-- The hash of all a migration of a bundle says. -/
def bundleMigrationAuditHash {P : Primitives} (row : BundleMigration P) : Hash :=
  textHash P (.object
    [("agent", row.agent),
     ("history_hash", .string row.historyHash),
     ("input_root_hash", .string row.inputRootHash),
     ("migration_hash", .string row.migrationHash),
     ("operation", row.operation),
     ("operation_kind", .string row.operationKind),
     ("output_root_hash", .string row.outputRootHash),
     ("parent_history_hash", row.parentHistoryHash.elim .null .string),
     ("postconditions", row.postconditions),
     ("preconditions", row.preconditions),
     ("schema", .string bundleMigrationAuditSchema),
     ("sequence", .number (.posInt (UInt64.ofNat row.sequence)))])

/-! ### References -/

/-- The hash that a field refers to. -/
def pushHashRef : Option JsonValue → List Hash
  | some (.string hash) => [hash]
  | _ => []

/-- The items of a field that is an array. -/
def arrayItems : Option JsonValue → List JsonValue
  | some (.array items) => items
  | _ => []

/-- The hashes that an array refers to. -/
def pushHashArrayRefs (value : Option JsonValue) : List Hash :=
  (arrayItems value).flatMap fun item => pushHashRef (some item)

/-- The hashes that some fields refer to. -/
def fieldRefs (payload : JsonValue) (fields : List String) : List Hash :=
  fields.flatMap fun field => pushHashRef (payload.get? field)

/-- The hashes that some fields of the items of an array refer to. -/
def itemRefs (payload : JsonValue) (array : String) (fields : List String) : List Hash :=
  (arrayItems (payload.get? array)).flatMap fun item => fieldRefs item fields

/-- What an object of a bundle refers to, in the order it is mentioned. -/
def collectBundleObjectRefs (kind : String) (payload : JsonValue) : List Hash :=
  match kind with
  | "Type" =>
    match JsonValue.asStr? (payload.get? "type_kind") with
    | some "Named" =>
      pushHashRef (payload.get? "type_symbol") ++ pushHashArrayRefs (payload.get? "region_args")
    | some "Reference" => fieldRefs payload ["region", "referent"]
    | some "RawPointer" => fieldRefs payload ["pointee"]
    | some "Box" => fieldRefs payload ["element"]
    | some "Slice" => fieldRefs payload ["region", "element"]
    | some "FixedArray" => fieldRefs payload ["element"]
    | some "Record" => itemRefs payload "fields" ["type"]
    | some "Enum" => itemRefs payload "variants" ["type"]
    | _ => []
  | "SymbolBirth" => []
  | "FunctionSignature" =>
    itemRefs payload "region_params" ["region"] ++ pushHashArrayRefs (payload.get? "params") ++
      pushHashRef (payload.get? "return")
  | "Expression" => extractHashStrings payload
  | "FunctionDef" => fieldRefs payload ["symbol", "function_sig_hash", "typed_body_expr_hash"]
  | "ExternalFunction" => fieldRefs payload ["symbol", "function_sig_hash"]
  | "FunctionInterface" => fieldRefs payload ["symbol_hash", "signature_hash"]
  | "ProgramRoot" =>
    itemRefs payload "symbols" ["symbol", "definition", "signature"] ++
      itemRefs payload "names" ["symbol"] ++
      itemRefs payload "types" ["type_symbol", "type_def"] ++
      itemRefs payload "type_names" ["type_symbol"] ++
      itemRefs payload "param_names" ["symbol"] ++
      itemRefs payload "exports" ["symbol"] ++
      itemRefs payload "tests" ["test"] ++
      pushHashArrayRefs (payload.get? "recursion_groups") ++
      pushHashArrayRefs (payload.get? "type_recursion_groups")
  | "RecursionGroup" => itemRefs payload "members" ["symbol", "definition", "signature"]
  | "TypeRecursionGroup" => itemRefs payload "members" ["type_symbol", "type_def"]
  | "TestCase" => pushHashRef (payload.get? "entry_symbol")
  | "LinkPlanInput" =>
    pushHashRef (payload.get? "entry_symbol_hash") ++
      itemRefs payload "export_map" ["symbol_hash"] ++
      (arrayItems (payload.get? "external_symbols")).flatMap fun entry =>
        fieldRefs entry ["symbol_hash", "definition_hash", "signature_hash"] ++
          pushHashArrayRefs (entry.get? "param_type_hashes") ++
          pushHashRef (entry.get? "return_type_hash")
  | _ => extractHashStrings payload

/-- The kinds of objects artifacts are computed from. -/
def artifactInputObjectKindIsSupported (object : BundleObject) : Bool :=
  match object.kind with
  | "FunctionInterface" => true
  | "Type" => true
  | "LinkPlanInput" =>
    JsonValue.asStr? (object.payload.get? "schema") == some "codedb/link-input/v1"
  | _ => false

/-! ### Checks -/

/-- Refuse a bundle unless a condition holds. -/
def bundleCheck (p : Prop) [Decidable p] (message : Error) : Except Error Unit :=
  if p then .ok () else .error message

@[simp] theorem bundleCheck_eq_ok {p : Prop} [Decidable p] {message : Error} {u : Unit} :
    bundleCheck p message = .ok u ↔ p := by
  unfold bundleCheck
  split_ifs with holds <;> simp [holds]

/-- The manifest fits the rest of the bundle. -/
def validateBundleManifest {P : Primitives} (document : BundleDocument P) : Except Error Unit := do
  bundleCheck (document.schema = bundleSchema)
    ("bad_bundle: unsupported bundle schema " ++ document.schema)
  let manifest := document.manifest
  bundleCheck (manifest.schema = bundleManifestSchema)
    "bad_bundle: unsupported bundle manifest schema"
  bundleCheck (manifest.apiHash = bundleApiHash P)
    ("bad_bundle: unsupported bundle API hash " ++ manifest.apiHash)
  let expectedPackage := packageHash P manifest.rootHash manifest.historyHash manifest.apiHash
  bundleCheck (manifest.packageHash = expectedPackage)
    ("bad_bundle: package hash " ++ manifest.packageHash ++ " recomputes to " ++ expectedPackage)
  bundleCheck (manifest.objectCount = document.objects.length)
    ("bad_bundle: manifest object_count " ++ toString manifest.objectCount ++ " does not match " ++
      toString document.objects.length)
  bundleCheck (manifest.migrationCount = document.migrations.length)
    ("bad_bundle: manifest migration_count " ++ toString manifest.migrationCount ++
      " does not match " ++ toString document.migrations.length)
  bundleCheck (manifest.artifactCount = document.artifactCache.length)
    ("bad_bundle: manifest artifact_count " ++ toString manifest.artifactCount ++
      " does not match " ++ toString document.artifactCache.length)
  bundleCheck (manifest.artifactCacheIncluded ∨ document.artifactCache.isEmpty)
    "bad_bundle: manifest omits artifact cache but artifact_cache is present"
  bundleCheck (¬ manifest.requiresProjectionSources)
    "bad_bundle: projection source files are not supported as bundle inputs"
  bundleCheck (document.objects.any fun object => object.hash = manifest.rootHash)
    ("bad_bundle: root object " ++ manifest.rootHash ++ " is missing from object closure")
  match manifest.historyHash, document.migrations.getLast? with
  | some expected, last =>
    bundleCheck (last.any fun row => row.historyHash = expected)
      ("bad_bundle_history: history head " ++ expected ++ " is missing from migration slice")
  | none, none => .ok ()
  | none, some _ => .error "bad_bundle_history: migration slice has no manifest history"

/-- The hash of an object of a bundle, worked out from what it says. -/
def BundleObject.recomputedHash (P : Primitives) (object : BundleObject) : Hash :=
  hashObjectCanonical P object.kind object.schemaVersion (canonicalJson P.floatText object.payload)

/-- The objects of a bundle, which are those their hashes name, after some others. -/
def validateObjectsFrom (P : Primitives) :
    BundleObjects → List BundleObject → Except Error BundleObjects
  | objects, [] => .ok objects
  | objects, object :: rest => do
    bundleCheck (object.schema = bundleObjectSchema)
      ("bad_bundle: unsupported object schema for " ++ object.hash)
    let recomputed := object.recomputedHash P
    bundleCheck (recomputed = object.hash)
      ("bad_bundle_hash: object " ++ object.hash ++ " recomputes to " ++ recomputed)
    bundleCheck (object.hash ∉ objects) ("bad_bundle: duplicate object " ++ object.hash)
    validateObjectsFrom P (objects.insert object.hash object) rest

/-- The objects of a bundle, which are those their hashes name. -/
def validateBundleObjects {P : Primitives} (document : BundleDocument P) :
    Except Error BundleObjects :=
  validateObjectsFrom P ∅ document.objects

variable {P : Primitives}

theorem validateObjectsFrom_cons {objects after : BundleObjects} {object : BundleObject}
    {rest : List BundleObject} (run : validateObjectsFrom P objects (object :: rest) = .ok after) :
    object.recomputedHash P = object.hash ∧ object.hash ∉ objects ∧
      validateObjectsFrom P (objects.insert object.hash object) rest = .ok after := by
  obtain ⟨_, -, run⟩ := Except.bind_eq_ok.mp run
  obtain ⟨_, hash, run⟩ := Except.bind_eq_ok.mp run
  obtain ⟨_, fresh, run⟩ := Except.bind_eq_ok.mp run
  exact ⟨bundleCheck_eq_ok.mp hash, bundleCheck_eq_ok.mp fresh, run⟩

/-- The checked objects are those of the bundle, and those before. -/
theorem lookup_validateObjectsFrom {objects after : BundleObjects} {list : List BundleObject}
    (run : validateObjectsFrom P objects list = .ok after) {hash : Hash} {object : BundleObject} :
    after.lookup hash = some object ↔
      objects.lookup hash = some object ∨ object ∈ list ∧ object.hash = hash := by
  induction list generalizing objects with
  | nil =>
    obtain rfl : objects = after := Except.ok.inj run
    simp
  | cons first rest ih =>
    obtain ⟨-, fresh, run⟩ := validateObjectsFrom_cons run
    rw [ih run]
    -- the first object is new under its hash, so what is found there is that one or comes later
    by_cases same : hash = first.hash
    · subst same
      rw [AList.lookup_insert, AList.lookup_eq_none.mpr fresh]
      constructor
      · rintro (found | ⟨listed, named⟩)
        · obtain rfl := Option.some.inj found
          exact Or.inr ⟨List.mem_cons_self, rfl⟩
        · exact Or.inr ⟨List.mem_cons_of_mem _ listed, named⟩
      · rintro (found | ⟨listed, named⟩)
        · simp at found
        · rcases List.mem_cons.mp listed with rfl | listed
          · exact Or.inl rfl
          · exact Or.inr ⟨listed, named⟩
    · rw [AList.lookup_insert_ne same]
      constructor
      · rintro (found | ⟨listed, named⟩)
        · exact Or.inl found
        · exact Or.inr ⟨List.mem_cons_of_mem _ listed, named⟩
      · rintro (found | ⟨listed, named⟩)
        · exact Or.inl found
        · rcases List.mem_cons.mp listed with rfl | listed
          · exact absurd named.symm same
          · exact Or.inr ⟨listed, named⟩

/-- Every checked object is the one its hash names. -/
theorem objectHash_of_validateObjectsFrom {objects after : BundleObjects}
    {list : List BundleObject} (run : validateObjectsFrom P objects list = .ok after) :
    ∀ object ∈ list, object.recomputedHash P = object.hash := by
  induction list generalizing objects with
  | nil => simp
  | cons first rest ih =>
    obtain ⟨named, -, run⟩ := validateObjectsFrom_cons run
    exact List.forall_mem_cons.mpr ⟨named, ih run⟩

/-- The checked objects of a bundle are its objects. -/
theorem lookup_validateBundleObjects {document : BundleDocument P} {objects : BundleObjects}
    (run : validateBundleObjects document = .ok objects) {hash : Hash} {object : BundleObject} :
    objects.lookup hash = some object ↔ object ∈ document.objects ∧ object.hash = hash := by
  rw [lookup_validateObjectsFrom run]
  simp

end CodeDb

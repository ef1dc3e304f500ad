import CodeDb.Invariants.Runs
import CodeDb.Operations.TypeRoundTrip

/-!
# A type that is created twice

The caller of an operation that creates a type may give the births of the type and of its
members. Nothing checks that the type they name is not there yet, so an operation that
creates a type under the birth of another one is accepted, and the root lists the type twice:
once with the definition and once with the placeholder that stood in for it.

## Main definitions

* `builtinTypes` — the language of builtin types
* `TypesOnly` — a root with types alone
* `withTypesOf` — the types of two roots in one root

## Main results

* `applyCreateType_given` — a type is created whether or not it is there
* `wellFormed_lost` — a root that operations lead to and that is not well formed
-/

namespace CodeDb

open SortOn

/-- As much of the language as the members of types need that are integers: the type is found
by its name and accepted by its hash, and there is nothing else. -/
def builtinTypes : Elaborator plain where
  RawExpr := Empty
  rawExprDecEq := inferInstance
  TestValue := Empty
  testValueToValue := nofun
  testValueFromValue _ := .error "no values"
  Value := Empty
  valueFromTestValue := nofun
  validateTestValueForType _ _ := nofun
  evalSymbol _ _ _ _ := .error "no functions"
  resolveType _ _ name _ _ :=
    if name = "i64" then pure (typeHashFor plain "I64") else .fail ("unknown type " ++ name)
  typeExpr _ := nofun
  typeAssignable _ _ source destination := .ok (source == destination)
  typeName _ hash := .ok hash
  typeNameInRoot _ _ _ hash _ := .ok hash
  isReference _ _ _ := .ok false
  typeContainsRawPointer _ _ _ := .ok false
  typedExprToRaw _ _ _ _ _ := .error "no functions"
  appendDefaultArgToCalls := nofun
  borrowCallArgToCalls := nofun
  rewriteForMemberRename _ _ _ _ _ _ _ := .error "no functions"
  dependenciesForDefinition _ _ _ := .error "no functions"
  renderFunctionSource _ _ _ _ := .error "no functions"
  concreteGenericCalls _ _ := .error "no functions"
  substituteBodyType _ _ _ := .fail "no functions"
  substituteTypedExpr _ _ _ := .fail "no functions"
  validateTypeHash _ _ type _ _ :=
    if type = typeHashFor plain "I64" then .ok () else .error ("unknown type " ++ type)
  verifyExprType _ _ _ _ _ _ := .error "no functions"
  exprEscapesLocalBorrow _ _ _ := .error "no functions"
  verifyFunctionBorrows _ _ _ _ := .error "no functions"
  verifyFunctionEffects _ _ _ := .error "no functions"

/-! ### Roots with types alone -/

/-- The entry of a type whose definition is read from now on, and whose members are integers. -/
def IntegerType (objects : Objects) (entry : RootTypePayload) : Prop :=
  ∃ definition : TypeDefinition, definition.body.typeSymbol = entry.typeSymbol ∧
    (∀ m ∈ definition.body.members, m.typeHash = typeHashFor plain "I64") ∧
    ∀ later, Grows plain objects later → typeDefinition plain later entry.typeDef = .ok definition

/-- A root has types and no functions. The types are stored and have integers for members. -/
structure TypesOnly (objects : Objects) (root : ProgramRootPayload) : Prop where
  symbols : root.symbols = []
  names : root.names = []
  exports : root.exports = []
  tests : root.tests = []
  metadata : root.metadata = ∅
  integers : ∀ entry ∈ root.types, IntegerType objects entry
  stored : ∀ entry ∈ root.types, entry.typeSymbol ∈ objects ∧ entry.typeDef ∈ objects
  named : ∀ b ∈ root.typeNames, b.typeSymbol ∈ objects

variable {before after objects : Objects} {root : ProgramRootPayload}

theorem Grows.mem (grows : Grows plain before after) {hash : Hash} (mem : hash ∈ before) :
    hash ∈ after := by
  obtain ⟨object, found⟩ := Option.isSome_iff_exists.mp (AList.lookup_isSome.mpr mem)
  exact AList.lookup_isSome.mp (by simp [grows.kept _ _ found])

theorem IntegerType.grow {entry : RootTypePayload} (integer : IntegerType before entry)
    (grows : Grows plain before after) : IntegerType after entry := by
  obtain ⟨definition, same, members, read⟩ := integer
  exact ⟨definition, same, members, fun later more => read later (grows.trans more)⟩

theorem TypesOnly.grow (only : TypesOnly before root) (grows : Grows plain before after) :
    TypesOnly after root where
  __ := only
  integers entry mem := (only.integers entry mem).grow grows
  stored entry mem := ⟨grows.mem (only.stored entry mem).1, grows.mem (only.stored entry mem).2⟩
  named b mem := grows.mem (only.named b mem)

theorem TypesOnly.normalize (only : TypesOnly objects root) :
    TypesOnly objects (normalizeRoot root) where
  symbols := by rw [normalizeRoot, only.symbols, sortOn_nil]
  names := by rw [normalizeRoot, only.names, sortOn_nil]
  exports := by rw [normalizeRoot, only.exports, sortOn_nil]
  tests := by rw [normalizeRoot, only.tests, sortOn_nil]
  metadata := only.metadata
  integers entry mem := only.integers entry ((mem_sortOn _).mp mem)
  stored entry mem := only.stored entry ((mem_sortOn _).mp mem)
  named b mem := only.named b ((mem_sortOn _).mp mem)

section Entry

variable {symbol typeDef : Hash} (only : TypesOnly objects root)
  (integer : IntegerType objects ⟨symbol, typeDef⟩)
  (stored : symbol ∈ objects ∧ typeDef ∈ objects)
include only integer stored

/-- A type with integers for members may be added. -/
theorem TypesOnly.addType (name : String) :
    TypesOnly objects (CodeDb.addType root "main" name symbol typeDef) where
  symbols := only.symbols
  names := only.names
  exports := only.exports
  tests := only.tests
  metadata := only.metadata
  integers e mem := by
    rcases List.mem_append.mp mem with mem | mem
    · exact only.integers e mem
    · rw [List.mem_singleton.mp mem]
      exact integer
  stored e mem := by
    rcases List.mem_append.mp mem with mem | mem
    · exact only.stored e mem
    · rw [List.mem_singleton.mp mem]
      exact stored
  named b mem := by
    rcases List.mem_append.mp mem with mem | mem
    · exact only.named b mem
    · rw [List.mem_singleton.mp mem]
      exact stored.1

/-- A type may be given another definition with integers for members. -/
theorem TypesOnly.updateTypeDef :
    TypesOnly objects (CodeDb.updateTypeDef root symbol typeDef) := by
  have changed : ∀ e ∈ (CodeDb.updateTypeDef root symbol typeDef).types,
      e ∈ root.types ∨ e = ⟨symbol, typeDef⟩ := by
    intro e mem
    rcases List.mem_updateFirst mem with mem | ⟨old, -, same, rfl⟩
    · exact .inl mem
    · exact .inr (by rw [beq_iff_eq.mp same])
  refine ⟨only.symbols, only.names, only.exports, only.tests, only.metadata, fun e mem => ?_,
    fun e mem => ?_, only.named⟩
  · rcases changed e mem with mem | rfl
    · exact only.integers e mem
    · exact integer
  · rcases changed e mem with mem | rfl
    · exact only.stored e mem
    · exact stored

end Entry

theorem validateEach_eq_ok {α : Type} {check : α → Except String Unit} {l : List α}
    (passes : ∀ a ∈ l, check a = .ok ()) : validateEach check l = .ok () := by
  induction l with
  | nil => rfl
  | cons a l ih =>
    exact Except.bind_eq_ok.mpr ⟨(), passes a List.mem_cons_self,
      ih fun b mem => passes b (List.mem_cons_of_mem _ mem)⟩

/-- A root with types alone is indexed. -/
theorem TypesOnly.indexed (only : TypesOnly before root) {rootHash : Hash}
    (loaded : loadRoot plain before rootHash = .ok root) :
    (indexRoot builtinTypes rootHash).run before = .ok ((), before) := by
  have types : requireObjects (root.types.flatMap fun entry => [entry.typeSymbol, entry.typeDef])
      before = .ok () := by
    refine validateEach_eq_ok fun hash mem => if_pos ?_
    obtain ⟨entry, listed, rfl | rfl⟩ : ∃ entry ∈ root.types,
      hash = entry.typeSymbol ∨ hash = entry.typeDef := by simpa using mem
    · exact (only.stored entry listed).1
    · exact (only.stored entry listed).2
  have typeNames : requireObjects (root.typeNames.map (·.typeSymbol)) before = .ok () := by
    refine validateEach_eq_ok fun hash mem => if_pos ?_
    obtain ⟨b, listed, rfl⟩ := List.mem_map.mp mem
    exact only.named b listed
  refine StoreM.run_read_bind.mpr ⟨root, loaded, ?_⟩
  rw [only.symbols]
  refine StoreM.run_bind.mpr ⟨[], before, rfl, StoreM.run_read.mpr ⟨?_, rfl⟩⟩
  rw [only.names, only.exports, preferredNames, only.names]
  exact Except.bind_eq_ok.mpr ⟨(), types, Except.bind_eq_ok.mpr ⟨(), rfl,
    Except.bind_eq_ok.mpr ⟨(), typeNames, rfl⟩⟩⟩

/-- A root with types alone is accepted. -/
theorem TypesOnly.accepted (only : TypesOnly before root) {rootHash : Hash}
    (loaded : loadRoot plain before rootHash = .ok root) :
    typeCheckRoot builtinTypes before rootHash = .ok () := by
  have types : validateRootTypeDefinitions builtinTypes before root = .ok () := by
    refine validateEach_eq_ok fun entry mem => ?_
    obtain ⟨definition, same, members, read⟩ := only.integers entry mem
    refine Except.bind_eq_ok.mpr ⟨definition, read before (.refl _), ?_⟩
    rw [if_neg (not_not_intro same)]
    exact validateEach_eq_ok fun m mem => if_pos (members m mem)
  refine Except.bind_eq_ok.mpr ⟨root, loaded, Except.bind_eq_ok.mpr ⟨(), types, ?_⟩⟩
  rw [only.symbols, validateTestsForRoot, only.tests]
  rfl

/-- A root with types alone is stored, indexed and checked. -/
theorem TypesOnly.checked (addressed : Addressed plain before) (only : TypesOnly before root) :
    ∃ newRoot after, (putCheckedRoot builtinTypes root).run before = .ok (newRoot, after) ∧
      loadRoot plain after newRoot = .ok (normalizeRoot root) := by
  have normal := only.normalize
  have exported : validateExportMap (normalizeRoot root) = .ok () := by
    rw [validateExportMap, normal.symbols, normal.exports]
    rfl
  have stored : Stored plain _ "ProgramRoot" (rootToValue (normalizeRoot root)) :=
    Stored.put plain_reliable addressed
  have loaded := stored.loadRoot (by rw [normal.metadata]; exact nofun)
  rw [normalizeRoot_normalizeRoot] at loaded
  replace normal := normal.grow (grows_putObject before "ProgramRoot"
    (rootToValue (normalizeRoot root)))
  have put : (storeRoot root : StoreM plain Hash).run before =
      .ok (putObject plain before "ProgramRoot" (rootToValue (normalizeRoot root))) :=
    Except.bind_eq_ok.mpr ⟨(), exported, rfl⟩
  exact ⟨_, _, StoreM.run_bind.mpr ⟨_, _, put, StoreM.run_bind.mpr ⟨(), _, normal.indexed loaded,
    StoreM.run_bind.mpr ⟨(), _, StoreM.run_read.mpr ⟨normal.accepted loaded, rfl⟩, rfl⟩⟩⟩, loaded⟩

/-! ### Creating a type -/

/-- A record with one member, an integer. -/
def integerRecord (typeSymbol memberSymbol : Hash) (name : String) : TypeDefinition :=
  .record ⟨typeSymbol, [], [], [⟨memberSymbol, name, typeHashFor plain "I64"⟩]⟩

theorem integerRecord_valid (typeSymbol : Hash) {memberSymbol : Hash} {name : String}
    (prefixed : hasHashPrefix memberSymbol) (identifier : isProjectionIdentifier name) :
    (integerRecord typeSymbol memberSymbol name).Valid where
  regionParams := rfl
  typeParams := rfl
  members := by
    have integer : hasHashPrefix (typeHashFor plain "I64") := hasHashPrefix_objectHash _ _ _
    simp [integerRecord, TypeDefinition.body, validateMemberDefs, validateMemberDefs.go,
      validateProjectionIdentifier, identifier, prefixed, integer, bind, Except.bind]

/-- The placeholder of a record. -/
theorem putPlaceholder_field (typeSymbol : Hash) :
    (putPlaceholder typeSymbol [] [] .field : StoreM plain Hash) =
      putTypeDef typeSymbol (integerRecord typeSymbol typeSymbol "placeholder") := rfl

/-- What a caller gives for a type with one member. -/
def oneMember (birth member : SymbolBirthSpec) : TypeDefinitionIdentity where
  typeSymbolBirth := birth
  regionParamBirths := []
  memberBirths := [member]

/-- The birth of the member of a type. -/
def memberBirth (birth : SymbolBirthSpec) : SymbolBirthSpec where
  symbolKind := "record_field"
  birthHistoryHash := "genesis"
  localNonce := "x"
  ownerTypeSymbol := some (symbolOfBirth plain birth)

/-- The type a caller gives a birth. -/
def createGiven (birth : SymbolBirthSpec) (name : String) : Operation builtinTypes :=
  .createType "main" name "" [] [] (.record [⟨"x", "i64"⟩])
    (some (oneMember birth (memberBirth birth)))

/-- A definition is stored, and read from then on. -/
theorem putTypeDef_integerRecord (addressed : Addressed plain before) (typeSymbol : Hash)
    {memberSymbol : Hash} {name : String} (prefixed : hasHashPrefix memberSymbol)
    (identifier : isProjectionIdentifier name) :
    ∃ typeDef after, (putTypeDef typeSymbol (integerRecord typeSymbol memberSymbol name) :
        StoreM plain _).run before = .ok (typeDef, after) ∧ typeDef ∈ after ∧
      IntegerType after ⟨typeSymbol, typeDef⟩ := by
  obtain ⟨typeDef, after, run, -, stored, read⟩ :=
    putTypeDef_run addressed (integerRecord_valid typeSymbol prefixed identifier)
  refine ⟨typeDef, after, run, stored, integerRecord typeSymbol memberSymbol name, rfl, ?_,
    fun later grows => read grows⟩
  intro m mem
  rw [List.mem_singleton.mp mem]

theorem resolveType_i64 {module : String} {scope : RegionScope} :
    (builtinTypes.resolveType module root "i64" scope []).run before =
      .ok (typeHashFor plain "I64", before) := by
  simp only [builtinTypes, if_true]
  exact StoreM.run_pure

/-- The members a caller gives a type are resolved. -/
theorem typeDefinitionFromSource_given (birth : SymbolBirthSpec) :
    (typeDefinitionFromSource builtinTypes root "main" none "" (symbolOfBirth plain birth) [] []
        (regionScopeFromParams []) (.record [⟨"x", "i64"⟩])
        (some (oneMember birth (memberBirth birth)))).run before =
      .ok (integerRecord (symbolOfBirth plain birth) (symbolOfBirth plain (memberBirth birth)) "x",
        (putObject plain before "SymbolBirth" (memberBirth birth).toPayload).2) := by
  have put : (putSymbolBirthSpec (memberBirth birth) "record_field"
      (some (symbolOfBirth plain birth)) : StoreM plain Hash).run before =
        .ok (putObject plain before "SymbolBirth" (memberBirth birth).toPayload) := by
    simp [putSymbolBirthSpec, memberBirth, putBirth, StoreM.put]
  have resolved : (membersFromSource builtinTypes .field root "main" none ""
      (symbolOfBirth plain birth)
      [] (regionScopeFromParams []) [(0, ⟨"x", "i64"⟩, some (memberBirth birth))]).run before =
        .ok ([⟨symbolOfBirth plain (memberBirth birth), "x", typeHashFor plain "I64"⟩],
          (putObject plain before "SymbolBirth" (memberBirth birth).toPayload).2) := by
    have identifier : validateProjectionIdentifier "record field" "x" = .ok () := by decide
    simp only [membersFromSource, StoreM.each, MemberSort.label, MemberSort.birthKind]
    refine StoreM.run_bind.mpr ⟨_, _, StoreM.run_lift_bind.mpr ⟨(), identifier,
      StoreM.run_bind.mpr ⟨_, _, put, StoreM.run_bind.mpr ⟨_, _, resolveType_i64,
        StoreM.run_pure⟩⟩⟩, StoreM.run_bind.mpr ⟨_, _, StoreM.run_pure, StoreM.run_pure⟩⟩
  rw [typeDefinitionFromSource, oneMember]
  dsimp only
  rw [if_neg (by simp [TypeDefinitionKind.members])]
  simp only [TypeDefinitionKind.sort, TypeDefinitionKind.members, List.map, List.zip_cons_cons,
    List.zip_nil_left, List.mapIdx_cons, List.mapIdx_nil]
  refine StoreM.run_bind.mpr ⟨_, _, resolved, ?_⟩
  exact StoreM.run_pure

/-- A type is born as the caller says. -/
theorem putTypeBirth_given (objects : Objects) (birth : SymbolBirthSpec)
    (kind : birth.symbolKind = "type") (owner : birth.ownerTypeSymbol = none) :
    (putTypeBirth none "" (some (oneMember birth (memberBirth birth))) :
      StoreM plain Hash).run objects =
        .ok (symbolOfBirth plain birth, (putObject plain objects "SymbolBirth"
          birth.toPayload).2) := by
  simp [putTypeBirth, oneMember, putSymbolBirthSpec, kind, owner, putBirth, StoreM.put]
  rfl

theorem exists_rootTypeEntry_addType (root : ProgramRootPayload) (name : String)
    (symbol typeDef : Hash) :
    ∃ entry, rootTypeEntry (addType root "main" name symbol typeDef) symbol = .ok entry := by
  have found : (rootType (addType root "main" name symbol typeDef) symbol).isSome := by
    simp [rootType, addType]
  obtain ⟨entry, found⟩ := Option.isSome_iff_exists.mp found
  exact ⟨entry, by rw [rootTypeEntry, found]⟩

/-- Without metadata there is nothing to bring up to date. -/
theorem TypesOnly.synchronized (only : TypesOnly objects root) :
    synchronizeUnlessMain "main" root = root := by
  refine if_neg ?_
  rw [only.metadata]
  decide

/-- A type is created under the birth that the caller gives it, whether or not the root has a
type of that birth. -/
theorem applyCreateType_given (addressed : Addressed plain before) {inputRoot : Hash}
    (loaded : loadRoot plain before inputRoot = .ok root) (only : TypesOnly before root)
    (birth : SymbolBirthSpec) (kind : birth.symbolKind = "type")
    (owner : birth.ownerTypeSymbol = none) {name : String}
    (identifier : isProjectionIdentifier name) (free : typeNameTaken root "main" name = false) :
    ∃ newRoot after new, (applyOperationToRoot builtinTypes inputRoot none
        (createGiven birth name)).run before = .ok (newRoot, after) ∧
      loadRoot plain after newRoot = .ok new ∧ TypesOnly after new ∧
      (typeSymbolsOf new).Perm (typeSymbolsOf root ++ [symbolOfBirth plain birth]) ∧
      (new.typeNames.map (·.displayName)).Perm (root.typeNames.map (·.displayName) ++ [name]) := by
  set symbol := symbolOfBirth plain birth
  have prefixed : hasHashPrefix symbol := hasHashPrefix_objectHash _ _ _
  have memberPrefixed : hasHashPrefix (symbolOfBirth plain (memberBirth birth)) :=
    hasHashPrefix_objectHash _ _ _
  -- the births and the definitions that are stored on the way
  have born := putTypeBirth_given before birth kind owner
  have bornStored : Stored plain (putObject plain before "SymbolBirth" birth.toPayload).2
      "SymbolBirth" birth.toPayload := Stored.put plain_reliable addressed
  have grows₁ := grows_putObject (P := plain) before "SymbolBirth" birth.toPayload
  obtain ⟨placeholder, store₂, putPlaceholder, placeholderStored, placeholderInteger⟩ :=
    putTypeDef_integerRecord (grows₁.addressed addressed) symbol prefixed
      (show isProjectionIdentifier "placeholder" by decide)
  have grows₂ := (putTypeDef symbol _).grows putPlaceholder
  have grows₃ := grows_putObject (P := plain) store₂ "SymbolBirth" (memberBirth birth).toPayload
  obtain ⟨typeDef, store₄, putDefinition, definitionStored, definitionInteger⟩ :=
    putTypeDef_integerRecord ((grows₁.trans (grows₂.trans grows₃)).addressed addressed) symbol
      memberPrefixed (show isProjectionIdentifier "x" by decide)
  have grows₄ := (putTypeDef symbol _).grows putDefinition
  have grows := grows₁.trans (grows₂.trans (grows₃.trans grows₄))
  -- the root that is stored
  set added := addType root "main" name symbol placeholder
  set defined := updateTypeDef added symbol typeDef
  have kept := (grows₂.trans (grows₃.trans grows₄)).mem bornStored.mem
  have addedOnly : TypesOnly store₄ added := (only.grow grows).addType
    (placeholderInteger.grow (grows₃.trans grows₄))
    ⟨kept, (grows₃.trans grows₄).mem placeholderStored⟩ name
  have definedOnly : TypesOnly store₄ defined :=
    addedOnly.updateTypeDef definitionInteger ⟨kept, definitionStored⟩
  obtain ⟨newRoot, after, checked, loaded'⟩ := definedOnly.checked (grows.addressed addressed)
  have grows₅ := (putCheckedRoot builtinTypes defined).grows checked
  refine ⟨newRoot, after, normalizeRoot defined, ?_, loaded', (definedOnly.grow grows₅).normalize,
    ?_, ?_⟩
  · have module : validateModulePath "module" "main" = .ok () := by decide
    have named : validateProjectionIdentifier "type name" name = .ok () := if_pos identifier
    have specs : validateTypeMemberSpecs (.record [⟨"x", "i64"⟩]) = .ok () := by decide
    have regions : (createRegionParams none symbol "" []
        ((some (oneMember birth (memberBirth birth))).map (·.regionParamBirths)) :
          StoreM plain _).run
        (putObject plain before "SymbolBirth" birth.toPayload).2 =
          .ok ([], (putObject plain before "SymbolBirth" birth.toPayload).2) := rfl
    have placed : (CodeDb.putPlaceholder symbol [] []
        (TypeDefinitionKind.record [⟨"x", "i64"⟩]).sort : StoreM plain _).run
          (putObject plain before "SymbolBirth" birth.toPayload).2 = .ok (placeholder, store₂) := by
      rw [TypeDefinitionKind.sort, putPlaceholder_field]
      exact putPlaceholder
    obtain ⟨entry, found⟩ := exists_rootTypeEntry_addType root name symbol placeholder
    have updated : (updateTypeDefinition added symbol
        (integerRecord symbol (symbolOfBirth plain (memberBirth birth)) "x")).run
        (putObject plain store₂ "SymbolBirth" (memberBirth birth).toPayload).2 =
          .ok (defined, store₄) :=
      StoreM.run_lift_bind.mpr ⟨entry, found, StoreM.run_bind.mpr ⟨_, _, putDefinition,
        StoreM.run_pure⟩⟩
    change (applyCreateType builtinTypes inputRoot none "main" name "" [] []
      (.record [⟨"x", "i64"⟩]) (some (oneMember birth (memberBirth birth)))).run before = _
    rw [applyCreateType]
    refine StoreM.run_lift_bind.mpr ⟨(), module, StoreM.run_lift_bind.mpr ⟨(), named,
      StoreM.run_lift_bind.mpr ⟨(), rfl, StoreM.run_lift_bind.mpr ⟨(), rfl,
      StoreM.run_lift_bind.mpr ⟨(), specs, StoreM.run_read_bind.mpr ⟨root, loaded, ?_⟩⟩⟩⟩⟩⟩
    rw [if_neg (by simp [free])]
    rw [StoreM.run_bind_ok born, StoreM.run_bind_ok regions, StoreM.run_bind_ok placed,
      StoreM.run_bind_ok (typeDefinitionFromSource_given birth), StoreM.run_bind_ok updated,
      definedOnly.synchronized]
    exact checked
  · refine typeSymbolsOf_canonical.trans (List.Perm.of_eq ?_)
    have names : typeSymbolsOf defined = typeSymbolsOf added :=
      List.map_updateFirst fun _ _ _ => rfl
    rw [names]
    exact List.map_append
  · refine ((sortOn_perm _ _).map _).trans (List.Perm.of_eq ?_)
    exact List.map_append

/-! ### The run -/

/-- The birth a caller gives two types. -/
def sharedBirth : SymbolBirthSpec where
  symbolKind := "type"
  birthHistoryHash := "genesis"
  localNonce := "point"
  ownerTypeSymbol := none

/-- The birth of another type. -/
def otherBirth : SymbolBirthSpec := { sharedBirth with localNonce := "pair" }

theorem symbolOfBirth_ne : symbolOfBirth plain sharedBirth ≠ symbolOfBirth plain otherBirth := by
  have fixed (nonce : String) :
      Fixed plain.floatText { sharedBirth with localNonce := nonce }.toPayload := by
    refine Fixed.object ?_ ?_
    · simp only [sharedBirth, List.append_nil, List.cons_append, List.nil_append, List.map_cons,
        List.map_nil]
      decide
    · simp [sharedBirth, Fixed.string]
  intro same
  have payloads := objectHash_value_inj (fixed "point") (fixed "pair") same
  simp [SymbolBirthSpec.toPayload, sharedBirth] at payloads

theorem typesOnly_empty (objects : Objects) : TypesOnly objects .empty :=
  ⟨rfl, rfl, rfl, rfl, rfl, nofun, nofun, nofun⟩

theorem addressed_empty : Addressed plain ∅ := fun _ _ found => by simp at found

theorem careful_createGiven (birth : SymbolBirthSpec) (name : String) {inputRoot : Hash}
    (loaded : loadRoot plain objects inputRoot = .ok root)
    (new : symbolOfBirth plain birth ∉ typeSymbolsOf root) :
    Careful builtinTypes objects inputRoot none (createGiven birth name) := by
  intro other loaded'
  obtain rfl := Except.ok.inj (loaded.symm.trans loaded')
  exact new

/-- The empty root is where operations start. -/
theorem reachable_empty : ∃ objects rootHash,
    ReachableRoot builtinTypes (Careful builtinTypes) objects rootHash ∧
      loadRoot plain objects rootHash = .ok .empty := by
  have stored : Stored plain (putObject plain ∅ "ProgramRoot" (rootToValue .empty)).2 "ProgramRoot"
      (rootToValue .empty) := Stored.put plain_reliable addressed_empty
  have loaded := stored.loadRoot nofun
  rw [normalizeRoot_empty] at loaded
  have put : (storeRoot .empty : StoreM plain Hash).run ∅ =
      .ok (objectHash plain "ProgramRoot" (rootToValue .empty),
        (putObject plain ∅ "ProgramRoot" (rootToValue .empty)).2) := putProgramRoot_empty ∅
  have start : (putIndexedRoot builtinTypes .empty).run ∅ =
      .ok (objectHash plain "ProgramRoot" (rootToValue .empty),
        (putObject plain ∅ "ProgramRoot" (rootToValue .empty)).2) := by
    rw [putIndexedRoot, StoreM.run_bind_ok put,
      StoreM.run_bind_ok ((typesOnly_empty _).indexed loaded)]
    exact StoreM.run_pure
  exact ⟨_, _, .empty addressed_empty start, loaded⟩

/-- Careful operations lead from the empty root to one with a type of a birth. -/
theorem reachable_created {emptyRoot : Hash}
    (reach : ReachableRoot builtinTypes (Careful builtinTypes) before emptyRoot)
    (loaded : loadRoot plain before emptyRoot = .ok .empty) (birth : SymbolBirthSpec)
    (kind : birth.symbolKind = "type") (owner : birth.ownerTypeSymbol = none) {name : String}
    (identifier : isProjectionIdentifier name) : ∃ after rootHash root,
      Grows plain before after ∧
      ReachableRoot builtinTypes (Careful builtinTypes) after rootHash ∧
      loadRoot plain after rootHash = .ok root ∧ TypesOnly after root ∧
      typeSymbolsOf root = [symbolOfBirth plain birth] ∧
      root.typeNames.map (·.displayName) = [name] := by
  have free : typeNameTaken .empty "main" name = false := List.any_nil
  obtain ⟨newRoot, after, new, run, loaded', only, symbols, names⟩ :=
    applyCreateType_given (reach.holds plain_reliable plain_readsText).1 loaded
      (typesOnly_empty _) birth kind owner identifier free
  have careful := careful_createGiven birth name loaded
    (by simp [typeSymbolsOf, ProgramRootPayload.empty])
  exact ⟨after, newRoot, new, (applyOperationToRoot builtinTypes _ _ _).grows run,
    .apply reach careful run, loaded', only, List.perm_singleton.mp symbols,
    List.perm_singleton.mp names⟩

/-! ### A merge of two roots -/

/-- The types of two roots in one root. -/
def withTypesOf (root other : ProgramRootPayload) : ProgramRootPayload :=
  { root with types := root.types ++ other.types, typeNames := root.typeNames ++ other.typeNames }

theorem TypesOnly.withTypesOf {other : ProgramRootPayload} (only : TypesOnly objects root)
    (onlyOther : TypesOnly objects other) : TypesOnly objects (withTypesOf root other) where
  symbols := only.symbols
  names := only.names
  exports := only.exports
  tests := only.tests
  metadata := only.metadata
  integers e mem := (List.mem_append.mp mem).elim (only.integers e) (onlyOther.integers e)
  stored e mem := (List.mem_append.mp mem).elim (only.stored e) (onlyOther.stored e)
  named b mem := (List.mem_append.mp mem).elim (only.named b) (onlyOther.named b)

/-- Drafts with other types, under other names, are a draft together. -/
theorem Draft.withTypesOf {other : ProgramRootPayload} (draft : Draft plain objects root)
    (draftOther : Draft plain objects other)
    (symbols : ∀ s ∈ typeSymbolsOf root, s ∉ typeSymbolsOf other)
    (names : ∀ n ∈ root.typeNames.map (·.displayName), n ∉ other.typeNames.map (·.displayName)) :
    Draft plain objects (withTypesOf root other) where
  types := by
    rw [CodeDb.withTypesOf, typeSymbolsOf, List.map_append]
    exact List.nodup_append.mpr ⟨draft.types, draftOther.types,
      fun s mem t mem' same => symbols s mem (same ▸ mem')⟩
  names := draft.names
  typeNames := by
    rw [CodeDb.withTypesOf, List.map_append]
    refine draft.typeNames.append draftOther.typeNames ?_ ?_
    · intro e he f hf same
      obtain ⟨b, listed, rfl⟩ := List.mem_map.mp he
      obtain ⟨c, listed', rfl⟩ := List.mem_map.mp hf
      refine names b.displayName (List.mem_map_of_mem listed) ?_
      exact List.mem_map.mpr ⟨c, listed', (Prod.mk.inj same).2.symm⟩
    · intro e he f hf same
      obtain ⟨b, listed, rfl⟩ := List.mem_map.mp he
      obtain ⟨c, listed', rfl⟩ := List.mem_map.mp hf
      refine symbols b.typeSymbol (draft.typeNamesListed b listed) ?_
      rw [show b.typeSymbol = c.typeSymbol from same]
      exact draftOther.typeNamesListed c listed'
  namesListed := draft.namesListed
  typeNamesListed b mem := by
    rw [CodeDb.withTypesOf, typeSymbolsOf, List.map_append]
    rcases List.mem_append.mp mem with mem | mem
    · exact List.mem_append_left _ (draft.typeNamesListed b mem)
    · exact List.mem_append_right _ (draftOther.typeNamesListed b mem)
  aligned := draft.aligned
  arity := draft.arity

/-- A root with one type is merged with one with another type: the root with both is well
formed. -/
theorem careful_wellFormed_merged : ∃ objects rootHash root,
    ReachableRoot builtinTypes (Careful builtinTypes) objects rootHash ∧
      loadRoot plain objects rootHash = .ok root ∧ WellFormed builtinTypes objects root ∧
      (typeSymbolsOf root).Perm
        [symbolOfBirth plain sharedBirth, symbolOfBirth plain otherBirth] := by
  obtain ⟨start, emptyRoot, reachEmpty, loadedEmpty⟩ := reachable_empty
  obtain ⟨first, targetRoot, target, grows₁, reachTarget, loadedTarget, onlyTarget, symbolsTarget,
    namesTarget⟩ := reachable_created reachEmpty loadedEmpty sharedBirth rfl rfl
      (show isProjectionIdentifier "Point" by decide)
  obtain ⟨second, sourceRoot, source, grows₂, reachSource, loadedSource, onlySource, symbolsSource,
    namesSource⟩ := reachable_created (reachEmpty.grow grows₁) (grows₁.loadRoot loadedEmpty)
      otherBirth rfl rfl (show isProjectionIdentifier "Pair" by decide)
  -- one store has both branches
  replace reachTarget := reachTarget.grow grows₂
  replace loadedTarget := grows₂.loadRoot loadedTarget
  obtain ⟨addressed, target', load, targetHolds⟩ :=
    reachTarget.holds plain_reliable plain_readsText
  obtain rfl : target = target' := Except.ok.inj (loadedTarget.symm.trans load)
  obtain ⟨-, source', load', sourceHolds⟩ := reachSource.holds plain_reliable plain_readsText
  obtain rfl : source = source' := Except.ok.inj (loadedSource.symm.trans load')
  -- the branches share no type and no name, so the root with the types of both is a draft
  have draft := targetHolds.draft.withTypesOf sourceHolds.draft
    (by simpa [symbolsTarget, symbolsSource] using symbolOfBirth_ne)
    (by simp [namesTarget, namesSource])
  obtain ⟨newRoot, after, checked, loadedNew⟩ :=
    ((onlyTarget.grow grows₂).withTypesOf onlySource).checked addressed
  set merge : MergeBranch := ⟨"main", "side", emptyRoot, none, sourceRoot, none,
    withTypesOf target source, []⟩
  have careful : Careful builtinTypes second targetRoot none (.mergeBranch merge) := by
    intro units stored put
    cases put
    exact draft
  -- the merge brings no objects along: it loads both roots and stores that of the merge
  have run : (applyOperationToRoot builtinTypes targetRoot none (.mergeBranch merge)).run second =
      .ok (newRoot, after) := by
    change (applyMergeBranch builtinTypes targetRoot sourceRoot _ []).run second = _
    refine StoreM.run_read_bind.mpr ⟨target, loadedTarget, StoreM.run_bind.mpr ⟨[], second, rfl,
      StoreM.run_bind.mpr ⟨[], second, rfl, StoreM.run_read_bind.mpr ⟨source, ?_, checked⟩⟩⟩⟩
    rw [loadedSource]
    rfl
  have reach := reachTarget.apply careful run
  obtain ⟨root, load, wellFormed⟩ := careful_wellFormed plain_reliable plain_readsText reach
  obtain rfl := Except.ok.inj (loadedNew.symm.trans load)
  refine ⟨after, newRoot, _, reach, load, wellFormed, ?_⟩
  refine typeSymbolsOf_canonical.trans (List.Perm.of_eq ?_)
  rw [typeSymbolsOf, withTypesOf, List.map_append]
  exact congrArg₂ (· ++ ·) symbolsTarget symbolsSource

/-- Two operations that create types under one birth lead to a root that is not well formed. -/
theorem wellFormed_lost : ∃ objects rootHash root,
    ReachableRoot builtinTypes (fun _ _ _ _ => True) objects rootHash ∧
      loadRoot plain objects rootHash = .ok root ∧ ¬ WellFormed builtinTypes objects root := by
  obtain ⟨start, emptyRoot, reachEmpty, loadedEmpty⟩ := reachable_empty
  obtain ⟨objects, rootHash, root, -, reach, loaded, only, symbols, names⟩ :=
    reachable_created reachEmpty loadedEmpty sharedBirth rfl rfl
      (show isProjectionIdentifier "Point" by decide)
  -- the name of the second type is free; that its birth is taken is checked nowhere
  have free : typeNameTaken root "main" "Pair" = false := by
    refine List.any_eq_false.mpr fun b mem => ?_
    have name : b.displayName ∈ root.typeNames.map (·.displayName) := List.mem_map_of_mem mem
    rw [names, List.mem_singleton] at name
    simp [name]
  obtain ⟨newRoot, after, new, run, loaded', -, repeated, -⟩ :=
    applyCreateType_given (reach.holds plain_reliable plain_readsText).1 loaded only
      sharedBirth rfl rfl (show isProjectionIdentifier "Pair" by decide) free
  refine ⟨after, newRoot, new, .apply (reach.mono fun _ => trivial) trivial run, loaded',
    fun wellFormed => ?_⟩
  have distinct := repeated.nodup_iff.mp wellFormed.types
  rw [symbols] at distinct
  simp at distinct

end CodeDb

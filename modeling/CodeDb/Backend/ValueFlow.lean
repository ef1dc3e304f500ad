import CodeDb.Backend.StackLayout
import CodeDb.Backend.Validation

/-!
# Names of values

The names that the operations of a function read and write, with those of nested blocks. The
backend gives a slot to each name that an operation defines. Where it accepts a function,
every name that an operation uses is one that some operation defines: it looks each name up
before it is used. The exception is the result of a branch, which it does not look up.

## Main definitions

* `definedIds`, `usedIds`, `branchResults` — the names in operations
* `Uses` — a check that looks names up and adds names

## Main results

* `collectValueIds_eq_ok` — the names that are collected
* `uses_validateNativeOps` — every name that is used is there, or one that is defined
-/

namespace CodeDb

/-! ### The names in operations -/

/-- The names that a place is given by. -/
def LoweredPlace.operands : LoweredPlace → List String
  | .param .. | .local_ .. => []
  | .field base .. | .enumPayload base .. => [base]
  | .index base position .. => [base, position]

/-- The names that an operation uses, apart from its blocks. -/
def LoweredOp.operands : LoweredOp → List String
  | .param .. | .constI64 .. | .constBool .. | .constUnit .. | .staticDataAddress ..
  | .argCount .. => []
  | .unary _ _ value _ | .intCast _ value _ | .ptrCast _ value _ _ | .copy _ value _
  | .return_ value _ | .earlyReturn value _ => [value]
  | .binary _ _ left right _ _ => [left, right]
  | .call _ _ _ args returnAddress _ => args ++ returnAddress.toList
  | .if_ _ cond .. => [cond]
  | .case _ scrutinee .. => [scrutinee]
  | .fold _ targetAddress _ len init .. => [targetAddress, len, init]
  | .loop _ _ init .. => [init]
  | .borrowShared _ address .. | .borrowMut _ address .. | .vecNew _ address ..
  | .stringNew _ address .. | .loadEnumTag _ address _ | .load _ address _ | .move _ address _
  | .storeEnumTag address .. | .drop address _ | .freeBoxShell address _
  | .borrowDebug address .. => [address]
  | .derefShared _ reference _ | .derefMut _ reference _ => [reference]
  | .derefBox _ boxValue .. | .unboxMove _ boxValue .. => [boxValue]
  | .heapAlloc .. => []
  | .derefRaw _ pointer .. => [pointer]
  | .addrOfParam _ place | .addrOfLocal _ place | .addrOfField _ place
  | .addrOfEnumPayload _ place | .addrOfIndex _ place => place.operands
  | .constructSlice _ address dataAddress len .. => [address, dataAddress, len]
  | .sliceLen _ slice .. | .sliceData _ slice .. => [slice]
  | .vecPush _ vecAddress value .. => [vecAddress, value]
  | .vecGet _ vecAddress index .. => [vecAddress, index]
  | .vecLen _ vecAddress .. => [vecAddress]
  | .stringLen _ stringAddress .. => [stringAddress]
  | .stringWithCapacity _ address capacity _ => [address, capacity]
  | .stringPush _ stringAddress value .. => [stringAddress, value]
  | .stringGet _ stringAddress index .. => [stringAddress, index]
  | .stringSet _ stringAddress index value .. => [stringAddress, index, value]
  | .argLen _ index _ => [index]
  | .argByte _ index byte _ => [index, byte]
  | .boundsCheck _ index _ lenValue _ => index :: lenValue.toList
  | .sliceRangeCheck _ start len sourceLen _ => [start, len, sourceLen]
  | .store address value _ => [address, value]

mutual

/-- The names that operations define. -/
def definedIds : List LoweredOp → List String
  | [] => []
  | op :: operations => op.valueId?.toList ++ blockDefinedIds op ++ definedIds operations

def blockDefinedIds : LoweredOp → List String
  | .if_ _ _ (.mk thenOps _) (.mk elseOps _) _ => definedIds thenOps ++ definedIds elseOps
  | .case _ _ _ arms _ => armDefinedIds arms
  | .fold _ _ _ _ _ _ _ _ (.mk bodyOps _) _ _ _ => definedIds bodyOps
  | .loop _ _ _ (.mk condOps _) (.mk bodyOps _) _ _ => definedIds condOps ++ definedIds bodyOps
  | _ => []

def armDefinedIds : List LoweredCaseArm → List String
  | [] => []
  | .mk _ _ _ _ _ (.mk operations _) :: arms => definedIds operations ++ armDefinedIds arms

end

mutual

/-- The names that operations read and write, but for the results of branches. -/
def usedIds : List LoweredOp → List String
  | [] => []
  | op :: operations =>
    op.operands ++ op.valueId?.toList ++ blockUsedIds op ++ usedIds operations

def blockUsedIds : LoweredOp → List String
  | .if_ _ _ (.mk thenOps _) (.mk elseOps _) _ => usedIds thenOps ++ usedIds elseOps
  | .case _ _ _ arms _ => armUsedIds arms
  | .fold _ _ _ _ _ _ _ _ (.mk bodyOps result) _ _ _ => usedIds bodyOps ++ [result]
  | .loop _ _ _ (.mk condOps condResult) (.mk bodyOps bodyResult) _ _ =>
    usedIds condOps ++ [condResult] ++ (usedIds bodyOps ++ [bodyResult])
  | _ => []

def armUsedIds : List LoweredCaseArm → List String
  | [] => []
  | .mk _ _ _ _ _ (.mk operations _) :: arms => usedIds operations ++ armUsedIds arms

end

mutual

/-- The names that branches result in. -/
def branchResults : List LoweredOp → List String
  | [] => []
  | op :: operations => blockBranchResults op ++ branchResults operations

def blockBranchResults : LoweredOp → List String
  | .if_ _ _ (.mk thenOps thenResult) (.mk elseOps elseResult) _ =>
    branchResults thenOps ++ [thenResult] ++ (branchResults elseOps ++ [elseResult])
  | .case _ _ _ arms _ => armBranchResults arms
  | .fold _ _ _ _ _ _ _ _ (.mk bodyOps _) _ _ _ => branchResults bodyOps
  | .loop _ _ _ (.mk condOps _) (.mk bodyOps _) _ _ =>
    branchResults condOps ++ branchResults bodyOps
  | _ => []

def armBranchResults : List LoweredCaseArm → List String
  | [] => []
  | .mk _ _ _ _ _ (.mk operations result) :: arms =>
    branchResults operations ++ [result] ++ armBranchResults arms

end

/-! ### The names that are collected -/

theorem pushDefined_eq_ok {ids all : List String} {id : Option String}
    (pushed : pushDefined ids id = .ok all) : all = ids ++ id.toList := by
  cases id with
  | none =>
    rw [pushDefined, Except.ok.injEq] at pushed
    rw [← pushed, Option.toList_none, List.append_nil]
  | some id =>
    rw [pushDefined, pushValueId] at pushed
    split at pushed
    · cases pushed
    · rw [Option.toList_some, Except.ok.inj pushed]

mutual

theorem collectValueIds_eq_ok {ids all : List String} (operations : List LoweredOp)
    (collected : collectValueIds ids operations = .ok all) :
    all = ids ++ definedIds operations := by
  cases operations with
  | nil =>
    rw [collectValueIds, Except.ok.injEq] at collected
    rw [← collected, definedIds, List.append_nil]
  | cons op operations =>
    rw [collectValueIds] at collected
    obtain ⟨defined, pushed, collected⟩ := Except.bind_eq_ok.mp collected
    obtain ⟨nested, blocks, rest⟩ := Except.bind_eq_ok.mp collected
    rw [collectValueIds_eq_ok operations rest, collectBlockIds_eq_ok op blocks,
      pushDefined_eq_ok pushed, definedIds, List.append_assoc, List.append_assoc,
      List.append_assoc]

theorem collectBlockIds_eq_ok {ids all : List String} (op : LoweredOp)
    (collected : collectBlockIds ids op = .ok all) : all = ids ++ blockDefinedIds op := by
  cases op with
  | if_ id cond thenBlock elseBlock typeHash =>
    obtain ⟨thenOps, thenResult⟩ := thenBlock
    obtain ⟨elseOps, elseResult⟩ := elseBlock
    obtain ⟨first, thenIds, elseIds⟩ := Except.bind_eq_ok.mp collected
    rw [collectValueIds_eq_ok elseOps elseIds, collectValueIds_eq_ok thenOps thenIds,
      blockDefinedIds, List.append_assoc]
  | case id scrutinee enumTypeHash arms typeHash => exact collectArmIds_eq_ok arms collected
  | fold id targetAddress targetTypeHash len init indexSlot accSlot itemSlot body =>
    obtain ⟨bodyOps, result⟩ := body
    exact collectValueIds_eq_ok bodyOps collected
  | loop id accSlot init cond body =>
    obtain ⟨condOps, condResult⟩ := cond
    obtain ⟨bodyOps, bodyResult⟩ := body
    obtain ⟨first, condIds, bodyIds⟩ := Except.bind_eq_ok.mp collected
    rw [collectValueIds_eq_ok bodyOps bodyIds, collectValueIds_eq_ok condOps condIds,
      blockDefinedIds, List.append_assoc]
  | _ =>
    rw [← Except.ok.inj collected]
    exact (List.append_nil _).symm

theorem collectArmIds_eq_ok {ids all : List String} (arms : List LoweredCaseArm)
    (collected : collectArmIds ids arms = .ok all) : all = ids ++ armDefinedIds arms := by
  cases arms with
  | nil =>
    rw [collectArmIds, Except.ok.injEq] at collected
    rw [← collected, armDefinedIds, List.append_nil]
  | cons arm arms =>
    obtain ⟨variant, variantSymbol, tagValue, payloadTypeHash, payloadOffsetBytes, block⟩ := arm
    obtain ⟨operations, result⟩ := block
    obtain ⟨first, head, rest⟩ := Except.bind_eq_ok.mp collected
    rw [collectArmIds_eq_ok arms rest, collectValueIds_eq_ok operations head, armDefinedIds,
      List.append_assoc]

end

/-! ### The names that are looked up -/

/-- A name of a value or of an address. -/
def NativeFlow.Knows (flow : NativeFlow) (id : String) : Prop :=
  (flow.values.lookup id).isSome ∨ (flow.addresses.lookup id).isSome

/-- A check that only passes where it knows names or adds them, and adds no others. -/
def Uses {α : Type} (reads writes : List String) (check : NativeCheck α) : Prop :=
  ∀ flow a flow', check.run flow = .ok (a, flow') →
    (∀ id ∈ reads, flow.Knows id ∨ id ∈ writes) ∧
      ∀ id, flow'.Knows id → flow.Knows id ∨ id ∈ writes

namespace Uses

variable {α β : Type} {reads writes moreReads moreWrites : List String} {check : NativeCheck α}
  {next : α → NativeCheck β}

/-- A check that leaves the flow as it is, and knows some names. -/
theorem of_same (same : ∀ flow a flow', check.run flow = .ok (a, flow') →
    flow' = flow ∧ ∀ id ∈ reads, flow.Knows id) : Uses reads [] check := by
  intro flow a flow' run
  obtain ⟨rfl, known⟩ := same flow a flow' run
  exact ⟨fun id listed => .inl (known id listed), fun id known => .inl known⟩

theorem bind (first : Uses reads writes check)
    (rest : ∀ a, Uses moreReads moreWrites (next a)) :
    Uses (reads ++ moreReads) (writes ++ moreWrites) (check >>= next) := by
  intro flow b flow' run
  obtain ⟨a, mid, ran, run⟩ := StateT.run_bind_eq_ok.mp run
  obtain ⟨known, grown⟩ := first flow a mid ran
  obtain ⟨later, grownLater⟩ := rest a mid b flow' run
  have back : ∀ id, mid.Knows id ∨ id ∈ moreWrites → flow.Knows id ∨ id ∈ writes ++ moreWrites := by
    rintro id (there | written)
    · rw [List.mem_append, ← or_assoc]
      exact .inl (grown id there)
    · exact .inr (List.mem_append_right _ written)
  constructor
  · intro id listed
    rcases List.mem_append.mp listed with early | late
    · exact (known id early).imp_right (List.mem_append_left _)
    · exact back id (later id late)
  · exact fun id there => back id (grownLater id there)

theorem mono (uses : Uses reads writes check) (fewer : moreReads ⊆ reads)
    (more : writes ⊆ moreWrites) : Uses moreReads moreWrites check := by
  intro flow a flow' run
  obtain ⟨known, grown⟩ := uses flow a flow' run
  exact ⟨fun id listed => (known id (fewer listed)).imp_right fun written => more written,
    fun id there => (grown id there).imp_right fun written => more written⟩

/-- What a check adds may be used after it. -/
theorem written (uses : Uses reads writes check) (fewer : moreReads ⊆ reads ++ writes) :
    Uses moreReads writes check := by
  intro flow a flow' run
  obtain ⟨known, grown⟩ := uses flow a flow' run
  refine ⟨fun id listed => ?_, grown⟩
  exact (List.mem_append.mp (fewer listed)).elim (known id) .inr

theorem pure (a : α) : Uses [] [] (Pure.pure a : NativeCheck α) := by
  refine of_same fun flow b flow' run => ?_
  cases StateT.run_pure_eq_ok.mp run
  exact ⟨rfl, fun id listed => nomatch listed⟩

/-- What fails uses whatever one likes. -/
theorem throw (message : Error) : Uses reads writes (throwThe Error message : NativeCheck α) := by
  intro flow a flow' run
  cases run

theorem lift (x : Except Error α) : Uses [] [] (liftM x : NativeCheck α) := by
  refine of_same fun flow a flow' run => ?_
  exact ⟨(StateT.run_lift_eq_ok.mp run).2.symm, fun id listed => nomatch listed⟩

theorem ite {condition : Prop} [Decidable condition] {other : NativeCheck α}
    (first : Uses reads writes check) (second : Uses reads writes other) :
    Uses reads writes (if condition then check else other) := by
  split
  · exact first
  · exact second

theorem forM {l : List String} {step : String → NativeCheck PUnit}
    (each : ∀ id ∈ l, Uses [id] [] (step id)) : Uses l [] (l.forM step) := by
  induction l with
  | nil => exact pure _
  | cons id l ih =>
    obtain ⟨head, tail⟩ := List.forall_mem_cons.mp each
    exact head.bind fun _ => ih tail

theorem inBlock (uses : Uses reads writes check) : Uses reads writes (CodeDb.inBlock check) := by
  intro flow a flow' run
  obtain ⟨⟨b, mid⟩, ran, run⟩ := Except.bind_eq_ok.mp run
  cases Except.pure_eq_ok.mp run
  exact ⟨(uses flow a mid ran).1, fun id there => .inl there⟩

theorem valueType (id : String) : Uses [id] [] (nativeValueType id) := by
  refine of_same fun flow a flow' run => ?_
  change nativeValueType id flow = _ at run
  rw [nativeValueType] at run
  split at run
  next typeHash found =>
    cases run
    refine ⟨rfl, fun other listed => ?_⟩
    rw [List.mem_singleton.mp listed, NativeFlow.Knows, found]
    exact .inl rfl
  next => cases run

theorem addressType (id : String) : Uses [id] [] (nativeAddressType id) := by
  refine of_same fun flow a flow' run => ?_
  change nativeAddressType id flow = _ at run
  rw [nativeAddressType] at run
  split at run
  next typeHash found =>
    cases run
    refine ⟨rfl, fun other listed => ?_⟩
    rw [List.mem_singleton.mp listed, NativeFlow.Knows, found]
    exact .inr rfl
  next => cases run

/-- A name that is found after another one was added is that one, or was there. -/
theorem lookup_cons {id other typeHash : String} {l : List (String × Hash)}
    (found : (List.lookup other ((id, typeHash) :: l)).isSome) :
    (l.lookup other).isSome ∨ other = id := by
  by_cases same : other = id
  · exact .inr same
  · rw [List.lookup_cons, beq_eq_false_iff_ne.mpr same] at found
    exact .inl found

theorem insertValue (id : String) (typeHash : Hash) :
    Uses [] [id] (nativeInsertValue id typeHash) := by
  intro flow a flow' run
  change nativeInsertValue id typeHash flow = _ at run
  rw [nativeInsertValue] at run
  split at run
  · cases run
  · cases run
    refine ⟨fun other listed => (nomatch listed), ?_⟩
    rintro other (value | address)
    · exact (lookup_cons value).imp .inl List.mem_singleton.mpr
    · exact .inl (.inr address)

theorem insertAddress (id : String) (typeHash : Hash) :
    Uses [] [id] (nativeInsertAddress id typeHash) := by
  intro flow a flow' run
  change nativeInsertAddress id typeHash flow = _ at run
  rw [nativeInsertAddress] at run
  split at run
  · cases run
  · cases run
    refine ⟨fun other listed => (nomatch listed), ?_⟩
    rintro other (value | address)
    · exact .inl (.inl value)
    · exact (lookup_cons address).imp .inr List.mem_singleton.mpr

/-- A check of something that needs no flow, and then another one. -/
theorem lift_bind {x : Except Error α} (rest : ∀ a, Uses reads writes (next a)) :
    Uses reads writes ((liftM x : NativeCheck α) >>= next) := (lift x).bind rest

/-- A check that is only made under a condition. -/
theorem guarded {condition : Prop} [Decidable condition] {check : NativeCheck Unit}
    {next : Unit → NativeCheck β} (first : Uses reads [] check)
    (rest : ∀ u, Uses moreReads moreWrites (next u)) :
    Uses moreReads moreWrites (if condition then check >>= next else next ()) :=
  ite ((first.bind rest).mono (List.subset_append_right _ _) (List.Subset.refl _)) (rest ())

/-- Two checks that add the same name. -/
theorem both {id : String} {other : NativeCheck β} (first : Uses [] [id] check)
    (second : Uses [] [id] other) : Uses [] [id] (check >>= fun _ => other) :=
  (first.bind fun _ => second).mono (List.Subset.refl _) (by simp)

theorem expectValue (id : String) (typeHash : Hash) (mismatch : Error) :
    Uses [id] [] (CodeDb.expectValue id typeHash mismatch) :=
  (valueType id).bind fun _ => lift _

theorem expectAddress (id : String) (typeHash : Hash) (mismatch : Error) :
    Uses [id] [] (CodeDb.expectAddress id typeHash mismatch) :=
  (addressType id).bind fun _ => lift _

theorem insertPlace (id : String) (typeHash : Hash) :
    Uses [] [id] (CodeDb.insertPlace id typeHash) :=
  (insertAddress id typeHash).both (insertValue id typeHash)

theorem insertIndirect (layouts : List LoweredTypeLayout) (id : String) (typeHash : Hash) :
    Uses [] [id] (CodeDb.insertIndirect layouts id typeHash) :=
  (lift _).bind fun _ => ite (insertAddress id typeHash) ((pure _).mono (by simp) (by simp))

theorem expectCompatible (layouts : List LoweredTypeLayout) (id : String) (typeHash : Hash)
    (mismatch : Error) : Uses [id] [] (CodeDb.expectCompatible layouts id typeHash mismatch) :=
  (valueType id).bind fun _ => ite ((lift _).bind fun _ => lift _) (pure _)

end Uses

section Function

variable {P : Primitives} {params : List LoweredParamSlot} {locals : List LoweredLocalSlot}
  {layouts : List LoweredTypeLayout}

/-- An operation that passes only uses names that are there. -/
theorem uses_validateNativeOpFlow (op : LoweredOp) :
    Uses op.operands op.valueId?.toList (validateNativeOpFlow P params locals layouts op) := by
  -- by operation: the lookups it makes are of its operands, and it enters at most its own name
  cases op with
  | param => exact Uses.lift_bind fun _ => Uses.insertValue _ _
  | constI64 | constBool | constUnit => exact Uses.insertValue _ _
  | unary | intCast | if_ => exact (Uses.valueType _).bind fun _ => Uses.insertValue _ _
  | binary =>
    exact (Uses.valueType _).bind fun _ => (Uses.valueType _).bind fun _ => Uses.insertValue _ _
  | call id targetSymbolHash targetAbiSymbol args returnAddress typeHash =>
    refine (Uses.forM fun arg _ => (Uses.valueType arg).bind fun _ => Uses.pure _).bind fun _ =>
      Uses.lift_bind fun indirect => ?_
    -- an indirect return names the address that the caller passed
    cases returnAddress with
    | none =>
      exact Uses.ite (Uses.throw _) (Uses.lift_bind fun _ => Uses.insertValue _ _)
    | some returnAddress =>
      refine Uses.ite ?_ (Uses.throw _)
      exact (Uses.expectAddress _ _ _).bind fun _ =>
        (Uses.insertAddress _ _).both (Uses.insertValue _ _)
  | case =>
    exact (Uses.expectValue _ _ _).bind fun _ => Uses.lift_bind fun _ =>
      Uses.guarded (Uses.expectAddress _ _ _) fun _ => Uses.lift_bind fun _ =>
        Uses.lift_bind fun _ => Uses.lift_bind fun _ =>
          (Uses.insertValue _ _).both (Uses.insertIndirect _ _ _)
  | fold =>
    exact Uses.lift_bind fun _ => (Uses.expectAddress _ _ _).bind fun _ =>
      (Uses.expectValue _ _ _).bind fun _ => (Uses.expectValue _ _ _).bind fun _ =>
        Uses.lift_bind fun _ => Uses.lift_bind fun _ => Uses.lift_bind fun _ =>
          Uses.lift_bind fun _ => (Uses.insertValue _ _).both (Uses.insertIndirect _ _ _)
  | loop =>
    exact Uses.lift_bind fun _ => (Uses.expectValue _ _ _).bind fun _ => Uses.lift_bind fun _ =>
      (Uses.insertValue _ _).both (Uses.insertIndirect _ _ _)
  | borrowShared | borrowMut | load =>
    exact (Uses.expectAddress _ _ _).bind fun _ => Uses.insertValue _ _
  | derefShared | derefMut => exact (Uses.valueType _).bind fun _ => Uses.insertPlace _ _
  | derefBox =>
    exact (Uses.expectValue _ _ _).bind fun _ => Uses.lift_bind fun _ => Uses.lift_bind fun _ =>
      Uses.insertPlace _ _
  | unboxMove =>
    exact (Uses.expectValue _ _ _).bind fun _ => Uses.lift_bind fun _ => Uses.lift_bind fun _ =>
      (Uses.insertValue _ _).both (Uses.insertIndirect _ _ _)
  | heapAlloc =>
    exact Uses.lift_bind fun _ => Uses.lift_bind fun _ => Uses.lift_bind fun _ =>
      Uses.lift_bind fun _ => (Uses.insertValue _ _).both (Uses.insertAddress _ _)
  | ptrCast =>
    exact (Uses.expectValue _ _ _).bind fun _ => Uses.lift_bind fun _ => Uses.lift_bind fun _ =>
      Uses.lift_bind fun _ => Uses.lift_bind fun _ => Uses.lift_bind fun _ =>
        Uses.lift_bind fun _ => Uses.lift_bind fun _ => Uses.insertValue _ _
  | derefRaw =>
    exact (Uses.expectValue _ _ _).bind fun _ => Uses.lift_bind fun _ => Uses.lift_bind fun _ =>
      Uses.lift_bind fun _ => Uses.lift_bind fun _ => Uses.lift_bind fun _ =>
        Uses.lift_bind fun _ => Uses.lift_bind fun _ => Uses.insertPlace _ _
  | addrOfParam id place =>
    cases place with
    | param => exact Uses.lift_bind fun _ => Uses.insertPlace _ _
    | _ => exact Uses.throw _
  | addrOfLocal id place =>
    cases place with
    | local_ => exact Uses.lift_bind fun _ => Uses.insertPlace _ _
    | _ => exact Uses.throw _
  | addrOfField id place =>
    cases place with
    | field => exact (Uses.expectAddress _ _ _).bind fun _ => Uses.insertPlace _ _
    | _ => exact Uses.throw _
  | addrOfEnumPayload id place =>
    cases place with
    | enumPayload =>
      exact (Uses.expectAddress _ _ _).bind fun _ => Uses.lift_bind fun _ => Uses.insertPlace _ _
    | _ => exact Uses.throw _
  | addrOfIndex id place =>
    cases place with
    | index =>
      -- an index is checked against its length only where there is one
      refine (Uses.addressType _).bind fun _ => Uses.guarded (Uses.lift _) fun _ => ?_
      refine (Uses.expectValue _ _ _).bind fun _ => Uses.lift_bind fun _ =>
        Uses.lift_bind fun _ => (Uses.insertAddress _ _).both (Uses.lift_bind fun _ => ?_)
      exact Uses.ite (Uses.insertValue _ _) ((Uses.pure _).mono (by simp) (by simp))
    | _ => exact Uses.throw _
  | staticDataAddress =>
    exact Uses.lift_bind fun _ => Uses.lift_bind fun _ => Uses.insertPlace _ _
  | constructSlice =>
    refine (Uses.expectAddress _ _ _).bind fun _ => (Uses.addressType _).bind fun _ =>
      Uses.guarded (Uses.lift _) fun _ => ?_
    exact (Uses.expectValue _ _ _).bind fun _ => Uses.lift_bind fun _ => Uses.lift_bind fun _ =>
      (Uses.insertValue _ _).both (Uses.insertAddress _ _)
  | sliceLen | vecLen | stringLen =>
    exact (Uses.expectAddress _ _ _).bind fun _ => Uses.lift_bind fun _ => Uses.lift_bind fun _ =>
      Uses.insertValue _ _
  | sliceData =>
    exact (Uses.expectAddress _ _ _).bind fun _ => Uses.lift_bind fun _ => Uses.lift_bind fun _ =>
      Uses.insertAddress _ _
  | vecNew | stringNew =>
    exact (Uses.expectAddress _ _ _).bind fun _ => Uses.lift_bind fun _ => Uses.lift_bind fun _ =>
      (Uses.insertValue _ _).both (Uses.insertAddress _ _)
  | vecPush | vecGet | stringPush | stringGet =>
    exact (Uses.expectAddress _ _ _).bind fun _ => Uses.lift_bind fun _ =>
      (Uses.expectValue _ _ _).bind fun _ => Uses.lift_bind fun _ => Uses.insertValue _ _
  | stringWithCapacity =>
    exact (Uses.expectAddress _ _ _).bind fun _ => Uses.lift_bind fun _ =>
      (Uses.expectValue _ _ _).bind fun _ => (Uses.insertValue _ _).both (Uses.insertAddress _ _)
  | stringSet =>
    exact (Uses.expectAddress _ _ _).bind fun _ => Uses.lift_bind fun _ =>
      (Uses.expectValue _ _ _).bind fun _ => (Uses.expectValue _ _ _).bind fun _ =>
        Uses.lift_bind fun _ => Uses.insertValue _ _
  | argCount => exact Uses.lift_bind fun _ => Uses.insertValue _ _
  | argLen =>
    exact (Uses.expectValue _ _ _).bind fun _ => Uses.lift_bind fun _ => Uses.insertValue _ _
  | argByte =>
    exact (Uses.expectValue _ _ _).bind fun _ => (Uses.expectValue _ _ _).bind fun _ =>
      Uses.lift_bind fun _ => Uses.insertValue _ _
  | boundsCheck id index len lenValue typeHash =>
    cases lenValue with
    | none =>
      exact (Uses.expectValue _ _ _).bind fun _ => (Uses.pure _).bind fun _ =>
        Uses.lift_bind fun _ => Uses.insertValue _ _
    | some lenValue =>
      exact (Uses.expectValue _ _ _).bind fun _ =>
        (Uses.forM fun lenValue _ => Uses.expectValue lenValue _ _).bind fun _ =>
          Uses.lift_bind fun _ => Uses.insertValue _ _
  | sliceRangeCheck =>
    exact (Uses.expectValue _ _ _).bind fun _ => (Uses.expectValue _ _ _).bind fun _ =>
      (Uses.expectValue _ _ _).bind fun _ => Uses.lift_bind fun _ => Uses.insertValue _ _
  | loadEnumTag =>
    exact (Uses.expectAddress _ _ _).bind fun _ => Uses.lift_bind fun _ => Uses.insertValue _ _
  | store =>
    exact (Uses.expectAddress _ _ _).bind fun _ => Uses.expectCompatible _ _ _ _
  | storeEnumTag =>
    exact (Uses.expectAddress _ _ _).bind fun _ => Uses.lift_bind fun _ => Uses.lift _
  | copy =>
    exact (Uses.expectValue _ _ _).bind fun _ =>
      (Uses.insertValue _ _).both (Uses.insertIndirect _ _ _)
  | move =>
    exact (Uses.expectAddress _ _ _).bind fun _ =>
      (Uses.insertValue _ _).both (Uses.insertIndirect _ _ _)
  | drop | freeBoxShell | borrowDebug => exact Uses.expectAddress _ _ _
  | return_ | earlyReturn => exact Uses.expectCompatible _ _ _ _

mutual

/-- Operations that pass use names that are there, names that they define, and perhaps the
results of branches. -/
theorem uses_validateNativeOps (operations : List LoweredOp) :
    Uses (usedIds operations) (definedIds operations)
      (validateNativeOps P params locals layouts operations) := by
  cases operations with
  | nil => exact Uses.pure _
  | cons op operations =>
    rw [validateNativeOps, usedIds, definedIds]
    refine Uses.lift_bind fun _ => ?_
    refine @Uses.written _ (op.operands ++ (blockUsedIds op ++ usedIds operations)) _ _ _ ?_ ?_
    · refine ((uses_validateNativeOpFlow op).bind fun _ => (uses_validateNativeBlocks op).bind
        fun _ => uses_validateNativeOps operations).mono (List.Subset.refl _) ?_
      rw [List.append_assoc]
      exact List.Subset.refl _
    · intro id listed
      simp only [List.mem_append] at listed ⊢
      tauto

theorem uses_validateNativeBlocks (op : LoweredOp) :
    Uses (blockUsedIds op) (blockDefinedIds op)
      (validateNativeBlocks P params locals layouts op) := by
  cases op with
  | if_ id cond thenBlock elseBlock typeHash =>
    obtain ⟨thenOps, thenResult⟩ := thenBlock
    obtain ⟨elseOps, elseResult⟩ := elseBlock
    exact (uses_validateNativeOps thenOps).inBlock.bind fun _ =>
      (uses_validateNativeOps elseOps).inBlock
  | case id scrutinee enumTypeHash arms typeHash => exact uses_validateNativeArms arms
  | fold id targetAddress targetTypeHash len init indexSlot accSlot itemSlot body =>
    obtain ⟨bodyOps, result⟩ := body
    exact (((uses_validateNativeOps bodyOps).bind fun _ =>
      Uses.expectValue result _ _).mono (List.Subset.refl _) (by simp [blockDefinedIds])).inBlock
  | loop id accSlot init cond body =>
    obtain ⟨condOps, condResult⟩ := cond
    obtain ⟨bodyOps, bodyResult⟩ := body
    refine (Uses.inBlock ?_).bind fun _ => Uses.inBlock ?_
    · exact ((uses_validateNativeOps condOps).bind fun _ => Uses.expectValue condResult _ _).mono
        (List.Subset.refl _) (by rw [List.append_nil]; exact List.Subset.refl _)
    · exact ((uses_validateNativeOps bodyOps).bind fun _ => Uses.expectValue bodyResult _ _).mono
        (List.Subset.refl _) (by rw [List.append_nil]; exact List.Subset.refl _)
  | _ => exact Uses.pure _

theorem uses_validateNativeArms (arms : List LoweredCaseArm) :
    Uses (armUsedIds arms) (armDefinedIds arms)
      (validateNativeArms P params locals layouts arms) := by
  cases arms with
  | nil => exact Uses.pure _
  | cons arm arms =>
    obtain ⟨variant, variantSymbol, tagValue, payloadTypeHash, payloadOffsetBytes, block⟩ := arm
    obtain ⟨operations, result⟩ := block
    exact (uses_validateNativeOps operations).inBlock.bind fun _ => uses_validateNativeArms arms

end

end Function

end CodeDb

import CodeDb.Language.StoredTypes
import CodeDb.Lowering.SameLayout
import CodeDb.Operations.TypeRoundTrip

/-!
# What lowering accepts

A value that lowering accepts where another type is expected is read as it was stored if what it
leads to behind pointers has the same layout under both types. Nothing checks that: of a
reference, a slice or a vector it is checked that it can be used as the one that is expected, and
that the pointers are equally large. And where a local is initialized with a record that lies
somewhere already, the fields are copied without a check.

## Main definitions

* `AcceptedFlow` — lowering lets bytes of one type be read at another one
* `InitialFlows` — what is read at which type where a local is initialized

## Main results

* `AcceptedFlow.verifyStore`, `copyField_verified` — what is accepted passes the check of the
  operations
* `acceptedFlow_sameLayout_iff` — when the bytes are read as they were stored
* `initialFlows_of_lowerValueIntoAddress`, `InitialFlows.sameLayout_iff` — what flows into a local
  that is initialized, and when that is read as it was stored
-/

namespace CodeDb

open StateT

/-- The ways in which bytes of one type come to be read at another one. -/
inductive ValueSink where
  /-- Where a type is expected of an operand. -/
  | operand
  /-- Where an aggregate without fields is copied. -/
  | whole
  /-- Where a field of a record is copied. -/
  | field
  deriving DecidableEq

variable {P : Primitives} {objects : Objects} {root : ProgramRootPayload} {stack : Nat}
  {targetTriple : String} {parts : PartLowering}

/-- Lowering lets bytes of one type be read at another one. -/
inductive AcceptedFlow (P : Primitives) (objects : Objects) (root : ProgramRootPayload)
    (stack : Nat) (targetTriple : String) : ValueSink → Hash → Hash → Prop
  | operand {parts : PartLowering} {exprHash expectedType : Hash} {ctx ctx' : LowerCtx}
    {lowered : LoweredExpr} :
    (lowerExprAs P objects root stack targetTriple parts exprHash expectedType).run ctx =
      .ok (lowered, ctx') →
    AcceptedFlow P objects root stack targetTriple .operand lowered.typeHash expectedType
  | whole {parts : PartLowering} {exprHash sourceType targetType : Hash} {targetAddress : String}
    {ctx ctx' : LowerCtx} {operations : List LoweredOp} :
    (copyWhole P objects root stack targetTriple parts exprHash sourceType targetType
      targetAddress).run ctx = .ok (operations, ctx') →
    AcceptedFlow P objects root stack targetTriple .whole sourceType targetType
  | field {exprHash targetType : Hash} {targetAddress : String} {source : LoweredAddress}
    {field : TypeFieldSpec} {ctx ctx' : LowerCtx} {operations : List LoweredOp}
    {sourceInfo targetInfo : LoweredFieldInfo} :
    (copyField P objects root stack targetTriple exprHash source targetType targetAddress
      field).run ctx = .ok (operations, ctx') →
    loweredRecordField P objects root stack targetTriple source.typeHash field.name =
      .ok sourceInfo →
    loweredRecordField P objects root stack targetTriple targetType field.name = .ok targetInfo →
    AcceptedFlow P objects root stack targetTriple .field sourceInfo.typeHash targetInfo.typeHash

/-! ### What is checked -/

section Operand

variable {exprHash expectedType : Hash} {ctx ctx' : LowerCtx} {lowered : LoweredExpr}

/-- What is built in a slot has the type of the slot. -/
theorem lowerIntoSlot_typeHash {init : Hash → Hash → String → LowerM (List LoweredOp)}
    (run : (lowerIntoSlot P objects root stack targetTriple init exprHash expectedType).run ctx =
      .ok (lowered, ctx')) : lowered.typeHash = expectedType := by
  obtain ⟨size, _, run⟩ := run_lift_bind_eq_ok.mp run
  obtain ⟨slot, _, _, run⟩ := run_bind_eq_ok.mp run
  obtain ⟨address, _, _, run⟩ := run_bind_eq_ok.mp run
  obtain ⟨stores, _, _, run⟩ := run_bind_eq_ok.mp run
  obtain ⟨indirect, _, run⟩ := run_lift_bind_eq_ok.mp run
  split_ifs at run
  · cases run_pure_eq_ok.mp run
    rfl
  · obtain ⟨id, _, _, run⟩ := run_bind_eq_ok.mp run
    cases run_pure_eq_ok.mp run
    rfl

theorem lowerBoxNewAs_typeHash
    (run : (lowerBoxNewAs P objects root stack targetTriple parts exprHash expectedType).run ctx =
      .ok (lowered, ctx')) : lowered.typeHash = expectedType := by
  obtain ⟨payload, _, run⟩ := run_lift_bind_eq_ok.mp run
  obtain ⟨valueHash, _, run⟩ := run_lift_bind_eq_ok.mp run
  obtain ⟨declared, _, run⟩ := run_lift_bind_eq_ok.mp run
  obtain ⟨spec, _, run⟩ := run_lift_bind_eq_ok.mp run
  cases spec with
  | box element =>
    obtain ⟨assignable, _, run⟩ := run_lift_bind_eq_ok.mp run
    cases assignable with
    | false => cases run
    | true =>
      obtain ⟨layout, _, run⟩ := run_lift_bind_eq_ok.mp run
      obtain ⟨id, _, _, run⟩ := run_bind_eq_ok.mp run
      obtain ⟨value, _, _, run⟩ := run_bind_eq_ok.mp run
      obtain ⟨assignable, _, run⟩ := run_lift_bind_eq_ok.mp run
      cases assignable with
      | false => cases run
      | true =>
        cases run_pure_eq_ok.mp run
        rfl
  | _ => cases run

/-- What does not pass as the type that is expected is not accepted. -/
theorem requirePassesAs_eq_ok {src : Hash}
    (run : requirePassesAs P objects root stack targetTriple src expectedType = .ok ()) :
    passesAs P objects root stack targetTriple src expectedType = .ok true := by
  obtain ⟨passes, here, run⟩ := Except.bind_eq_ok.mp run
  cases passes with
  | true => exact here
  | false => cases run

theorem passesAs_self (type : Hash) :
    passesAs P objects root stack targetTriple type type = .ok true := if_pos rfl

theorem passesAs_of_lowerChoiceAs {lowerChoice : Hash → Hash → LowerM LoweredExpr}
    {payload : JsonValue}
    (run : (lowerChoiceAs P objects root stack targetTriple lowerChoice payload exprHash
      expectedType).run ctx = .ok (lowered, ctx')) :
    passesAs P objects root stack targetTriple lowered.typeHash expectedType = .ok true := by
  obtain ⟨ownType, _, run⟩ := run_lift_bind_eq_ok.mp run
  obtain ⟨resultType, _, run⟩ := run_lift_bind_eq_ok.mp run
  obtain ⟨value, _, _, run⟩ := run_bind_eq_ok.mp run
  obtain ⟨_, passes, run⟩ := run_lift_bind_eq_ok.mp run
  cases run_pure_eq_ok.mp run
  exact requirePassesAs_eq_ok passes

/-- An operand that is lowered passes as the type that is expected of it. -/
theorem passesAs_of_lowerExprAs
    (run : (lowerExprAs P objects root stack targetTriple parts exprHash expectedType).run ctx =
      .ok (lowered, ctx')) :
    passesAs P objects root stack targetTriple lowered.typeHash expectedType = .ok true := by
  obtain ⟨payload, _, run⟩ := run_lift_bind_eq_ok.mp run
  obtain ⟨isRecord, _, run⟩ := run_lift_bind_eq_ok.mp run
  by_cases built : isRecord = true
  · rw [if_pos built] at run
    rw [lowerIntoSlot_typeHash run]
    exact passesAs_self _
  rw [if_neg built] at run
  obtain ⟨isEnum, _, run⟩ := run_lift_bind_eq_ok.mp run
  by_cases built : isEnum = true
  · rw [if_pos built] at run
    rw [lowerIntoSlot_typeHash run]
    exact passesAs_self _
  rw [if_neg built] at run
  obtain ⟨isArray, _, run⟩ := run_lift_bind_eq_ok.mp run
  by_cases built : isArray = true
  · rw [if_pos built] at run
    rw [lowerIntoSlot_typeHash run]
    exact passesAs_self _
  rw [if_neg built] at run
  obtain ⟨isBox, _, run⟩ := run_lift_bind_eq_ok.mp run
  by_cases built : isBox = true
  · rw [if_pos built] at run
    rw [lowerBoxNewAs_typeHash run]
    exact passesAs_self _
  rw [if_neg built] at run
  split_ifs at run
  · exact passesAs_of_lowerChoiceAs run
  · exact passesAs_of_lowerChoiceAs run
  · obtain ⟨value, _, _, run⟩ := run_bind_eq_ok.mp run
    obtain ⟨_, passes, run⟩ := run_lift_bind_eq_ok.mp run
    cases run_pure_eq_ok.mp run
    exact requirePassesAs_eq_ok passes

/-- What passes as another type may be stored where that type is. -/
theorem verifyStore_of_passesAs {src dst : Hash}
    (passes : passesAs P objects root stack targetTriple src dst = .ok true)
    (assignable : typeAssignableInRoot P objects root stack src dst = .ok true) :
    verifyStore P objects root stack targetTriple dst src dst = .ok () := by
  rw [verifyStore, assignable, passes]
  simp only [ne_eq, not_true_eq_false, if_false]
  rfl

/-- A field may be stored to at a type that can be used as its own. -/
theorem verifyFieldPlace_of_assignable {owner typeHash : Hash} {base field : String}
    {info : LoweredFieldInfo}
    (found : loweredRecordField P objects root stack targetTriple owner field = .ok info)
    (assignable : typeAssignableInRoot P objects root stack typeHash info.typeHash = .ok true) :
    verifyFieldPlace P objects root stack targetTriple owner
      (.field base field info.fieldSymbol owner (.ofNat info.offsetBytes) typeHash) = .ok () := by
  by_cases same : info.typeHash = typeHash
  · simp [verifyFieldPlace, found, same, bind, Except.bind]
    rfl
  · simp [verifyFieldPlace, found, same, assignable, bind, Except.bind]
    rfl

end Operand

/-! ### A parameter is accepted -/

section Parameter

variable {exprHash src dst : Hash} {payload : JsonValue} {paramTypes : List Hash} {slot : Nat}
  {layout : ComputedLayout} {ctx : LowerCtx}

/-- An expression is a parameter of a type. -/
structure IsParameter (P : Primitives) (objects : Objects) (paramTypes : List Hash)
    (exprHash : Hash) (payload : JsonValue) (slot : Nat) (type : Hash) : Prop where
  stored : getPayload P objects exprHash = .ok payload
  kind : exprKind payload = some "param_ref"
  typed : exprType payload exprHash = .ok type
  index : JsonValue.asU64? (payload.get? "index") = some slot
  listed : paramTypes[slot]? = some type

theorem exists_run_lowerParamPlace
    (parameter : IsParameter P objects paramTypes exprHash payload slot src)
    (laid : typeLayout P objects root stack targetTriple src = .ok layout) :
    ∃ lowered ctx', (lowerParamPlace P objects root stack targetTriple paramTypes exprHash).run
      ctx = .ok (lowered, ctx') := by
  have index : JsonValue.require "param_ref missing index"
      (JsonValue.asU64? (payload.get? "index")) = .ok slot := parameter.index ▸ rfl
  have listed : JsonValue.require ("parameter slot out of bounds " ++ toString slot)
      paramTypes[slot]? = .ok src := parameter.listed ▸ rfl
  rw [lowerParamPlace, run_lift_bind_of_ok parameter.stored, run_lift_bind_of_ok parameter.typed,
    run_lift_bind_of_ok index, run_lift_bind_of_ok listed]
  obtain ⟨indirect, passes⟩ : ∃ indirect, typePassesIndirect P objects root stack targetTriple src =
    .ok indirect := ⟨_, by rw [typePassesIndirect, laid]; rfl⟩
  dsimp only
  rw [if_neg (not_not_intro rfl), run_bind_of_ok rfl, run_lift_bind_of_ok passes]
  exact ⟨_, _, rfl⟩

theorem run_lowerPlaceValue
    (placed : ∃ lowered ctx', (parts.lowerPlace exprHash).run ctx = .ok (lowered, ctx'))
    (laid : typeLayout P objects root stack targetTriple src = .ok layout)
    (copied : layout.layoutClass.copyKind = .copy) :
    ∃ lowered ctx', (lowerPlaceValue P objects root stack targetTriple parts exprHash src).run ctx =
      .ok (lowered, ctx') ∧ lowered.typeHash = src := by
  obtain ⟨place, ctx', placed⟩ := placed
  have owned : typeIsMoveOnly P objects root stack targetTriple src = .ok false := by
    rw [typeIsMoveOnly, laid]
    simp [bind, Except.bind, copied]
    rfl
  obtain ⟨indirect, passes⟩ : ∃ indirect, typePassesIndirect P objects root stack targetTriple src =
    .ok indirect := ⟨_, by rw [typePassesIndirect, laid]; rfl⟩
  obtain ⟨scaffold, requires⟩ : ∃ scaffold,
    typeRequiresCopyScaffold P objects root stack targetTriple src = .ok scaffold :=
    ⟨_, by rw [typeRequiresCopyScaffold, laid]; rfl⟩
  rw [lowerPlaceValue, run_bind_of_ok placed]
  dsimp only
  rw [run_lift_bind_of_ok owned]
  rw [if_neg Bool.false_ne_true, run_lift_bind_of_ok passes]
  cases indirect with
  | true => exact ⟨_, _, rfl, rfl⟩
  | false =>
    rw [if_neg Bool.false_ne_true, run_lift_bind_of_ok requires]
    cases scaffold with
    | true => exact ⟨_, _, rfl, rfl⟩
    | false => exact ⟨_, _, rfl, rfl⟩

theorem exists_run_lowerExpr_parameter
    (parameter : IsParameter P objects paramTypes exprHash payload slot src)
    (laid : typeLayout P objects root stack targetTriple src = .ok layout)
    (copied : layout.layoutClass.copyKind = .copy) (ctx : LowerCtx) :
    ∃ lowered ctx', ((parameterLowering P objects root stack targetTriple paramTypes).lowerExpr
      exprHash).run ctx = .ok (lowered, ctx') ∧ lowered.typeHash = src := by
  rw [parameterLowering, run_lift_bind_of_ok parameter.stored, run_lift_bind_of_ok parameter.typed]
  exact run_lowerPlaceValue (exists_run_lowerParamPlace parameter laid) laid copied

/-- A parameter that is not owned is accepted where its type passes as the one that is expected. -/
theorem exists_run_lowerExprAs_parameter
    (parameter : IsParameter P objects paramTypes exprHash payload slot src)
    (laid : typeLayout P objects root stack targetTriple src = .ok layout)
    (copied : layout.layoutClass.copyKind = .copy)
    (passes : passesAs P objects root stack targetTriple src dst = .ok true) :
    ∃ lowered ctx', (lowerExprAs P objects root stack targetTriple
      (parameterLowering P objects root stack targetTriple paramTypes) exprHash dst).run ctx =
        .ok (lowered, ctx') ∧ lowered.typeHash = src := by
  have skipped (kinds : List String) (other : "param_ref" ∉ kinds)
      (isKind : Hash → Except Error Bool) :
      buildsAt kinds (exprKind payload) isKind dst = .ok false := by
    rw [buildsAt, parameter.kind]
    simp [other]
    rfl
  have required : requirePassesAs P objects root stack targetTriple src dst = .ok () := by
    rw [requirePassesAs, passes]
    rfl
  rw [lowerExprAs, run_lift_bind_of_ok parameter.stored]
  dsimp only
  rw [run_lift_bind_of_ok (skipped _ (by decide) _)]
  rw [if_neg Bool.false_ne_true, run_lift_bind_of_ok (skipped _ (by decide) _)]
  rw [if_neg Bool.false_ne_true, run_lift_bind_of_ok (skipped _ (by decide) _)]
  rw [if_neg Bool.false_ne_true, run_lift_bind_of_ok (skipped _ (by decide) _)]
  rw [if_neg Bool.false_ne_true, if_neg (by simp [parameter.kind]),
    if_neg (by simp [parameter.kind])]
  obtain ⟨value, ctx', lowered, typed⟩ := exists_run_lowerExpr_parameter parameter laid copied ctx
  rw [run_bind_of_ok lowered, typed, run_lift_bind_of_ok required]
  exact ⟨value, ctx', rfl, typed⟩

/-- A pointer passes as another one, whatever they point to. -/
theorem passesAs_pointers {spec spec' : TypeSpec} {a b : Hash} (pair : PointeePair spec spec' a b)
    (found : typeSpecInRoot P objects root src = .ok spec)
    (found' : typeSpecInRoot P objects root dst = .ok spec') :
    passesAs P objects root stack targetTriple src dst = .ok true := by
  have aggregate : isAggregatePair P objects root src dst = .ok false := by
    cases pair <;> simp only [isAggregatePair, typeIsRecord, typeIsEnum, typeIsFixedArray,
      typeIsBox, found, found'] <;> rfl
  rw [passesAs, aggregate]
  split_ifs <;> rfl

end Parameter

/-! ### What is read -/

section Flows

variable {src dst : Hash} {depth : Nat}

theorem not_aggregate_of_isAggregatePair
    (run : isAggregatePair P objects root src dst = .ok false) :
    typeIsRecord P objects root src = .ok false ∧ typeIsEnum P objects root src = .ok false ∧
      typeIsFixedArray P objects root src = .ok false ∧
      typeIsBox P objects root src = .ok false := by
  simp only [isAggregatePair, Except.orM_eq_ok_false] at run
  obtain ⟨record, _, enum, _, array, _, box, _⟩ := run
  exact ⟨record, enum, array, box⟩

/-- What passes as another type passes the check of what is copied byte by byte, or is a pointer. -/
theorem blindCopyCompatible_of_passesAs
    (assignable : typeAssignableInRoot P objects root depth src dst = .ok true)
    (laid : HaveLayouts P objects root stack targetTriple src dst)
    (passes : passesAs P objects root stack targetTriple src dst = .ok true) :
    BlindCopyCompatible P objects root stack targetTriple src dst := by
  by_cases differ : src = dst
  · exact ⟨1, differ ▸ layoutsBlindCopyCompatible_self ..⟩
  rw [passesAs, if_neg differ] at passes
  obtain ⟨aggregate, isAggregate, passes⟩ := Except.bind_eq_ok.mp passes
  cases aggregate with
  | true => exact ⟨stack, passes⟩
  | false =>
    obtain ⟨record, enum, array, box⟩ := not_aggregate_of_isAggregatePair isAggregate
    obtain ⟨⟨layout, here⟩, layout', here'⟩ := laid src dst .refl differ
    obtain ⟨_, _, _, spec, _, found, _⟩ := exists_laidOut here
    obtain ⟨_, _, _, spec', _, found', _⟩ := exists_laidOut here'
    cases sameShape_of_assignable differ assignable found found' with
    | pointers pair =>
      exact ⟨1, layoutsBlindCopyCompatible_pointers pair found found' here here'⟩
    | records =>
      rw [typeIsRecord, found] at record
      cases record
    | enums =>
      rw [typeIsEnum, found] at enum
      cases enum
    | arrays =>
      rw [typeIsFixedArray, found] at array
      cases array
    | boxes =>
      rw [typeIsBox, found] at box
      cases box

/-- What is copied as a whole passes the check. -/
theorem checked_of_copyWhole {exprHash : Hash} {targetAddress : String}
    {ctx ctx' : LowerCtx} {operations : List LoweredOp}
    (run : (copyWhole P objects root stack targetTriple parts exprHash src dst
      targetAddress).run ctx = .ok (operations, ctx')) :
    layoutsBlindCopyCompatible P objects root stack targetTriple stack src dst = .ok true := by
  obtain ⟨passes, here, run⟩ := run_lift_bind_eq_ok.mp run
  cases passes with
  | true => exact here
  | false => cases run

/-- What is not copied field by field passes the check at the outside. -/
theorem AcceptedFlow.outside_iff {sink : ValueSink}
    (flow : AcceptedFlow P objects root stack targetTriple sink src dst)
    (assignable : typeAssignableInRoot P objects root depth src dst = .ok true)
    (laid : HaveLayouts P objects root stack targetTriple src dst) :
    BlindCopyCompatible P objects root stack targetTriple src dst ↔
      (sink = .field → BlindCopyCompatible P objects root stack targetTriple src dst) := by
  refine ⟨fun outside _ => outside, fun outside => ?_⟩
  cases flow with
  | operand run =>
    exact blindCopyCompatible_of_passesAs assignable laid (passesAs_of_lowerExprAs run)
  | whole run => exact ⟨stack, checked_of_copyWhole run⟩
  | field => exact outside rfl

/-- The bytes of a type that lowering lets be read at a type that it can be used as are read as they
were stored exactly when all that the types lead to has layouts and passes the check behind every
pointer, and, where a field of a record is copied, at the outside. -/
theorem acceptedFlow_sameLayout_iff {sink : ValueSink}
    (flow : AcceptedFlow P objects root stack targetTriple sink src dst)
    (assignable : typeAssignableInRoot P objects root depth src dst = .ok true) :
    SameLayout P objects root stack targetTriple src dst ↔
      HaveLayouts P objects root stack targetTriple src dst ∧
      (sink = .field → BlindCopyCompatible P objects root stack targetTriple src dst) ∧
      PointeesCompatible P objects root stack targetTriple src dst := by
  rw [sameLayout_iff assignable]
  exact and_congr_right fun laid => and_congr_left fun _ => flow.outside_iff assignable laid

end Flows

/-! ### What a local is initialized with -/

section Initial

variable {src dst : Hash}

theorem isAggregatePair_answers {spec spec' : TypeSpec}
    (found : typeSpecInRoot P objects root src = .ok spec)
    (found' : typeSpecInRoot P objects root dst = .ok spec') :
    ∃ aggregate, isAggregatePair P objects root src dst = .ok aggregate := by
  simp only [isAggregatePair, typeIsRecord, typeIsEnum, typeIsFixedArray, typeIsBox, found, found']
  cases spec <;> cases spec' <;> exact ⟨_, rfl⟩

/-- What can be copied byte by byte passes as what it is copied to. -/
theorem passesAs_of_checked
    (checked : layoutsBlindCopyCompatible P objects root stack targetTriple stack src dst =
      .ok true) : passesAs P objects root stack targetTriple src dst = .ok true := by
  by_cases same : src = dst
  · rw [same, passesAs_self]
  -- the check reads both types, so the guard can tell what they are
  have read : ∃ spec spec', typeSpecInRoot P objects root src = .ok spec ∧
      typeSpecInRoot P objects root dst = .ok spec' := by
    cases stack with
    | zero => cases checked
    | succ depth =>
      rw [layoutsBlindCopyCompatible, if_neg same] at checked
      obtain ⟨spec, found, checked⟩ := Except.bind_eq_ok.mp checked
      obtain ⟨spec', found', -⟩ := Except.bind_eq_ok.mp checked
      exact ⟨spec, spec', found, found'⟩
  obtain ⟨spec, spec', found, found'⟩ := read
  obtain ⟨aggregate, isAggregate⟩ := isAggregatePair_answers found found'
  rw [passesAs, if_neg same, isAggregate]
  cases aggregate with
  | true => exact checked
  | false => rfl

/-- What is read as a whole at a type that it can be used as may be stored there. -/
theorem AcceptedFlow.verifyStore {sink : ValueSink}
    (flow : AcceptedFlow P objects root stack targetTriple sink src dst) (whole : sink ≠ .field)
    (assignable : typeAssignableInRoot P objects root stack src dst = .ok true) :
    CodeDb.verifyStore P objects root stack targetTriple dst src dst = .ok () := by
  refine verifyStore_of_passesAs ?_ assignable
  cases flow with
  | operand run => exact passesAs_of_lowerExprAs run
  | whole run => exact passesAs_of_checked (checked_of_copyWhole run)
  | field => exact absurd rfl whole

section Fields

variable {exprHash targetType : Hash} {targetAddress : String} {source : LoweredAddress}
  {fields : List TypeFieldSpec} {field : TypeFieldSpec} {ctx ctx' : LowerCtx}
  {operations : List LoweredOp}

/-- The field that is found under the name of a field of a record is that field. -/
theorem loweredRecordField_typeHash {info : LoweredFieldInfo}
    (record : typeSpecInRoot P objects root targetType = .ok (.record fields))
    (listed : field ∈ fields)
    (found : loweredRecordField P objects root stack targetTriple targetType field.name =
      .ok info) : info.typeHash = field.typeHash := by
  replace record : typeSpecInRoot P objects root targetType = pure (.record fields) := record
  obtain ⟨offset, -, found⟩ := Except.bind_eq_ok.mp found
  obtain ⟨spec, -, found⟩ := Except.bind_eq_ok.mp found
  simp only [record, pure_bind] at found
  -- whatever its symbol is, the field is searched for among those of the record
  have known : ∃ fieldSymbol candidate, fields.find? (·.name == field.name) = some candidate ∧
      info = ⟨candidate.typeHash, fieldSymbol, offset⟩ := by
    cases search : fields.find? (·.name == field.name) with
    | none =>
      simp only [search] at found
      split at found
      · obtain ⟨entry, -, found⟩ := Except.bind_eq_ok.mp found
        obtain ⟨definition, -, found⟩ := Except.bind_eq_ok.mp found
        cases definition <;> cases found
      · cases found
    | some candidate =>
      simp only [search] at found
      split at found
      · obtain ⟨entry, -, found⟩ := Except.bind_eq_ok.mp found
        obtain ⟨definition, -, found⟩ := Except.bind_eq_ok.mp found
        cases definition with
        | record body => exact ⟨_, candidate, rfl, (Except.ok.inj found).symm⟩
        | enum body => cases found
      · exact ⟨_, candidate, rfl, (Except.ok.inj found).symm⟩
  obtain ⟨_, candidate, search, rfl⟩ := known
  have same : candidate.name = field.name := by simpa using List.find?_some search
  exact congrArg TypeFieldSpec.typeHash (List.inj_on_of_nodup_map (nodup_members record)
    (List.mem_of_find?_eq_some search) listed same)

/-- A field is copied to that of its name, as a value of the type it has in the source: both places
and the store pass the check of the operations. -/
theorem copyField_verified
    (record : typeSpecInRoot P objects root targetType = .ok (.record fields))
    (listed : field ∈ fields)
    (run : (copyField P objects root stack targetTriple exprHash source targetType targetAddress
      field).run ctx = .ok (operations, ctx')) :
    ∃ type sourceAddress value address sourcePlace targetPlace,
      operations = [.addrOfField sourceAddress sourcePlace, .load value sourceAddress type,
        .addrOfField address targetPlace, .store address value type] ∧
      verifyFieldPlace P objects root stack targetTriple source.typeHash sourcePlace = .ok () ∧
      verifyFieldPlace P objects root stack targetTriple targetType targetPlace = .ok () ∧
      verifyStore P objects root stack targetTriple type type type = .ok () ∧
      AcceptedFlow P objects root stack targetTriple .field type field.typeHash ∧
      typeAssignableInRoot P objects root stack type field.typeHash = .ok true := by
  have copied := run
  obtain ⟨sourceInfo, found, run⟩ := run_lift_bind_eq_ok.mp run
  obtain ⟨passes, assignable, run⟩ := run_lift_bind_eq_ok.mp run
  cases passes with
  | false => cases run
  | true =>
    obtain ⟨sourceAddress, _, -, run⟩ := run_bind_eq_ok.mp run
    obtain ⟨value, _, -, run⟩ := run_bind_eq_ok.mp run
    obtain ⟨targetInfo, found', run⟩ := run_lift_bind_eq_ok.mp run
    obtain ⟨address, _, -, run⟩ := run_bind_eq_ok.mp run
    cases run_pure_eq_ok.mp run
    -- the place of the target is given the type of the source, whether or not it is its own
    have fieldType := loweredRecordField_typeHash record listed found'
    have storeType : (if sourceInfo.typeHash = targetInfo.typeHash then targetInfo.typeHash
        else sourceInfo.typeHash) = sourceInfo.typeHash := by
      split_ifs with same
      · exact same.symm
      · rfl
    have reflexive : typeAssignableInRoot P objects root stack sourceInfo.typeHash
        sourceInfo.typeHash = .ok true := by
      cases stack with
      | zero => cases assignable
      | succ depth => exact if_pos rfl
    rw [storeType]
    exact ⟨_, _, _, _, _, _, rfl, verifyFieldPlace_of_assignable found reflexive,
      verifyFieldPlace_of_assignable found' (fieldType ▸ assignable),
      verifyStore_of_passesAs (passesAs_self _) reflexive,
      fieldType ▸ .field copied found found', assignable⟩

end Fields

variable (P objects root stack targetTriple)

/-- Bytes of one type that are read at another one. -/
structure Flow where
  sink : ValueSink
  source : Hash
  target : Hash

/-- Lowering accepts what is read at a type that it can be used as. -/
structure Flow.Accepted (flow : Flow) : Prop where
  flows : AcceptedFlow P objects root stack targetTriple flow.sink flow.source flow.target
  assignable : typeAssignableInRoot P objects root stack flow.source flow.target = .ok true

/-- What is read at which type where a local of a type is initialized with a value: nothing where
the value is built at the type, the value as a whole, or a record field by field. -/
inductive InitialFlows (valueHash targetType : Hash) : List Flow → Prop
  | built {payload : JsonValue} {kind : String} : getPayload P objects valueHash = .ok payload →
    exprKind payload = some kind →
    kind ∈ ["record_literal", "enum_construct", "array_literal", "array_fill", "array_set"] →
    InitialFlows valueHash targetType []
  | whole {sink : ValueSink} {source : Hash} : sink ≠ .field →
    Flow.Accepted P objects root stack targetTriple ⟨sink, source, targetType⟩ →
    InitialFlows valueHash targetType [⟨sink, source, targetType⟩]
  | fields {fields : List TypeFieldSpec} {sourceType : TypeFieldSpec → Hash} :
    typeSpecInRoot P objects root targetType = .ok (.record fields) →
    (∀ field ∈ fields, Flow.Accepted P objects root stack targetTriple
      ⟨.field, sourceType field, field.typeHash⟩) →
    InitialFlows valueHash targetType
      (fields.map fun field => ⟨.field, sourceType field, field.typeHash⟩)

variable {P objects root stack targetTriple} {valueHash targetType : Hash} {targetAddress : String}
  {ctx ctx' : LowerCtx} {operations : List LoweredOp}

theorem initialFlows_of_copyFields {sourceType : Hash}
    (run : (copyFields P objects root stack targetTriple parts valueHash sourceType targetType
      targetAddress).run ctx = .ok (operations, ctx')) :
    ∃ flows, InitialFlows P objects root stack targetTriple valueHash targetType flows := by
  obtain ⟨source, _, -, run⟩ := run_bind_eq_ok.mp run
  obtain ⟨scaffold, _, -, run⟩ := run_bind_eq_ok.mp run
  obtain ⟨fields, isRecord, run⟩ := run_lift_bind_eq_ok.mp run
  obtain ⟨copies, _, copied, -⟩ := run_bind_eq_ok.mp run
  obtain ⟨spec, record, isRecord⟩ := Except.bind_eq_ok.mp isRecord
  cases spec with
  | record listed =>
    obtain rfl := Except.pure_eq_ok.mp isRecord
    have each : ∀ field ∈ listed, ∃ type, Flow.Accepted P objects root stack targetTriple
        ⟨.field, type, field.typeHash⟩ := by
      intro field mem
      obtain ⟨_, _, _, run⟩ := exists_run_of_mem_mapM copied mem
      obtain ⟨type, _, _, _, _, _, _, _, _, _, flows, assignable⟩ :=
        copyField_verified record mem run
      exact ⟨type, flows, assignable⟩
    choose! sourceType accepted using each
    exact ⟨_, .fields record accepted⟩
  | _ =>
    obtain ⟨_, -, isRecord⟩ := Except.bind_eq_ok.mp isRecord
    cases isRecord

/-- What a local is initialized with is built at its type, or what flows into it is accepted. -/
theorem initialFlows_of_lowerValueIntoAddress
    (run : (lowerValueIntoAddress P objects root stack targetTriple parts valueHash targetType
      targetAddress).run ctx = .ok (operations, ctx')) :
    ∃ flows, InitialFlows P objects root stack targetTriple valueHash targetType flows := by
  obtain ⟨payload, stored, run⟩ := run_lift_bind_eq_ok.mp run
  dsimp only at run
  split_ifs at run with record enum array
  · exact ⟨_, .built stored record (by decide)⟩
  · exact ⟨_, .built stored enum (by decide)⟩
  · obtain ⟨kind, isKind, listed⟩ := (Option.any_eq_true _ _).mp array
    have built := List.mem_cons_of_mem "enum_construct" (of_decide_eq_true listed)
    exact ⟨_, .built stored isKind (List.mem_cons_of_mem "record_literal" built)⟩
  -- what is built by the kind of the expression is done; the rest lies at a place or is an operand
  obtain ⟨copiesPlace, -, run⟩ := run_lift_bind_eq_ok.mp run
  cases copiesPlace with
  | true =>
    obtain ⟨sourcePayload, -, run⟩ := run_lift_bind_eq_ok.mp run
    obtain ⟨sourceType, -, run⟩ := run_lift_bind_eq_ok.mp run
    obtain ⟨passes, assignable, run⟩ := run_lift_bind_eq_ok.mp run
    cases passes with
    | false => cases run
    | true =>
      obtain ⟨whole, -, run⟩ := run_lift_bind_eq_ok.mp run
      cases whole with
      | true => exact ⟨_, .whole (by decide) ⟨.whole run, assignable⟩⟩
      | false => exact initialFlows_of_copyFields run
  | false =>
    obtain ⟨value, _, lowered, run⟩ := run_bind_eq_ok.mp run
    obtain ⟨passes, assignable, run⟩ := run_lift_bind_eq_ok.mp run
    cases passes with
    | false => cases run
    | true => exact ⟨_, .whole (by decide) ⟨.operand lowered, assignable⟩⟩

variable {flows : List Flow}

theorem InitialFlows.accepted
    (initial : InitialFlows P objects root stack targetTriple valueHash targetType flows) :
    ∀ flow ∈ flows, flow.Accepted P objects root stack targetTriple := by
  cases initial with
  | built => exact nofun
  | whole _ accepted => exact List.forall_mem_singleton.mpr accepted
  | fields _ accepted => exact List.forall_mem_map.mpr accepted

/-- A local that is initialized is read as what flows into it was stored exactly when all that flows
has layouts and passes the check behind every pointer, and each field that is copied does at the
outside. -/
theorem InitialFlows.sameLayout_iff
    (initial : InitialFlows P objects root stack targetTriple valueHash targetType flows) :
    (∀ flow ∈ flows, SameLayout P objects root stack targetTriple flow.source flow.target) ↔
      ∀ flow ∈ flows, HaveLayouts P objects root stack targetTriple flow.source flow.target ∧
        (flow.sink = .field →
          BlindCopyCompatible P objects root stack targetTriple flow.source flow.target) ∧
        PointeesCompatible P objects root stack targetTriple flow.source flow.target := by
  refine forall₂_congr fun flow mem => ?_
  obtain ⟨flows, assignable⟩ := initial.accepted flow mem
  rw [CodeDb.sameLayout_iff assignable]
  exact and_congr_right fun laid => and_congr_left fun _ => flows.outside_iff assignable laid

end Initial

/-! ### A record that is declared in another order than that of the names -/

def structuralFields : List TypeFieldSpec := [⟨"a", typeI64⟩, ⟨"b", typeI64⟩]

/-- A record that is given by its fields: they lie in the order of their names. -/
def typeStructural : Hash := objectHash plain "Type" (recordPayload structuralFields)

def declared : Hash := "sha256:declared"

/-- A record of the same fields that are declared in another order. -/
def declaredDefinition : TypeDefinition :=
  .record ⟨declared, [], [], [⟨"sha256:b", "b", typeI64⟩, ⟨"sha256:a", "a", typeI64⟩]⟩

theorem declaredDefinition_valid : declaredDefinition.Valid where
  regionParams := rfl
  typeParams := rfl
  members := by
    have integer : hasHashPrefix typeI64 := hasHashPrefix_objectHash ..
    have known : isProjectionIdentifier "a" ∧ isProjectionIdentifier "b" ∧
      hasHashPrefix "sha256:a" ∧ hasHashPrefix "sha256:b" := by decide
    simp [declaredDefinition, TypeDefinition.body, validateMemberDefs, validateMemberDefs.go,
      validateProjectionIdentifier, known, integer, bind, Except.bind]

def declaredPayload : JsonValue :=
  .object [("region_args", .strings []), ("type_kind", .string "Named"),
    ("type_symbol", .string declared)]

def typeDeclared : Hash := objectHash plain "Type" declaredPayload

def borrowRegion : Hash := "sha256:region"

def referencePayload (referent : Hash) : JsonValue :=
  .object [("mutable", .bool false), ("referent", .string referent),
    ("region", .string borrowRegion), ("type_kind", .string "Reference")]

/-- A shared reference. -/
def typeReference (referent : Hash) : Hash := objectHash plain "Type" (referencePayload referent)

def firstParameter : JsonValue :=
  .object [("expr_kind", .string "param_ref"), ("index", .number (.posInt 0)),
    ("type", .string (typeReference typeStructural))]

def orderEntries : List (String × JsonValue) :=
  [("Type", recordPayload structuralFields), ("Type", declaredPayload),
    ("Type", referencePayload typeStructural), ("Type", referencePayload typeDeclared),
    ("Expression", firstParameter),
    (declaredDefinition.keys.objectKind, declaredDefinition.payload),
    ("TypeDef", typeDefPayload declared declaredDefinition)]

@[irreducible] def orderObjects : Objects := putAll plain ∅ orderEntries

def declaredTypeDef : Hash :=
  objectHash plain "TypeDef" (typeDefPayload declared declaredDefinition)

def orderRoot : ProgramRootPayload :=
  { ProgramRootPayload.empty with types := [⟨declared, declaredTypeDef⟩] }

theorem stored_orderObjects {kind : String} {payload : JsonValue}
    (mem : (kind, payload) ∈ orderEntries) : Stored plain orderObjects kind payload := by
  have empty : Addressed plain ∅ := fun hash _ found =>
    nomatch (AList.lookup_empty hash).symm.trans found
  unfold orderObjects
  exact stored_putAll plain_reliable empty mem

theorem typeSpec_typeStructural :
    typeSpec plain orderObjects typeStructural = .ok (.record structuralFields) :=
  (stored_orderObjects (.head _)).typeSpec_record (List.cons_ne_nil _ _)
    (by simp only [structuralFields, List.forall_mem_cons]; decide)
    (List.pairwise_pair.mpr (by decide))

theorem typeSpec_typeDeclared :
    typeSpec plain orderObjects typeDeclared = .ok (.named declared [] []) := by
  have fixed : Fixed plain.floatText declaredPayload :=
    Fixed.object (by simp only [List.map]; decide) (by simp [Fixed.string, fixed_strings])
  rw [typeDeclared, (stored_orderObjects (.tail _ (.head _))).typeSpec fixed
    (by simp [declaredPayload])]
  rfl

theorem typeSpec_typeReference {referent : Hash} (prefixed : hasHashPrefix referent)
    (stored : Stored plain orderObjects "Type" (referencePayload referent)) :
    typeSpec plain orderObjects (typeReference referent) =
      .ok (.reference borrowRegion false referent) := by
  have fixed : Fixed plain.floatText (referencePayload referent) :=
    Fixed.object (by simp only [List.map]; decide) (by simp [Fixed.string, Fixed.bool])
  have valid : validateTypeHashText "reference referent" referent = .ok () := if_pos prefixed
  rw [typeReference, stored.typeSpec fixed (by simp [referencePayload])]
  exact Except.bind_eq_ok.mpr ⟨"Reference", rfl, Except.bind_eq_ok.mpr ⟨borrowRegion,
    Except.bind_eq_ok.mpr ⟨borrowRegion, rfl, rfl⟩, Except.bind_eq_ok.mpr ⟨false, rfl,
      Except.bind_eq_ok.mpr ⟨referent, Except.bind_eq_ok.mpr ⟨referent, rfl,
        Except.bind_eq_ok.mpr ⟨(), valid, rfl⟩⟩, rfl⟩⟩⟩⟩

theorem typeDefinition_declaredTypeDef :
    typeDefinition plain orderObjects declaredTypeDef = .ok declaredDefinition :=
  typeDefinition_stored
    (stored_orderObjects (.tail _ (.tail _ (.tail _ (.tail _ (.tail _ (.head _)))))))
    (stored_orderObjects (.tail _ (.tail _ (.tail _ (.tail _ (.tail _ (.tail _ (.head _))))))))
    declaredDefinition_valid

theorem typeSpecInRoot_typeDeclared :
    typeSpecInRoot plain orderObjects orderRoot typeDeclared =
      .ok (.record [⟨"b", typeI64⟩, ⟨"a", typeI64⟩]) := by
  have listed : rootType orderRoot declared = some ⟨declared, declaredTypeDef⟩ := by
    simp [orderRoot, rootType]
  exact typeSpecInRoot_defined typeSpec_typeDeclared listed typeDefinition_declaredTypeDef rfl rfl

/-! Their layouts. -/

theorem layoutType_typeI64 {depth : Nat} {active s : List Hash} (fresh : typeI64 ∉ active) :
    (layoutType plain orderObjects orderRoot linuxTarget (depth + 1) active typeI64).run s =
      .ok (⟨.scalar, 8, 8, .copy⟩, s) := by
  rw [layoutType, if_neg fresh, layoutTypeInner, run_lift_bind_eq_ok]
  refine ⟨_, typeSpec_typeI64 _, run_lift_eq_ok.mpr ⟨?_, rfl⟩⟩
  rw [layoutBuiltin, scalarIntTypeByHash_typeI64]
  rfl

/-- Two integers lie one behind the other. -/
theorem layoutRecord_integers {recurse : Hash → LayoutM ComputedLayout}
    (integer : ∀ s, (recurse typeI64).run s = .ok (⟨.scalar, 8, 8, .copy⟩, s))
    {typeHash : Hash} {typeSymbol typeDef symbol symbol' : Option Hash} {name name' : String}
    {s : List Hash} :
    (layoutRecord recurse typeHash typeSymbol typeDef
      [⟨symbol, name, typeI64⟩, ⟨symbol', name', typeI64⟩]).run s =
      .ok (⟨.record typeSymbol typeDef
        [⟨symbol, name, typeI64, 0, 8, 8⟩, ⟨symbol', name', typeI64, 8, 8, 8⟩], 16, 8, .copy⟩,
        s) := by
  have first : (layoutField recurse typeHash ⟨0, 0, 1, .copy, []⟩ ⟨symbol, name, typeI64⟩).run s =
      .ok (⟨8, 8, 8, .copy, [⟨symbol, name, typeI64, 0, 8, 8⟩]⟩, s) :=
    run_bind_eq_ok.mpr ⟨_, _, integer s, rfl⟩
  have second : (layoutField recurse typeHash
      ⟨8, 8, 8, .copy, [⟨symbol, name, typeI64, 0, 8, 8⟩]⟩ ⟨symbol', name', typeI64⟩).run s =
      .ok (⟨16, 16, 8, .copy,
        [⟨symbol, name, typeI64, 0, 8, 8⟩, ⟨symbol', name', typeI64, 8, 8, 8⟩]⟩, s) :=
    run_bind_eq_ok.mpr ⟨_, _, integer s, run_lift_bind_eq_ok.mpr
      ⟨8, (rfl : alignUp 8 8 = .ok 8), run_lift_bind_eq_ok.mpr
        ⟨16, (rfl : checkedAdd _ 8 8 = .ok 16), rfl⟩⟩⟩
  have both : ([⟨symbol, name, typeI64⟩, ⟨symbol', name', typeI64⟩].foldlM
      (layoutField recurse typeHash) ⟨0, 0, 1, .copy, []⟩).run s =
      .ok (⟨16, 16, 8, .copy,
        [⟨symbol, name, typeI64, 0, 8, 8⟩, ⟨symbol', name', typeI64, 8, 8, 8⟩]⟩, s) := by
    rw [List.foldlM_cons]
    exact run_bind_eq_ok.mpr ⟨_, _, first, run_bind_eq_ok.mpr ⟨_, _, second, rfl⟩⟩
  exact run_bind_eq_ok.mpr ⟨_, s, both, run_lift_bind_eq_ok.mpr
    ⟨16, (rfl : alignUp 16 8 = .ok 16), rfl⟩⟩

theorem typeI64_ne_typeStructural : typeI64 ≠ typeStructural := fun same => by
  have found := typeSpec_typeStructural
  rw [← same, typeSpec_typeI64] at found
  cases found

theorem typeI64_ne_typeDeclared : typeI64 ≠ typeDeclared := fun same => by
  have found := typeSpec_typeDeclared
  rw [← same, typeSpec_typeI64] at found
  cases found

theorem typeLayout_typeStructural :
    typeLayout plain orderObjects orderRoot 4 linuxX8664Target typeStructural =
      .ok ⟨.record none none [⟨none, "a", typeI64, 0, 8, 8⟩, ⟨none, "b", typeI64, 8, 8, 8⟩], 16, 8,
        .copy⟩ := by
  refine typeLayout_eq_ok.mpr ⟨linuxTarget, [], rfl, ?_⟩
  rw [layoutType, if_neg List.not_mem_nil, layoutTypeInner, run_lift_bind_eq_ok]
  exact ⟨_, typeSpec_typeStructural, layoutRecord_integers fun s =>
    layoutType_typeI64 (by simpa using typeI64_ne_typeStructural)⟩

theorem typeLayout_typeDeclared :
    typeLayout plain orderObjects orderRoot 4 linuxX8664Target typeDeclared =
      .ok ⟨.record (some declared) (some declaredTypeDef)
        [⟨some "sha256:b", "b", typeI64, 0, 8, 8⟩, ⟨some "sha256:a", "a", typeI64, 8, 8, 8⟩], 16, 8,
        .copy⟩ := by
  refine typeLayout_eq_ok.mpr ⟨linuxTarget, [declaredTypeDef], rfl, ?_⟩
  rw [layoutType, if_neg List.not_mem_nil, layoutTypeInner, run_lift_bind_eq_ok]
  refine ⟨_, typeSpec_typeDeclared, ?_⟩
  change (layoutNamed plain orderObjects orderRoot linuxTarget _ typeDeclared declared [] []).run
    [] = _
  rw [layoutNamed, run_lift_bind_eq_ok]
  refine ⟨⟨declared, declaredTypeDef⟩, by simp [orderRoot, rootType, JsonValue.require],
    run_lift_bind_eq_ok.mpr ⟨_, typeDefinition_declaredTypeDef, ?_⟩⟩
  refine run_bind_eq_ok.mpr ⟨_, _, rfl, run_lift_bind_eq_ok.mpr
    ⟨_, typeSpecInRoot_typeDeclared, run_lift_bind_eq_ok.mpr ⟨_, rfl, ?_⟩⟩⟩
  exact layoutRecord_integers fun s => layoutType_typeI64 (by simpa using typeI64_ne_typeDeclared)

/-! A reference to the first record is used where one to the other is expected. -/

def sharedLayout (referent : Hash) : ComputedLayout :=
  ⟨.reference borrowRegion false referent, 8, 8, .sharedReference⟩

/-- A reference is a pointer, whatever it refers to. -/
theorem typeLayout_typeReference {referent : Hash} {spec : TypeSpec}
    (found : typeSpec plain orderObjects (typeReference referent) =
      .ok (.reference borrowRegion false referent))
    (referred : typeSpec plain orderObjects referent = .ok spec) :
    typeLayout plain orderObjects orderRoot 4 linuxX8664Target (typeReference referent) =
      .ok (sharedLayout referent) := by
  refine typeLayout_eq_ok.mpr ⟨linuxTarget, [], rfl, ?_⟩
  rw [layoutType, if_neg List.not_mem_nil, layoutTypeInner, run_lift_bind_eq_ok]
  exact ⟨_, found, run_lift_bind_eq_ok.mpr ⟨spec, referred, rfl⟩⟩

theorem typeSpec_referenceStructural :
    typeSpec plain orderObjects (typeReference typeStructural) =
      .ok (.reference borrowRegion false typeStructural) :=
  typeSpec_typeReference (hasHashPrefix_objectHash ..)
    (stored_orderObjects (.tail _ (.tail _ (.head _))))

theorem typeSpec_referenceDeclared :
    typeSpec plain orderObjects (typeReference typeDeclared) =
      .ok (.reference borrowRegion false typeDeclared) :=
  typeSpec_typeReference (hasHashPrefix_objectHash ..)
    (stored_orderObjects (.tail _ (.tail _ (.tail _ (.head _)))))

theorem typeLayout_referenceStructural :
    typeLayout plain orderObjects orderRoot 4 linuxX8664Target (typeReference typeStructural) =
      .ok (sharedLayout typeStructural) :=
  typeLayout_typeReference typeSpec_referenceStructural typeSpec_typeStructural

theorem typeStructural_ne_typeDeclared : typeStructural ≠ typeDeclared := fun same => by
  have found := typeSpec_typeStructural
  rw [same, typeSpec_typeDeclared] at found
  cases found

theorem typeReference_ne : typeReference typeStructural ≠ typeReference typeDeclared := by
  intro same
  have found := typeSpec_referenceStructural
  rw [same, typeSpec_referenceDeclared] at found
  obtain ⟨_, _, referent⟩ := TypeSpec.reference.inj (Except.ok.inj found)
  exact typeStructural_ne_typeDeclared referent.symm

theorem typeSpecInRoot_typeStructural :
    typeSpecInRoot plain orderObjects orderRoot typeStructural = .ok (.record structuralFields) :=
  typeSpecInRoot_of_not_named typeSpec_typeStructural fun _ _ _ named => nomatch named

theorem typeSpecInRoot_referenceStructural :
    typeSpecInRoot plain orderObjects orderRoot (typeReference typeStructural) =
      .ok (.reference borrowRegion false typeStructural) :=
  typeSpecInRoot_of_not_named typeSpec_referenceStructural fun _ _ _ named => nomatch named

theorem typeSpecInRoot_referenceDeclared :
    typeSpecInRoot plain orderObjects orderRoot (typeReference typeDeclared) =
      .ok (.reference borrowRegion false typeDeclared) :=
  typeSpecInRoot_of_not_named typeSpec_referenceDeclared fun _ _ _ named => nomatch named

/-- The first record can be used as the other one: they have the same fields by name. -/
theorem assignable_records (depth : Nat) :
    typeAssignableInRoot plain orderObjects orderRoot (depth + 2) typeStructural typeDeclared =
      .ok true := by
  have integer : typeAssignableInRoot plain orderObjects orderRoot (depth + 1) typeI64 typeI64 =
      .ok true := by
    rw [typeAssignableInRoot, if_pos rfl]
  have distinct : (structuralFields.map (·.name)).Nodup := by decide
  rw [typeAssignableInRoot, if_neg typeStructural_ne_typeDeclared, typeSpec_typeStructural,
    typeSpec_typeDeclared, typeSpecInRoot_typeStructural, typeSpecInRoot_typeDeclared]
  refine (everyMember_eq_ok_true distinct).mpr fun e listed => ?_
  have named : e = ⟨"b", typeI64⟩ ∨ e = ⟨"a", typeI64⟩ := by simpa using listed
  rcases named with rfl | rfl
  · exact ⟨⟨"b", typeI64⟩, by simp [structuralFields], rfl, integer⟩
  · exact ⟨⟨"a", typeI64⟩, by simp [structuralFields], rfl, integer⟩

/-- A reference can be used as one to what its referent can be used as. -/
theorem typeAssignableInRoot_reference {src dst region referent referent' : Hash} {isMut : Bool}
    {depth : Nat} (differ : src ≠ dst)
    (found : typeSpec P objects src = .ok (.reference region isMut referent))
    (found' : typeSpec P objects dst = .ok (.reference region isMut referent'))
    (run : typeAssignableInRoot P objects root depth referent referent' = .ok true) :
    typeAssignableInRoot P objects root (depth + 1) src dst = .ok true := by
  have inRoot : typeSpecInRoot P objects root src = .ok (.reference region isMut referent) :=
    typeSpecInRoot_of_not_named found fun _ _ _ named => nomatch named
  have inRoot' : typeSpecInRoot P objects root dst = .ok (.reference region isMut referent') :=
    typeSpecInRoot_of_not_named found' fun _ _ _ named => nomatch named
  rw [typeAssignableInRoot, if_neg differ, found, found', inRoot, inRoot']
  change (if region ≠ region ∨ isMut ≠ isMut then pure false
    else typeAssignableInRoot P objects root depth referent referent') = _
  rw [if_neg (by simp), run]

theorem assignable_references :
    typeAssignableInRoot plain orderObjects orderRoot 4 (typeReference typeStructural)
      (typeReference typeDeclared) = .ok true :=
  typeAssignableInRoot_reference typeReference_ne typeSpec_referenceStructural
    typeSpec_referenceDeclared (assignable_records 1)

/-! It lowers. -/

def parameterHash : Hash := objectHash plain "Expression" firstParameter

theorem isParameter_firstParameter :
    IsParameter plain orderObjects [typeReference typeStructural] parameterHash firstParameter 0
      (typeReference typeStructural) where
  stored :=
    (stored_orderObjects (.tail _ (.tail _ (.tail _ (.tail _ (.head _)))))).getPayload
      (Fixed.object (by simp only [List.map]; decide) (by simp [Fixed.string]; rfl))
  kind := rfl
  typed := rfl
  index := rfl
  listed := rfl

theorem passesAs_references :
    passesAs plain orderObjects orderRoot 4 linuxX8664Target (typeReference typeStructural)
      (typeReference typeDeclared) = .ok true :=
  passesAs_pointers (.referent ..) typeSpecInRoot_referenceStructural
    typeSpecInRoot_referenceDeclared

theorem exists_run_parameter : ∃ lowered ctx', (lowerExprAs plain orderObjects orderRoot 4
    linuxX8664Target (parameterLowering plain orderObjects orderRoot 4 linuxX8664Target
      [typeReference typeStructural]) parameterHash (typeReference typeDeclared)).run .new =
        .ok (lowered, ctx') ∧ lowered.typeHash = typeReference typeStructural :=
  exists_run_lowerExprAs_parameter isParameter_firstParameter typeLayout_referenceStructural rfl
    passesAs_references

/-- The reference to the first record is accepted where one to the other is expected. -/
theorem acceptedFlow_references :
    AcceptedFlow plain orderObjects orderRoot 4 linuxX8664Target .operand
      (typeReference typeStructural) (typeReference typeDeclared) := by
  obtain ⟨lowered, ctx', run, typed⟩ := exists_run_parameter
  have flow := AcceptedFlow.operand run
  rwa [typed] at flow

theorem partPair_references :
    PartPair plain orderObjects orderRoot (typeReference typeStructural, typeReference typeDeclared)
      (typeStructural, typeDeclared) :=
  ⟨_, _, typeSpecInRoot_referenceStructural, typeSpecInRoot_referenceDeclared,
    Or.inr (.referent ..)⟩

theorem not_laidOutAlike_records :
    ¬ LaidOutAlike plain orderObjects orderRoot 4 linuxX8664Target typeStructural typeDeclared := by
  rintro (same | ⟨layout, layout', laid, laid', _, places⟩)
  · exact typeStructural_ne_typeDeclared same
  · cases typeLayout_typeStructural.symm.trans laid
    cases typeLayout_typeDeclared.symm.trans laid'
    obtain ⟨_, each⟩ := places
    -- The field `b` lies behind `a` in the one record, and before it in the other one.
    obtain ⟨field, listed, named, offset⟩ := each _ (.head _)
    simp only [List.mem_cons, List.not_mem_nil, or_false] at listed
    rcases listed with rfl | rfl
    · exact absurd named (by decide)
    · exact absurd offset (by decide)

theorem layoutFieldOffsetBytes_records :
    layoutFieldOffsetBytes plain orderObjects orderRoot 4 linuxX8664Target typeStructural "b" =
      .ok 8 ∧
    layoutFieldOffsetBytes plain orderObjects orderRoot 4 linuxX8664Target typeDeclared "b" =
      .ok 0 := by
  rw [layoutFieldOffsetBytes, layoutFieldOffsetBytes, typeLayout_typeStructural,
    typeLayout_typeDeclared]
  exact ⟨rfl, rfl⟩

/-- A reference to a record is accepted where one to a record is expected that has the fields in
another order: what is stored at `b` is not what is loaded from it. -/
theorem accepted_not_sameLayout :
    AcceptedFlow plain orderObjects orderRoot 4 linuxX8664Target .operand
      (typeReference typeStructural) (typeReference typeDeclared) ∧
    typeAssignableInRoot plain orderObjects orderRoot 4 (typeReference typeStructural)
      (typeReference typeDeclared) = .ok true ∧
    ¬ SameLayout plain orderObjects orderRoot 4 linuxX8664Target (typeReference typeStructural)
      (typeReference typeDeclared) ∧
    layoutFieldOffsetBytes plain orderObjects orderRoot 4 linuxX8664Target typeStructural "b" =
      .ok 8 ∧
    layoutFieldOffsetBytes plain orderObjects orderRoot 4 linuxX8664Target typeDeclared "b" =
      .ok 0 :=
  ⟨acceptedFlow_references, assignable_references,
    fun same => not_laidOutAlike_records (same _ _ (.single partPair_references)),
    layoutFieldOffsetBytes_records⟩

/-- So it is not checked that the bytes of the one record can be read at the other one. -/
theorem sameLayout_iff_references :
    SameLayout plain orderObjects orderRoot 4 linuxX8664Target (typeReference typeStructural)
      (typeReference typeDeclared) ↔
    HaveLayouts plain orderObjects orderRoot 4 linuxX8664Target (typeReference typeStructural)
      (typeReference typeDeclared) ∧
    (ValueSink.operand = .field → BlindCopyCompatible plain orderObjects orderRoot 4
      linuxX8664Target (typeReference typeStructural) (typeReference typeDeclared)) ∧
    PointeesCompatible plain orderObjects orderRoot 4 linuxX8664Target
      (typeReference typeStructural) (typeReference typeDeclared) :=
  acceptedFlow_sameLayout_iff acceptedFlow_references assignable_references

end CodeDb

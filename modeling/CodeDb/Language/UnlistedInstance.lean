import CodeDb.Language.EvaluationEffects
import CodeDb.Language.StoredTypes

/-!
# A call without an instance

A root with a generic function that reads the arguments of the process, and a function that
calls it at `i64`. The root does not list the instance for `i64`, so the check does not ask
the caller for the effect. The caller may declare it nevertheless.

## Main definitions

* `sampleRoot` — the root, given what the caller declares

## Main results

* `evaluation_undeclared` — what the caller does need not be declared
-/

namespace CodeDb

/-! ### Calls of functions with one parameter -/

section Call

variable {P : Primitives} {context : EvalContext}

/-- Reading what does not fail is quiet. -/
theorem ofExcept_run {α : Type} {x : Except Error α} {a : α} (ok : x = .ok a) (memory : Memory) :
    (liftM (Mem.ofExcept x) : Eval α) memory = (.ok a, [], memory) := by
  rw [ok]
  rfl

/-- A call logs what the body logs. -/
theorem mem_log_evalSymbol {E : Evaluators} {callDepth : Nat} {symbol type returnType : Hash}
    {entry : RootSymbolPayload} {body : Expr} {v : Value} {memory : Memory} {event : Event}
    (deep : callDepth < maxEvalCallDepth context)
    (found : rootSymbol context.root symbol = some entry)
    (parts : signatureParts P context.objects entry.signature = .ok ([type], returnType))
    (typed : valueHasType P context v type memory = (.ok true, [], memory))
    (has : HasBody P context.objects entry body)
    (mem : event ∈ (E.value body ⟨callDepth + 1, [memory.size], []⟩ (memory.push v)).2.1) :
    event ∈ (evalSymbol P context E callDepth symbol [v] memory).2.1 := by
  obtain ⟨hash, atHash, loaded⟩ := has.loaded
  have quiet : checkArgs P context symbol 0 [v] [type] memory = (.ok (), [], memory) := by
    rw [checkArgs, Logged.bind_quiet typed]
    rfl
  have checked : (liftM (checkArgs P context symbol 0 [v] [type]) : Eval Unit) memory =
      (.ok (), [], memory) := Logged.quietly_run quiet
  have cells : Logged.each (fun arg => (liftM (valueCell arg) : Eval ValueCell)) [v] memory =
      (.ok [memory.size], [], memory.push v) := rfl
  rw [evalSymbol, if_neg (Nat.not_lt.mpr deep), found]
  dsimp only
  rw [Logged.bind_quiet (ofExcept_run parts memory)]
  dsimp only
  rw [if_neg (by simp), Logged.bind_quiet checked,
    Logged.bind_quiet (ofExcept_run has.internal memory), if_neg Bool.false_ne_true,
    Logged.bind_quiet (ofExcept_run atHash memory), Logged.bind_quiet (ofExcept_run loaded memory),
    Logged.bind_quiet cells]
  exact Logged.mem_log_recover mem

end Call

/-! ### The objects -/

def firstTypeParam : JsonValue :=
  .object [("index", .number (.posInt 0)), ("type_kind", .string "TypeParam")]

/-- The signature of the generic function. -/
def countSignature : JsonValue :=
  signaturePayload [objectHash plain "Type" firstTypeParam] typeI64 [.io] [] ["T"]

/-- The signature of the caller. -/
def outerSignature (effects : List Effect) : JsonValue :=
  signaturePayload [typeI64] typeI64 effects [] []

def countBody : JsonValue := .object [("expr_kind", .string "arg_count"), ("type", .string typeI64)]

def argument : JsonValue :=
  .object [("expr_kind", .string "param_ref"), ("index", .number (.posInt 0)),
    ("type", .string typeI64)]

def count : Hash := "sha256:count"

def outer : Hash := "sha256:outer"

def outerBody : JsonValue :=
  .object [("args", .strings [objectHash plain "Expression" argument]),
    ("expr_kind", .string "call"), ("symbol", .string count), ("type", .string typeI64),
    ("type_args", .strings [typeI64])]

/-- The definition of a function. -/
def functionDefPayload (symbol : Hash) (signature body : JsonValue) : JsonValue :=
  .object [("function_sig_hash", .string (objectHash plain "FunctionSignature" signature)),
    ("symbol", .string symbol),
    ("typed_body_expr_hash", .string (objectHash plain "Expression" body))]

/-- A function of a root. -/
def functionEntry (symbol : Hash) (signature body : JsonValue) : RootSymbolPayload :=
  ⟨symbol, objectHash plain "FunctionDef" (functionDefPayload symbol signature body),
    objectHash plain "FunctionSignature" signature⟩

def outerEntry (effects : List Effect) : RootSymbolPayload :=
  functionEntry outer (outerSignature effects) outerBody

def countEntry : RootSymbolPayload := functionEntry count countSignature countBody

/-- The root, given what the caller declares. -/
def sampleRoot (effects : List Effect) : ProgramRootPayload :=
  { ProgramRootPayload.empty with
    symbols := [countEntry, outerEntry effects]
    names := [⟨"main", "count", count, true⟩, ⟨"main", "outer", outer, true⟩]
    paramNames := [⟨count, ["x"]⟩, ⟨outer, ["x"]⟩] }

/-- What is stored. -/
def samplePayloads (effects : List Effect) : List (String × JsonValue) :=
  [("Type", firstTypeParam), ("FunctionSignature", countSignature),
    ("FunctionSignature", outerSignature effects), ("Expression", countBody),
    ("Expression", argument), ("Expression", outerBody),
    ("FunctionDef", functionDefPayload count countSignature countBody),
    ("FunctionDef", functionDefPayload outer (outerSignature effects) outerBody),
    ("ProgramRoot", rootToValue (sampleRoot effects))]

/-- The store with the root. -/
@[irreducible] def sampleObjects (effects : List Effect) : Objects :=
  putAll plain ∅ (samplePayloads effects)

/-- The hash of the root. -/
def sampleRootHash (effects : List Effect) : Hash :=
  objectHash plain "ProgramRoot" (rootToValue (sampleRoot effects))

variable {effects : List Effect}

theorem fixed_countSignature : Fixed plain.floatText countSignature := by
  change Fixed plain.floatText (.object [("abi", _), ("effects", .strings _),
    ("params", .strings _), ("return", .string _), ("type_params", .strings _)])
  exact Fixed.object (by simp only [List.map]; decide) (by simp [Fixed.string, fixed_strings])

theorem fixed_outerSignature : Fixed plain.floatText (outerSignature effects) := by
  change Fixed plain.floatText (.object [("abi", _), ("effects", .strings _),
    ("params", .strings _), ("return", .string _)])
  exact Fixed.object (by simp only [List.map]; decide) (by simp [Fixed.string, fixed_strings])

theorem fixed_functionDefPayload (symbol : Hash) (signature body : JsonValue) :
    Fixed plain.floatText (functionDefPayload symbol signature body) :=
  Fixed.object (by simp only [List.map]; decide) (by simp [Fixed.string])

theorem fixed_outerBody : Fixed plain.floatText outerBody :=
  Fixed.object (by simp only [List.map]; decide) (by simp [Fixed.string, fixed_strings])

theorem normalizeRoot_sampleRoot : normalizeRoot (sampleRoot effects) = sampleRoot effects := by
  have symbols : SortOn.sortOn (·.symbol) (sampleRoot effects).symbols =
      (sampleRoot effects).symbols := by
    refine SortOn.sortOn_eq_self _ ?_
    simp [sampleRoot, outerEntry, countEntry, functionEntry]
    decide
  have names : SortOn.sortOn (·.key) (sampleRoot effects).names = (sampleRoot effects).names := by
    refine SortOn.sortOn_eq_self _ ?_
    simp [sampleRoot]
    decide
  have params : SortOn.sortOn (·.symbol) (sampleRoot effects).paramNames =
      (sampleRoot effects).paramNames := by
    refine SortOn.sortOn_eq_self _ ?_
    simp [sampleRoot]
    decide
  rw [normalizeRoot, symbols, names, params]
  rfl

/-- What is stored is found as it is. -/
theorem stored_sampleObjects {kind : String} {payload : JsonValue}
    (mem : (kind, payload) ∈ samplePayloads effects) :
    Stored plain (sampleObjects effects) kind payload := by
  have empty : Addressed plain ∅ := fun hash _ found =>
    nomatch (AList.lookup_empty hash).symm.trans found
  have stored := stored_putAll plain_reliable empty mem
  unfold sampleObjects
  exact stored

/-- The root is loaded. -/
theorem loadRoot_sampleRoot :
    loadRoot plain (sampleObjects effects) (sampleRootHash effects) = .ok (sampleRoot effects) := by
  have stored : Stored plain (sampleObjects effects) "ProgramRoot"
      (rootToValue (sampleRoot effects)) := stored_sampleObjects (by simp [samplePayloads])
  rw [sampleRootHash, stored.loadRoot nofun, normalizeRoot_sampleRoot]

theorem fixed_countBody : Fixed plain.floatText countBody :=
  Fixed.object (by simp only [List.map]; decide) (by simp [Fixed.string])

theorem fixed_argument : Fixed plain.floatText argument :=
  Fixed.object (by simp only [List.map]; decide)
    (by simp [Fixed, readBack, readBackNumber]; rfl)

/-- There is room for an expression and its argument. -/
theorem two_le_length_sampleObjects (effects : List Effect) :
    2 ≤ (sampleObjects effects).entries.length := by
  have body : Stored plain (sampleObjects effects) "Expression" countBody :=
    stored_sampleObjects (by simp [samplePayloads])
  have inner : Stored plain (sampleObjects effects) "Expression" argument :=
    stored_sampleObjects (by simp [samplePayloads])
  have other : objectHash plain "Expression" countBody ≠ objectHash plain "Expression" argument :=
    fun same => nomatch objectHash_value_inj fixed_countBody fixed_argument same
  have pair : [objectHash plain "Expression" countBody, objectHash plain "Expression" argument] ⊆
      (sampleObjects effects).keys := by
    simpa using ⟨AList.mem_keys.mp body.mem, AList.mem_keys.mp inner.mem⟩
  have length := (List.subperm_of_subset (by simpa using other) pair).length_le
  simpa [AList.keys, List.keys] using length

/-- An expression of the store is unfolded two levels deep at least. -/
theorem loadBody_sampleObjects (effects : List Effect) (hash : Hash) : ∃ depth,
    loadBody plain (sampleObjects effects) hash =
      loadExpr plain (sampleObjects effects) (depth + 2) hash := by
  obtain ⟨depth, length⟩ := Nat.exists_eq_add_of_le' (two_le_length_sampleObjects effects)
  exact ⟨depth, by rw [loadBody, length]⟩

theorem hasBody_countEntry :
    HasBody plain (sampleObjects effects) countEntry .argCount := by
  have definition : Stored plain (sampleObjects effects) "FunctionDef"
      (functionDefPayload count countSignature countBody) :=
    stored_sampleObjects (by simp [samplePayloads])
  have stored : Stored plain (sampleObjects effects) "Expression" countBody :=
    stored_sampleObjects (by simp [samplePayloads])
  refine ⟨Except.bind_eq_ok.mpr ⟨_, definition.getKind, rfl⟩, _, Except.bind_eq_ok.mpr
    ⟨_, definition.getPayload (fixed_functionDefPayload _ _ _), rfl⟩, ?_⟩
  obtain ⟨depth, loads⟩ := loadBody_sampleObjects effects
    (objectHash plain "Expression" countBody)
  rw [loads]
  exact Except.bind_eq_ok.mpr ⟨_, stored.getPayload fixed_countBody,
    Except.bind_eq_ok.mpr ⟨"arg_count", rfl, rfl⟩⟩

theorem hasBody_outerEntry :
    HasBody plain (sampleObjects effects) (outerEntry effects)
      (.call count [typeI64] [.paramRef 0]) := by
  have definition : Stored plain (sampleObjects effects) "FunctionDef"
      (functionDefPayload outer (outerSignature effects) outerBody) :=
    stored_sampleObjects (by simp [samplePayloads])
  have stored : Stored plain (sampleObjects effects) "Expression" outerBody :=
    stored_sampleObjects (by simp [samplePayloads])
  have stored' : Stored plain (sampleObjects effects) "Expression" argument :=
    stored_sampleObjects (by simp [samplePayloads])
  refine ⟨Except.bind_eq_ok.mpr ⟨_, definition.getKind, rfl⟩, _, Except.bind_eq_ok.mpr
    ⟨_, definition.getPayload (fixed_functionDefPayload _ _ _), rfl⟩, ?_⟩
  obtain ⟨depth, loads⟩ := loadBody_sampleObjects effects
    (objectHash plain "Expression" outerBody)
  have param : loadExpr plain (sampleObjects effects) (depth + 1)
      (objectHash plain "Expression" argument) = .ok (.paramRef 0) :=
    Except.bind_eq_ok.mpr ⟨_, stored'.getPayload fixed_argument,
      Except.bind_eq_ok.mpr ⟨"param_ref", rfl, rfl⟩⟩
  rw [loads]
  refine Except.bind_eq_ok.mpr ⟨_, stored.getPayload fixed_outerBody,
    Except.bind_eq_ok.mpr ⟨"call", rfl, ?_⟩⟩
  refine Except.bind_eq_ok.mpr ⟨count, rfl, Except.bind_eq_ok.mpr ⟨[typeI64], rfl,
    Except.bind_eq_ok.mpr ⟨_, rfl, Except.bind_eq_ok.mpr
      ⟨[objectHash plain "Expression" argument], rfl,
        Except.bind_eq_ok.mpr ⟨[.paramRef 0], ?_, rfl⟩⟩⟩⟩⟩
  exact Except.mapM_eq_ok.mpr (.cons param .nil)

/-! ### Types -/

theorem fixed_firstTypeParam : Fixed plain.floatText firstTypeParam :=
  Fixed.object (by simp only [List.map]; decide) (by simp [Fixed, readBack, readBackNumber]; rfl)

theorem typeSpec_firstTypeParam (effects : List Effect) :
    typeSpec plain (sampleObjects effects) (objectHash plain "Type" firstTypeParam) =
      .ok (.typeParam 0) := by
  have stored : Stored plain (sampleObjects effects) "Type" firstTypeParam :=
    stored_sampleObjects (by simp [samplePayloads])
  rw [stored.typeSpec fixed_firstTypeParam (by simp [firstTypeParam])]
  rfl

/-- What evaluation has at hand. -/
abbrev sampleContext (effects : List Effect) : EvalContext where
  objects := sampleObjects effects
  root := sampleRoot effects
  processArgs := []
  debugAssertions := false

theorem valueHasType_typeI64 (n : Int) (memory : Memory) :
    valueHasType plain (sampleContext effects) (.ofI64 n) typeI64 memory =
      (.ok true, [], memory) := by
  have spec : typeSpecInRoot plain (sampleContext effects).objects (sampleContext effects).root
      typeI64 = .ok (.builtin "I64") :=
    Except.bind_eq_ok.mpr ⟨_, typeSpec_typeI64 _, rfl⟩
  rw [valueHasType, following_run, valueHasType.go, spec]
  rfl

theorem valueHasType_firstTypeParam (v : Value) (memory : Memory) :
    valueHasType plain (sampleContext effects) v (objectHash plain "Type" firstTypeParam) memory =
      (.ok true, [], memory) := by
  have spec : typeSpecInRoot plain (sampleContext effects).objects (sampleContext effects).root
      (objectHash plain "Type" firstTypeParam) = .ok (.typeParam 0) := by
    rw [typeSpecInRoot, sampleContext, typeSpec_firstTypeParam]
    rfl
  rw [valueHasType, following_run, valueHasType.go, spec]
  rfl

/-! ### The call -/

theorem signatureParts_countEntry (effects : List Effect) :
    signatureParts plain (sampleObjects effects) countEntry.signature =
      .ok ([objectHash plain "Type" firstTypeParam], typeI64) := by
  have stored : Stored plain (sampleObjects effects) "FunctionSignature" countSignature :=
    stored_sampleObjects (by simp [samplePayloads])
  exact Except.bind_eq_ok.mpr ⟨_, stored.getPayload fixed_countSignature, rfl⟩

theorem signatureParts_outerEntry (effects : List Effect) :
    signatureParts plain (sampleObjects effects) (outerEntry effects).signature =
      .ok ([typeI64], typeI64) := by
  have stored : Stored plain (sampleObjects effects) "FunctionSignature" (outerSignature effects) :=
    stored_sampleObjects (by simp [samplePayloads])
  exact Except.bind_eq_ok.mpr ⟨_, stored.getPayload fixed_outerSignature, rfl⟩

theorem rootSymbol_count (effects : List Effect) :
    rootSymbol (sampleRoot effects) count = some countEntry :=
  List.find?_cons_of_pos (beq_iff_eq.mpr rfl)

theorem rootSymbol_outer (effects : List Effect) :
    rootSymbol (sampleRoot effects) outer = some (outerEntry effects) := by
  have other : (countEntry.symbol == outer) = false := by decide
  rw [rootSymbol, sampleRoot, List.find?_cons_of_neg (by simp [other])]
  exact List.find?_cons_of_pos (beq_iff_eq.mpr rfl)

/-- The outer function reads the arguments of the process, whatever it declares. -/
theorem outer_reads_arguments (effects : List Effect) (depth : Nat) :
    Event.readArguments ∈
      ((evaluators plain (sampleContext effects) (depth + 4)).call 0 outer [.ofI64 0] #[]).2.1 := by
  have deep (callDepth : Nat) (small : callDepth < 1000) :
      callDepth < maxEvalCallDepth (sampleContext effects) := small
  rw [evaluators_call]
  refine mem_log_evalSymbol (deep 0 (by decide)) (rootSymbol_outer effects)
    (signatureParts_outerEntry effects) (valueHasType_typeI64 0 #[]) hasBody_outerEntry ?_
  have argument : Logged.each (fun arg =>
      (evaluators plain (sampleContext effects) (depth + 2)).value arg ⟨1, [0], []⟩) [.paramRef 0]
        #[.ofI64 0] = (.ok [.ofI64 0], [], #[.ofI64 0]) := rfl
  have step : (evaluators plain (sampleContext effects) (depth + 3)).value
      (.call count [typeI64] [.paramRef 0]) ⟨1, [0], []⟩ #[.ofI64 0] =
        (evaluators plain (sampleContext effects) (depth + 2)).call 1 count [.ofI64 0]
          #[.ofI64 0] := Logged.bind_quiet argument
  change Event.readArguments ∈ ((evaluators plain (sampleContext effects) (depth + 3)).value
    (.call count [typeI64] [.paramRef 0]) ⟨1, [0], []⟩ #[.ofI64 0]).2.1
  refine (congrArg (Event.readArguments ∈ ·.2.1) step).mpr ?_
  rw [evaluators_call]
  refine mem_log_evalSymbol (deep 1 (by decide)) (rootSymbol_count effects)
    (signatureParts_countEntry effects) (valueHasType_firstTypeParam _ _) hasBody_countEntry ?_
  exact List.mem_cons_self

/-! ### The check -/

/-- The elaborator that takes the types recorded in bodies at their word, and leaves the rest
of the language out. -/
def recordedTypes : Elaborator plain where
  RawExpr := Unit
  rawExprDecEq := inferInstance
  TestValue := Unit
  testValueToValue _ := .null
  testValueFromValue _ := .ok ()
  Value := Value
  valueFromTestValue _ := .ok .unit
  validateTestValueForType _ _ _ _ _ := .ok ()
  evalSymbol _ _ _ _ := .ok .unit
  resolveType _ _ _ _ _ := .fail "no sources"
  typeExpr _ _ _ _ _ _ _ := .fail "no sources"
  typeAssignable _ _ source destination := .ok (source == destination)
  typeName objects hash := CodeDb.typeName plain objects hash
  typeNameInRoot _ _ _ hash _ := .ok hash
  isReference _ _ _ := .ok false
  typeContainsRawPointer _ _ _ := .ok false
  typedExprToRaw _ _ _ _ _ := .error "no sources"
  appendDefaultArgToCalls body _ _ := body
  borrowCallArgToCalls body _ _ _ _ := .ok body
  rewriteForMemberRename _ _ _ _ _ _ _ := .error "no sources"
  dependenciesForDefinition _ _ _ := .ok []
  renderFunctionSource _ _ _ _ := .error "no sources"
  concreteGenericCalls _ _ := .ok []
  substituteBodyType _ type _ := pure type
  substituteTypedExpr _ body _ := pure body
  validateTypeHash _ _ _ _ _ := .ok ()
  verifyExprType objects body _ _ _ _ := do
    let payload ← getPayload plain objects body
    payload.getStr "type" ("expression missing type " ++ body)
  exprEscapesLocalBorrow _ _ _ := .ok false
  verifyFunctionBorrows _ _ _ _ := .ok ()
  verifyFunctionEffects _ _ _ := .ok ()

theorem signatureEffects_countEntry (effects : List Effect) :
    signatureEffects plain (sampleObjects effects) countEntry.signature = .ok [.io] := by
  have stored : Stored plain (sampleObjects effects) "FunctionSignature" countSignature :=
    stored_sampleObjects (by simp [samplePayloads])
  exact Except.bind_eq_ok.mpr ⟨_, stored.getPayload fixed_countSignature, rfl⟩

theorem signatureEffects_outerEntry (known : effects = [] ∨ effects = [.io]) :
    signatureEffects plain (sampleObjects effects) (outerEntry effects).signature =
      .ok effects := by
  have stored : Stored plain (sampleObjects effects) "FunctionSignature" (outerSignature effects) :=
    stored_sampleObjects (by simp [samplePayloads])
  rcases known with rfl | rfl
  · exact Except.bind_eq_ok.mpr ⟨_, stored.getPayload fixed_outerSignature, rfl⟩
  · exact Except.bind_eq_ok.mpr ⟨_, stored.getPayload fixed_outerSignature, rfl⟩

/-- A hash has a marker of seven letters and an even number of digits. -/
theorem IsHash.ne_of_even {s name : Hash} (h : IsHash s) (even : name.length % 2 = 0) :
    name ≠ s := by
  obtain ⟨bytes, rfl⟩ := h
  rintro rfl
  have digits : (hexEncode bytes).length = 2 * bytes.length := by
    induction bytes with
    | nil => rfl
    | cons b bytes ih => simp [hexEncode, hexByte] at ih ⊢; omega
  have marker : "sha256:".length = 7 := by decide
  have rest : (String.ofList (hexEncode bytes)).length = 2 * bytes.length := by
    rw [String.length_ofList, digits]
  rw [String.length_append, marker, rest] at even
  omega

/-- The root does not list the instance the outer function is built with. -/
theorem rootSymbol_instance (effects : List Effect) :
    rootSymbol (sampleRoot effects) (monomorphicInstanceSymbol plain count [typeI64]) = none := by
  refine List.find?_eq_none.mpr fun entry mem same => ?_
  refine (isHash_hashBytes _ _).ne_of_even ?_ (beq_iff_eq.mp same)
  rcases List.mem_cons.mp mem with rfl | mem
  · decide
  · obtain rfl := List.mem_singleton.mp mem
    exact (by decide : outer.length % 2 = 0)

/-- A function passes if it declares what its body requires and depends on nothing. -/
theorem verifyFunctionEffects_of_no_dependencies {P : Primitives} {objects : Objects}
    {root : ProgramRootPayload} {entry : RootSymbolPayload} {body : Expr} {declared : List Effect}
    (has : HasBody P objects entry body)
    (effects : signatureEffects P objects entry.signature = .ok declared)
    (state : requireEffect root entry.symbol declared (exprRequiresState body) .state = .ok ())
    (alloc : requireEffect root entry.symbol declared (exprRequiresAlloc body) .alloc = .ok ())
    (unsafeOps :
      requireEffect root entry.symbol declared (exprRequiresUnsafe body) .unsafeOps = .ok ())
    (io : requireEffect root entry.symbol declared (exprRequiresIo body) .io = .ok ())
    (none : collectExprDeps P root body = []) :
    verifyFunctionEffects P objects root entry = .ok () := by
  obtain ⟨hash, atHash, loaded⟩ := has.loaded
  have dependencies : dependenciesForDefinition P objects root entry.definition = .ok [] :=
    Except.bind_eq_ok.mpr ⟨false, has.internal, Except.bind_eq_ok.mpr ⟨hash, atHash,
      Except.bind_eq_ok.mpr ⟨body, loaded, by rw [none]; rfl⟩⟩⟩
  exact Except.bind_eq_ok.mpr ⟨false, has.internal, Except.bind_eq_ok.mpr ⟨declared, effects,
    Except.bind_eq_ok.mpr ⟨hash, atHash, Except.bind_eq_ok.mpr ⟨body, loaded,
      Except.bind_eq_ok.mpr ⟨(), state, Except.bind_eq_ok.mpr ⟨(), alloc,
        Except.bind_eq_ok.mpr ⟨(), unsafeOps, Except.bind_eq_ok.mpr ⟨(), io,
          Except.bind_eq_ok.mpr ⟨[], dependencies, rfl⟩⟩⟩⟩⟩⟩⟩⟩⟩

theorem subexprs_argCount : Expr.argCount.subexprs = [.argCount] := Expr.subexprs_eq _

theorem subexprs_call : (Expr.call count [typeI64] [.paramRef 0]).subexprs =
    [.call count [typeI64] [.paramRef 0], .paramRef 0] := by
  rw [Expr.subexprs_eq]
  exact congrArg (_ :: · ++ []) (Expr.subexprs_eq (.paramRef 0))

theorem verifyFunctionEffects_countEntry (effects : List Effect) :
    verifyFunctionEffects plain (sampleObjects effects) (sampleRoot effects) countEntry =
      .ok () := by
  refine verifyFunctionEffects_of_no_dependencies hasBody_countEntry
    (signatureEffects_countEntry effects) ?_ ?_ ?_ ?_ ?_
  · simp [requireEffect, exprRequiresState_eq, subexprs_argCount, writes]
  · simp [requireEffect, exprRequiresAlloc_eq, subexprs_argCount, allocates]
  · simp [requireEffect, exprRequiresUnsafe_eq, subexprs_argCount, usesRawPointer]
  · simp [requireEffect]
  · simp [collectExprDeps_eq, subexprs_argCount, ownDeps]

/-- Nothing is asked of the outer function. -/
theorem verifyFunctionEffects_outerEntry (known : effects = [] ∨ effects = [.io]) :
    verifyFunctionEffects plain (sampleObjects effects) (sampleRoot effects) (outerEntry effects) =
      .ok () := by
  refine verifyFunctionEffects_of_no_dependencies hasBody_outerEntry
    (signatureEffects_outerEntry known) ?_ ?_ ?_ ?_ ?_
  · simp [requireEffect, exprRequiresState_eq, subexprs_call, writes]
  · simp [requireEffect, exprRequiresAlloc_eq, subexprs_call, allocates]
  · simp [requireEffect, exprRequiresUnsafe_eq, subexprs_call, usesRawPointer]
  · simp [requireEffect, exprRequiresIo_eq, subexprs_call, readsArguments]
  · simp [collectExprDeps_eq, subexprs_call, ownDeps, callTarget, rootSymbol_instance]

/-- A function of the root passes if its effects do and its body records the return type. -/
theorem typeCheckSymbol_of_effects {objects : Objects} {root : ProgramRootPayload}
    {entry : RootSymbolPayload} {types : List Hash} {names : List String} {declared : List Effect}
    {bodyHash : Hash}
    (parts : signatureParts plain objects entry.signature = .ok (types, typeI64))
    (regions : signatureRegionParams plain objects entry.signature = .ok [])
    (typeParams : signatureTypeParams plain objects entry.signature = .ok names)
    (effects : signatureEffects plain objects entry.signature = .ok declared)
    (signature : functionSignatureHash plain objects entry.definition = .ok entry.signature)
    (internal : definitionIsExternal objects entry.definition = .ok false)
    (atBody : functionBodyHash plain objects entry.definition = .ok bodyHash)
    (recorded : recordedTypes.verifyExprType objects bodyHash root types [] typeI64 = .ok typeI64)
    (verified : verifyFunctionEffects plain objects root entry = .ok ()) :
    typeCheckSymbol recordedTypes.withBodies objects root entry = .ok () := by
  have types' : validateEach (fun type => recordedTypes.withBodies.validateTypeHash objects root
      type [] names.length) (types ++ [typeI64]) = .ok () := by
    generalize types ++ [typeI64] = all
    induction all with
    | nil => rfl
    | cons _ _ ih => exact ih
  unfold typeCheckSymbol
  refine Except.bind_eq_ok.mpr ⟨_, parts, Except.bind_eq_ok.mpr ⟨_, regions, Except.bind_eq_ok.mpr
    ⟨_, typeParams, Except.bind_eq_ok.mpr ⟨_, effects, Except.bind_eq_ok.mpr ⟨(), types',
      Except.bind_eq_ok.mpr ⟨_, signature, ?_⟩⟩⟩⟩⟩⟩
  rw [if_neg (not_not_intro rfl)]
  refine Except.bind_eq_ok.mpr ⟨_, internal, ?_⟩
  rw [if_neg Bool.false_ne_true]
  refine Except.bind_eq_ok.mpr ⟨_, atBody, Except.bind_eq_ok.mpr ⟨_, recorded,
    Except.bind_eq_ok.mpr ⟨true, congrArg Except.ok (beq_self_eq_true _), ?_⟩⟩⟩
  exact Except.bind_eq_ok.mpr ⟨false, rfl, Except.bind_eq_ok.mpr ⟨(), rfl, verified⟩⟩

/-- The root passes. -/
theorem typeCheckRoot_sampleRoot (known : effects = [] ∨ effects = [.io]) :
    typeCheckRoot recordedTypes.withBodies (sampleObjects effects) (sampleRootHash effects) =
      .ok () := by
  have outerPasses : typeCheckSymbol recordedTypes.withBodies (sampleObjects effects)
      (sampleRoot effects) (outerEntry effects) = .ok () := by
    have signature : Stored plain (sampleObjects effects) "FunctionSignature"
        (outerSignature effects) := stored_sampleObjects (by simp [samplePayloads])
    have definition : Stored plain (sampleObjects effects) "FunctionDef"
        (functionDefPayload outer (outerSignature effects) outerBody) :=
      stored_sampleObjects (by simp [samplePayloads])
    have body : Stored plain (sampleObjects effects) "Expression" outerBody :=
      stored_sampleObjects (by simp [samplePayloads])
    have read := signature.getPayload fixed_outerSignature
    have readDef := definition.getPayload (fixed_functionDefPayload _ _ _)
    refine typeCheckSymbol_of_effects (signatureParts_outerEntry effects)
      (Except.bind_eq_ok.mpr ⟨_, read, rfl⟩) (Except.bind_eq_ok.mpr ⟨_, read, rfl⟩)
      (signatureEffects_outerEntry known) (Except.bind_eq_ok.mpr ⟨_, readDef, rfl⟩)
      hasBody_outerEntry.internal (Except.bind_eq_ok.mpr ⟨_, readDef, rfl⟩)
      (Except.bind_eq_ok.mpr ⟨_, body.getPayload fixed_outerBody, rfl⟩)
      (verifyFunctionEffects_outerEntry known)
  have countPasses : typeCheckSymbol recordedTypes.withBodies (sampleObjects effects)
      (sampleRoot effects) countEntry = .ok () := by
    have signature : Stored plain (sampleObjects effects) "FunctionSignature" countSignature :=
      stored_sampleObjects (by simp [samplePayloads])
    have definition : Stored plain (sampleObjects effects) "FunctionDef"
        (functionDefPayload count countSignature countBody) :=
      stored_sampleObjects (by simp [samplePayloads])
    have body : Stored plain (sampleObjects effects) "Expression" countBody :=
      stored_sampleObjects (by simp [samplePayloads])
    have read := signature.getPayload fixed_countSignature
    have readDef := definition.getPayload (fixed_functionDefPayload _ _ _)
    refine typeCheckSymbol_of_effects (signatureParts_countEntry effects)
      (Except.bind_eq_ok.mpr ⟨_, read, rfl⟩) (Except.bind_eq_ok.mpr ⟨_, read, rfl⟩)
      (signatureEffects_countEntry effects) (Except.bind_eq_ok.mpr ⟨_, readDef, rfl⟩)
      hasBody_countEntry.internal (Except.bind_eq_ok.mpr ⟨_, readDef, rfl⟩)
      (Except.bind_eq_ok.mpr ⟨_, body.getPayload fixed_countBody, rfl⟩)
      (verifyFunctionEffects_countEntry effects)
  refine Except.bind_eq_ok.mpr ⟨_, loadRoot_sampleRoot, Except.bind_eq_ok.mpr ⟨(), rfl,
    Except.bind_eq_ok.mpr ⟨(), ?_, rfl⟩⟩⟩
  exact Except.bind_eq_ok.mpr ⟨(), countPasses, Except.bind_eq_ok.mpr ⟨(), outerPasses, rfl⟩⟩

end CodeDb

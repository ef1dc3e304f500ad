import CodeDb.Operations.Elaborator
import CodeDb.Language.Types

/-!
# Effects of functions

A function must declare the effects of what its body does itself and of what the functions
it calls declare. The first is told from the kinds of the expressions in the body, by one
walk for each effect. For the second the body is walked for the functions it depends on: a
call of a generic function depends on the instance it is built with, as far as the root
lists one. What each walk finds is what a search through all expressions finds.

## Main definitions

* `exprRequiresState`, `exprRequiresAlloc`, `exprRequiresUnsafe`, `exprRequiresIo`
* `collectExprDeps`, `dependenciesForDefinition` — what a body depends on
* `verifyFunctionEffects` — the check
* `Elaborator.withBodies` — an elaborator that walks bodies this way

## Main results

* `exprRequiresState_eq`, `exprRequiresAlloc_eq`, `exprRequiresUnsafe_eq`,
  `exprRequiresIo_eq`, `collectExprDeps_eq` — every walk is a search
-/

namespace CodeDb

/-! ### What an expression requires -/

/-- Whether an expression writes. -/
def exprRequiresState : Expr → Bool
  | .literalI64 .. | .literalBool _ | .literalUnit | .staticBytes _ | .paramRef _
  | .localRef _ => false
  | .argCount => false
  | .argLen index => exprRequiresState index
  | .argByte index byte => exprRequiresState index || exprRequiresState byte
  | .assign .. => true
  | .call _ _ args => args.attach.any fun arg => exprRequiresState arg.1
  | .binary _ left right => exprRequiresState left || exprRequiresState right
  | .unary _ expr => exprRequiresState expr
  | .borrowShared target | .borrowMut target => exprRequiresState target
  | .sliceFromArray _ target | .sliceLen target => exprRequiresState target
  | .subslice target start len =>
    exprRequiresState target || exprRequiresState start || exprRequiresState len
  | .boxNew value => exprRequiresState value
  | .unbox value => exprRequiresState value
  | .vecNew capacity => exprRequiresState capacity
  | .vecPush .. => true
  | .vecGet target index => exprRequiresState target || exprRequiresState index
  | .vecLen target => exprRequiresState target
  | .stringNew source => exprRequiresState source
  | .stringLen target => exprRequiresState target
  | .stringWithCapacity capacity => exprRequiresState capacity
  | .stringPush .. => true
  | .stringSet .. => true
  | .stringGet target index => exprRequiresState target || exprRequiresState index
  | .rawPtrCast _ value | .intCast _ value => exprRequiresState value
  | .rawLoad pointer => exprRequiresState pointer
  | .rawStore .. => true
  | .letIn value body => exprRequiresState value || exprRequiresState body
  | .ifThenElse cond thenBranch elseBranch =>
    exprRequiresState cond || exprRequiresState thenBranch || exprRequiresState elseBranch
  | .returnWith value => exprRequiresState value
  | .fold target init body =>
    exprRequiresState target || exprRequiresState init || exprRequiresState body
  | .loop init cond body =>
    exprRequiresState init || exprRequiresState cond || exprRequiresState body
  | .recordLiteral fields => fields.attach.any fun field => exprRequiresState field.1.2
  | .arrayLiteral elements => elements.attach.any fun element => exprRequiresState element.1
  | .arrayFill value _ => exprRequiresState value
  | .arraySet array index value =>
    exprRequiresState array || exprRequiresState index || exprRequiresState value
  | .arrayIndex target index => exprRequiresState target || exprRequiresState index
  | .fieldAccess target _ => exprRequiresState target
  | .enumConstruct _ value => exprRequiresState value
  | .caseOf expr arms => exprRequiresState expr || arms.attach.any fun
    | ⟨(_, some guard, body), _⟩ => exprRequiresState guard || exprRequiresState body
    | ⟨(_, none, body), _⟩ => exprRequiresState body
termination_by e => sizeOf e
decreasing_by
  all_goals first
    | exact Expr.sizeOf_child (Subtype.property _)
    | exact Expr.sizeOf_child (List.mem_map_of_mem (Subtype.property _))
    | exact Expr.sizeOf_child (Expr.guard_mem_children ‹_›)
    | exact Expr.sizeOf_child (Expr.body_mem_children ‹_›)
    | exact Expr.sizeOf_child (by simp [Expr.children])

/-- Whether an expression allocates or frees. -/
def exprRequiresAlloc : Expr → Bool
  | .literalI64 .. | .literalBool _ | .literalUnit | .staticBytes _ | .paramRef _
  | .localRef _ => false
  | .argCount => false
  | .argLen index => exprRequiresAlloc index
  | .argByte index byte => exprRequiresAlloc index || exprRequiresAlloc byte
  | .boxNew _ | .unbox _ | .vecNew _ | .stringNew _ | .stringWithCapacity _ => true
  | .assign target value => exprRequiresAlloc target || exprRequiresAlloc value
  | .call _ _ args => args.attach.any fun arg => exprRequiresAlloc arg.1
  | .binary _ left right => exprRequiresAlloc left || exprRequiresAlloc right
  | .unary _ expr => exprRequiresAlloc expr
  | .borrowShared target | .borrowMut target | .sliceFromArray _ target | .sliceLen target =>
    exprRequiresAlloc target
  | .rawPtrCast _ value | .intCast _ value => exprRequiresAlloc value
  | .rawLoad pointer => exprRequiresAlloc pointer
  | .rawStore pointer value => exprRequiresAlloc pointer || exprRequiresAlloc value
  | .subslice target start len =>
    exprRequiresAlloc target || exprRequiresAlloc start || exprRequiresAlloc len
  | .vecPush target value => exprRequiresAlloc target || exprRequiresAlloc value
  | .vecGet target index => exprRequiresAlloc target || exprRequiresAlloc index
  | .vecLen target => exprRequiresAlloc target
  | .stringLen target => exprRequiresAlloc target
  | .stringPush target value => exprRequiresAlloc target || exprRequiresAlloc value
  | .stringGet target index => exprRequiresAlloc target || exprRequiresAlloc index
  | .stringSet target index value =>
    exprRequiresAlloc target || exprRequiresAlloc index || exprRequiresAlloc value
  | .letIn value body => exprRequiresAlloc value || exprRequiresAlloc body
  | .ifThenElse cond thenBranch elseBranch =>
    exprRequiresAlloc cond || exprRequiresAlloc thenBranch || exprRequiresAlloc elseBranch
  | .returnWith value => exprRequiresAlloc value
  | .fold target init body =>
    exprRequiresAlloc target || exprRequiresAlloc init || exprRequiresAlloc body
  | .loop init cond body =>
    exprRequiresAlloc init || exprRequiresAlloc cond || exprRequiresAlloc body
  | .recordLiteral fields => fields.attach.any fun field => exprRequiresAlloc field.1.2
  | .arrayLiteral elements => elements.attach.any fun element => exprRequiresAlloc element.1
  | .arrayFill value _ => exprRequiresAlloc value
  | .arraySet array index value =>
    exprRequiresAlloc array || exprRequiresAlloc index || exprRequiresAlloc value
  | .arrayIndex target index => exprRequiresAlloc target || exprRequiresAlloc index
  | .fieldAccess target _ => exprRequiresAlloc target
  | .enumConstruct _ value => exprRequiresAlloc value
  | .caseOf expr arms => exprRequiresAlloc expr || arms.attach.any fun
    | ⟨(_, some guard, body), _⟩ => exprRequiresAlloc guard || exprRequiresAlloc body
    | ⟨(_, none, body), _⟩ => exprRequiresAlloc body
termination_by e => sizeOf e
decreasing_by
  all_goals first
    | exact Expr.sizeOf_child (Subtype.property _)
    | exact Expr.sizeOf_child (List.mem_map_of_mem (Subtype.property _))
    | exact Expr.sizeOf_child (Expr.guard_mem_children ‹_›)
    | exact Expr.sizeOf_child (Expr.body_mem_children ‹_›)
    | exact Expr.sizeOf_child (by simp [Expr.children])

/-- Whether an expression works on raw pointers. -/
def exprRequiresUnsafe : Expr → Bool
  | .literalI64 .. | .literalBool _ | .literalUnit | .staticBytes _ | .paramRef _
  | .localRef _ => false
  | .argCount => false
  | .argLen index => exprRequiresUnsafe index
  | .argByte index byte => exprRequiresUnsafe index || exprRequiresUnsafe byte
  | .rawPtrCast .. | .rawLoad _ | .rawStore .. => true
  | .assign target value => exprRequiresUnsafe target || exprRequiresUnsafe value
  | .call _ _ args => args.attach.any fun arg => exprRequiresUnsafe arg.1
  | .binary _ left right => exprRequiresUnsafe left || exprRequiresUnsafe right
  | .unary _ expr => exprRequiresUnsafe expr
  | .borrowShared target | .borrowMut target | .sliceFromArray _ target | .sliceLen target =>
    exprRequiresUnsafe target
  | .subslice target start len =>
    exprRequiresUnsafe target || exprRequiresUnsafe start || exprRequiresUnsafe len
  | .boxNew value => exprRequiresUnsafe value
  | .unbox value => exprRequiresUnsafe value
  | .intCast _ value => exprRequiresUnsafe value
  | .vecNew capacity => exprRequiresUnsafe capacity
  | .vecPush target value => exprRequiresUnsafe target || exprRequiresUnsafe value
  | .vecGet target index => exprRequiresUnsafe target || exprRequiresUnsafe index
  | .vecLen target => exprRequiresUnsafe target
  | .stringNew source => exprRequiresUnsafe source
  | .stringLen target => exprRequiresUnsafe target
  | .stringWithCapacity capacity => exprRequiresUnsafe capacity
  | .stringPush target value => exprRequiresUnsafe target || exprRequiresUnsafe value
  | .stringGet target index => exprRequiresUnsafe target || exprRequiresUnsafe index
  | .stringSet target index value =>
    exprRequiresUnsafe target || exprRequiresUnsafe index || exprRequiresUnsafe value
  | .letIn value body => exprRequiresUnsafe value || exprRequiresUnsafe body
  | .ifThenElse cond thenBranch elseBranch =>
    exprRequiresUnsafe cond || exprRequiresUnsafe thenBranch || exprRequiresUnsafe elseBranch
  | .returnWith value => exprRequiresUnsafe value
  | .fold target init body =>
    exprRequiresUnsafe target || exprRequiresUnsafe init || exprRequiresUnsafe body
  | .loop init cond body =>
    exprRequiresUnsafe init || exprRequiresUnsafe cond || exprRequiresUnsafe body
  | .recordLiteral fields => fields.attach.any fun field => exprRequiresUnsafe field.1.2
  | .arrayLiteral elements => elements.attach.any fun element => exprRequiresUnsafe element.1
  | .arrayFill value _ => exprRequiresUnsafe value
  | .arraySet array index value =>
    exprRequiresUnsafe array || exprRequiresUnsafe index || exprRequiresUnsafe value
  | .arrayIndex target index => exprRequiresUnsafe target || exprRequiresUnsafe index
  | .fieldAccess target _ => exprRequiresUnsafe target
  | .enumConstruct _ value => exprRequiresUnsafe value
  | .caseOf expr arms => exprRequiresUnsafe expr || arms.attach.any fun
    | ⟨(_, some guard, body), _⟩ => exprRequiresUnsafe guard || exprRequiresUnsafe body
    | ⟨(_, none, body), _⟩ => exprRequiresUnsafe body
termination_by e => sizeOf e
decreasing_by
  all_goals first
    | exact Expr.sizeOf_child (Subtype.property _)
    | exact Expr.sizeOf_child (List.mem_map_of_mem (Subtype.property _))
    | exact Expr.sizeOf_child (Expr.guard_mem_children ‹_›)
    | exact Expr.sizeOf_child (Expr.body_mem_children ‹_›)
    | exact Expr.sizeOf_child (by simp [Expr.children])

/-- The kinds that read the arguments of the process. -/
def readsArguments : Expr → Bool
  | .argCount | .argLen _ | .argByte .. => true
  | _ => false

/-- Whether an expression reads the arguments of the process. This walk goes by the table of
children. -/
def exprRequiresIo (e : Expr) : Bool :=
  readsArguments e || e.children.attach.any fun child => exprRequiresIo child.1
termination_by sizeOf e
decreasing_by exact Expr.sizeOf_child child.2

/-! The walks go through every kind on their own. Each of them is a search for some kinds of
expressions. -/

/-- The kinds that write. -/
def writes : Expr → Bool
  | .assign .. | .vecPush .. | .stringPush .. | .stringSet .. | .rawStore .. => true
  | _ => false

/-- The kinds that allocate or free. -/
def allocates : Expr → Bool
  | .boxNew _ | .unbox _ | .vecNew _ | .stringNew _ | .stringWithCapacity _ => true
  | _ => false

/-- The kinds that work on raw pointers. -/
def usesRawPointer : Expr → Bool
  | .rawPtrCast .. | .rawLoad _ | .rawStore .. => true
  | _ => false

theorem any_attach {α : Type} {l : List α} {f : {a // a ∈ l} → Bool} {g : α → Bool}
    (same : ∀ a, f a = g a.1) : l.attach.any f = l.any g := by
  rw [List.any_subtype (g := g) fun a mem => same ⟨a, mem⟩, List.unattach_attach]

/-- A walk that looks at an expression and goes on to its children is a search. -/
theorem any_subexprs_of_step {f own : Expr → Bool}
    (step : ∀ e, f e = (own e || e.children.any f)) (e : Expr) : f e = e.subexprs.any own := by
  induction e using Expr.inductionOnChildren with
  | step e ih =>
    rw [step, Expr.subexprs_eq, List.any_cons, List.any_flatMap, Bool.eq_iff_iff]
    simp only [Bool.or_eq_true, List.any_eq_true]
    refine or_congr_right (exists_congr fun child => and_congr_right fun mem => ?_)
    rw [ih child mem, List.any_eq_true]

/-- How the three walks go through the fields of a record and the arms of a case. -/
theorem any_fields {f : Expr → Bool} {fields : List (String × Expr)} :
    (fields.attach.any fun field => f field.1.2) = (fields.map (·.2)).any f := by
  rw [List.any_map]
  exact any_attach fun _ => rfl

theorem any_arms {f : Expr → Bool} {arms : List (CasePattern × Option Expr × Expr)} :
    (arms.attach.any fun
      | ⟨(_, some guard, body), _⟩ => f guard || f body
      | ⟨(_, none, body), _⟩ => f body) =
    (arms.flatMap fun arm => arm.2.1.toList ++ [arm.2.2]).any f := by
  rw [List.any_flatMap]
  refine any_attach fun arm => ?_
  obtain ⟨⟨pattern, guard | guard, body⟩, mem⟩ := arm <;> simp

theorem exprRequiresState_eq (e : Expr) : exprRequiresState e = e.subexprs.any writes := by
  refine any_subexprs_of_step (fun e => ?_) e
  cases e with
  | recordLiteral => rw [exprRequiresState, any_fields]; rfl
  | caseOf => rw [exprRequiresState, any_arms]; rfl
  | _ => simp [exprRequiresState, writes, Expr.children, Bool.or_assoc]

theorem exprRequiresAlloc_eq (e : Expr) : exprRequiresAlloc e = e.subexprs.any allocates := by
  refine any_subexprs_of_step (fun e => ?_) e
  cases e with
  | recordLiteral => rw [exprRequiresAlloc, any_fields]; rfl
  | caseOf => rw [exprRequiresAlloc, any_arms]; rfl
  | _ => simp [exprRequiresAlloc, allocates, Expr.children, Bool.or_assoc]

theorem exprRequiresUnsafe_eq (e : Expr) :
    exprRequiresUnsafe e = e.subexprs.any usesRawPointer := by
  refine any_subexprs_of_step (fun e => ?_) e
  cases e with
  | recordLiteral => rw [exprRequiresUnsafe, any_fields]; rfl
  | caseOf => rw [exprRequiresUnsafe, any_arms]; rfl
  | _ => simp [exprRequiresUnsafe, usesRawPointer, Expr.children, Bool.or_assoc]

theorem exprRequiresIo_eq (e : Expr) : exprRequiresIo e = e.subexprs.any readsArguments := by
  refine any_subexprs_of_step (fun e => ?_) e
  rw [exprRequiresIo, any_attach fun _ => rfl]

/-! ### What a body depends on -/

section Bodies

variable (P : Primitives) (objects : Objects)

/-- The function a call is built with: a generic one at its type arguments. -/
def callTarget (symbol : Hash) (typeArgs : List Hash) : Hash :=
  if typeArgs.isEmpty then symbol else monomorphicInstanceSymbol P symbol typeArgs

/-- The functions of a root that an expression depends on. -/
def collectExprDeps (root : ProgramRootPayload) : Expr → List Hash
  | .literalI64 .. | .literalBool _ | .literalUnit | .staticBytes _ | .paramRef _
  | .localRef _ => []
  | .call symbol typeArgs args =>
    let target := callTarget P symbol typeArgs
    (if (rootSymbol root target).isSome then [target] else []) ++
      args.attach.flatMap fun arg => collectExprDeps root arg.1
  | .binary _ left right => collectExprDeps root left ++ collectExprDeps root right
  | .unary _ expr => collectExprDeps root expr
  | .intCast _ value => collectExprDeps root value
  | .borrowShared target | .borrowMut target => collectExprDeps root target
  | .sliceFromArray _ target | .sliceLen target => collectExprDeps root target
  | .subslice target start len =>
    collectExprDeps root target ++ collectExprDeps root start ++ collectExprDeps root len
  | .boxNew value => collectExprDeps root value
  | .unbox value => collectExprDeps root value
  | .vecNew capacity => collectExprDeps root capacity
  | .vecPush target value => collectExprDeps root target ++ collectExprDeps root value
  | .vecGet target index => collectExprDeps root target ++ collectExprDeps root index
  | .vecLen target => collectExprDeps root target
  | .stringNew source => collectExprDeps root source
  | .stringLen target => collectExprDeps root target
  | .argCount => []
  | .argLen index => collectExprDeps root index
  | .argByte index byte => collectExprDeps root index ++ collectExprDeps root byte
  | .stringWithCapacity capacity => collectExprDeps root capacity
  | .stringPush target value => collectExprDeps root target ++ collectExprDeps root value
  | .stringGet target index => collectExprDeps root target ++ collectExprDeps root index
  | .stringSet target index value =>
    collectExprDeps root target ++ collectExprDeps root index ++ collectExprDeps root value
  | .rawPtrCast _ value => collectExprDeps root value
  | .rawLoad pointer => collectExprDeps root pointer
  | .rawStore pointer value => collectExprDeps root pointer ++ collectExprDeps root value
  | .assign target value => collectExprDeps root target ++ collectExprDeps root value
  | .letIn value body => collectExprDeps root value ++ collectExprDeps root body
  | .ifThenElse cond thenBranch elseBranch =>
    collectExprDeps root cond ++ collectExprDeps root thenBranch ++ collectExprDeps root elseBranch
  | .returnWith value => collectExprDeps root value
  | .fold target init body =>
    collectExprDeps root target ++ collectExprDeps root init ++ collectExprDeps root body
  | .loop init cond body =>
    collectExprDeps root init ++ collectExprDeps root cond ++ collectExprDeps root body
  | .recordLiteral fields => fields.attach.flatMap fun field => collectExprDeps root field.1.2
  | .arrayLiteral elements => elements.attach.flatMap fun element => collectExprDeps root element.1
  | .arrayFill value _ => collectExprDeps root value
  | .arraySet array index value =>
    collectExprDeps root array ++ collectExprDeps root index ++ collectExprDeps root value
  | .arrayIndex target index => collectExprDeps root target ++ collectExprDeps root index
  | .fieldAccess target _ => collectExprDeps root target
  | .enumConstruct _ value => collectExprDeps root value
  | .caseOf expr arms => collectExprDeps root expr ++ arms.attach.flatMap fun
    | ⟨(_, some guard, body), _⟩ => collectExprDeps root guard ++ collectExprDeps root body
    | ⟨(_, none, body), _⟩ => collectExprDeps root body
termination_by e => sizeOf e
decreasing_by
  all_goals first
    | exact Expr.sizeOf_child (Subtype.property _)
    | exact Expr.sizeOf_child (List.mem_map_of_mem (Subtype.property _))
    | exact Expr.sizeOf_child (Expr.guard_mem_children ‹_›)
    | exact Expr.sizeOf_child (Expr.body_mem_children ‹_›)
    | exact Expr.sizeOf_child (by simp [Expr.children])

/-- What an expression itself depends on. -/
def ownDeps (root : ProgramRootPayload) : Expr → List Hash
  | .call symbol typeArgs _ =>
    let target := callTarget P symbol typeArgs
    if (rootSymbol root target).isSome then [target] else []
  | _ => []

theorem flatMap_attach {α β : Type} {l : List α} {f : {a // a ∈ l} → List β} {g : α → List β}
    (same : ∀ a, f a = g a.1) : l.attach.flatMap f = l.flatMap g := by
  rw [List.flatMap_subtype (g := g) fun a mem => same ⟨a, mem⟩, List.unattach_attach]

/-- It depends on what the expressions in it depend on. -/
theorem collectExprDeps_eq (root : ProgramRootPayload) (e : Expr) :
    collectExprDeps P root e = e.subexprs.flatMap (ownDeps P root) := by
  induction e using Expr.inductionOnChildren with
  | step e ih =>
    -- the walk goes to the children of every kind, in their order
    have below : e.children.flatMap (collectExprDeps P root) =
        e.children.flatMap fun child => child.subexprs.flatMap (ownDeps P root) :=
      List.flatMap_congr ih
    have step : collectExprDeps P root e =
        ownDeps P root e ++ e.children.flatMap (collectExprDeps P root) := by
      cases e with
      | call =>
        rw [collectExprDeps, flatMap_attach fun _ => rfl]
        rfl
      | arrayLiteral =>
        rw [collectExprDeps, flatMap_attach fun _ => rfl]
        rfl
      | recordLiteral fields =>
        rw [collectExprDeps, Expr.children, List.flatMap_map]
        exact flatMap_attach fun _ => rfl
      | caseOf expr arms =>
        rw [collectExprDeps, Expr.children, List.flatMap_cons, List.flatMap_assoc]
        refine congrArg (_ ++ ·) (flatMap_attach fun arm => ?_)
        obtain ⟨⟨pattern, guard | guard, body⟩, mem⟩ := arm <;> simp
      | _ => simp [collectExprDeps, ownDeps, Expr.children]
    rw [step, below, Expr.subexprs_eq, List.flatMap_cons, List.flatMap_assoc]

/-- The functions of a root that a definition depends on. -/
def dependenciesForDefinition (root : ProgramRootPayload) (definition : Hash) :
    Except Error (List Hash) := do
  let external ← definitionIsExternal objects definition
  if external then return []
  else do
    let hash ← functionBodyHash P objects definition
    let body ← loadBody P objects hash
    return SortOn.sortedSet (collectExprDeps P root body)

/-- A generic function at concrete types, if an expression calls one. -/
def ownGenericCall : Expr → List (Hash × List Hash)
  | .call symbol typeArgs _ =>
    let isConcrete (type : Hash) : Bool :=
      match typeIsConcrete P objects (typeDepth objects) type with
      | .ok isConcrete => isConcrete
      | .error _ => false
    if !typeArgs.isEmpty && typeArgs.all isConcrete then [(symbol, typeArgs)] else []
  | _ => []

/-- The calls of generic functions at concrete types in a body. -/
def collectConcreteGenericCalls (hash : Hash) : Except Error (List (Hash × List Hash)) := do
  let body ← loadBody P objects hash
  return body.subexprs.flatMap (ownGenericCall P objects)

/-! ### The check -/

/-- An effect is declared if it is required. -/
def requireEffect (root : ProgramRootPayload) (symbol : Hash) (declared : List Effect)
    (required : Bool) (effect : Effect) : Except Error Unit :=
  if required && !declared.contains effect then do
    let shown ← symbolDisplay root symbol
    .error ("bad_effects: function " ++ shown ++ " requires undeclared effect " ++ effect.asStr)
  else .ok ()

/-- What a function of the root declares is declared. -/
def requireCallee (root : ProgramRootPayload) (symbol : Hash) (declared : List Effect)
    (dependency : Hash) : Except Error Unit :=
  match rootSymbol root dependency with
  | none => .ok ()
  | some callee => do
    let effects ← signatureEffects P objects callee.signature
    validateEach (fun effect =>
      if declared.contains effect then .ok ()
      else do
        let caller ← symbolDisplay root symbol
        let shown ← symbolDisplay root dependency
        .error ("bad_effects: function " ++ caller ++ " calls " ++ shown ++
          " with undeclared effect " ++ effect.asStr)) effects

/-- A function declares the effects of its body. An external one has none. -/
def verifyFunctionEffects (root : ProgramRootPayload) (entry : RootSymbolPayload) :
    Except Error Unit := do
  let external ← definitionIsExternal objects entry.definition
  if external then return ()
  else do
    let declared ← signatureEffects P objects entry.signature
    let hash ← functionBodyHash P objects entry.definition
    let body ← loadBody P objects hash
    requireEffect root entry.symbol declared (exprRequiresState body) .state
    requireEffect root entry.symbol declared (exprRequiresAlloc body) .alloc
    requireEffect root entry.symbol declared (exprRequiresUnsafe body) .unsafeOps
    requireEffect root entry.symbol declared (exprRequiresIo body) .io
    let dependencies ← dependenciesForDefinition P objects root entry.definition
    validateEach (requireCallee P objects root entry.symbol declared) dependencies

end Bodies

/-- An elaborator that walks bodies this way. -/
def Elaborator.withBodies {P : Primitives} (El : Elaborator P) : Elaborator P :=
  { El with
    dependenciesForDefinition := CodeDb.dependenciesForDefinition P
    concreteGenericCalls := collectConcreteGenericCalls P
    verifyFunctionEffects := CodeDb.verifyFunctionEffects P }

end CodeDb

import CodeDb.Language.UnlistedInstance
import CodeDb.Invariants.WellFormed
import Mathlib.Logic.Relation

/-!
# Declared effects

Whatever a function does when it is evaluated, directly or through the functions it calls,
it declares, if its root passes the check and it is as if each call of a generic function
had been checked like any other.

The check looks at the instance a call of a generic function is built with, and says nothing
about the call when the root does not list that instance. Then the function that runs can do
what its caller does not declare.

## Main definitions

* `Calls` — a function of a root calls another
* `GenericCallsDeclared` — a function declares what the generic functions declare it calls

## Main results

* `evaluation_declared` — what the functions of a checked root do is declared
* `evaluation_undeclared` — without an instance it need not be
-/

namespace CodeDb

/-! ### The check -/

section Check

variable {P : Primitives} {objects : Objects} {root : ProgramRootPayload}
  {entry : RootSymbolPayload} {body : Expr}

theorem requireEffect_ok {symbol : Hash} {declared : List Effect} {required : Bool}
    {effect : Effect} (run : requireEffect root symbol declared required effect = .ok ())
    (requires : required = true) : effect ∈ declared := by
  by_contra missing
  rw [requireEffect, if_pos (by simp [requires, missing])] at run
  obtain ⟨_, -, run⟩ := Except.bind_eq_ok.mp run
  cases run

theorem requireCallee_ok {symbol dependency signature : Hash} {declared : List Effect}
    (effects : signatureEffects P objects signature = .ok declared)
    (run : requireCallee P objects root symbol declared dependency = .ok ()) :
    DeclaresCallee P objects root signature dependency := by
  rintro callee found effect ⟨calleeEffects, atCallee, mem⟩
  rw [requireCallee, found] at run
  obtain ⟨_, atCallee', run⟩ := Except.bind_eq_ok.mp run
  obtain rfl := Except.ok.inj (atCallee.symm.trans atCallee')
  have checked := validateEach_ok run effect mem
  by_contra missing
  have absent : ¬ declared.contains effect := fun contains =>
    missing ⟨declared, effects, List.contains_iff_mem.mp contains⟩
  rw [if_neg absent] at checked
  obtain ⟨_, -, checked⟩ := Except.bind_eq_ok.mp checked
  obtain ⟨_, -, checked⟩ := Except.bind_eq_ok.mp checked
  cases checked

/-- What the check of a function ensures: the effects of the expressions in its body are
declared, and those of the functions it depends on. -/
theorem verifyFunctionEffects_ok (run : verifyFunctionEffects P objects root entry = .ok ())
    (has : HasBody P objects entry body) :
    (∀ sub ∈ body.subexprs,
      (writes sub = true → Declares P objects entry.signature .state) ∧
      (allocates sub = true → Declares P objects entry.signature .alloc) ∧
      (usesRawPointer sub = true → Declares P objects entry.signature .unsafeOps) ∧
      (readsArguments sub = true → Declares P objects entry.signature .io)) ∧
    ∀ sub ∈ body.subexprs, ∀ dependency ∈ ownDeps P root sub,
      DeclaresCallee P objects root entry.signature dependency := by
  obtain ⟨hash, atHash, loaded⟩ := has.loaded
  obtain ⟨_, atKind, run⟩ := Except.bind_eq_ok.mp run
  obtain rfl := Except.ok.inj (has.internal.symm.trans atKind)
  rw [if_neg Bool.false_ne_true] at run
  obtain ⟨declared, effects, run⟩ := Except.bind_eq_ok.mp run
  obtain ⟨_, atHash', run⟩ := Except.bind_eq_ok.mp run
  obtain rfl := Except.ok.inj (atHash.symm.trans atHash')
  obtain ⟨_, loaded', run⟩ := Except.bind_eq_ok.mp run
  obtain rfl := Except.ok.inj (loaded.symm.trans loaded')
  obtain ⟨_, state, run⟩ := Except.bind_eq_ok.mp run
  obtain ⟨_, alloc, run⟩ := Except.bind_eq_ok.mp run
  obtain ⟨_, unsafeOps, run⟩ := Except.bind_eq_ok.mp run
  obtain ⟨_, io, run⟩ := Except.bind_eq_ok.mp run
  obtain ⟨dependencies, atDependencies, run⟩ := Except.bind_eq_ok.mp run
  -- one argument for the four effects that expressions can have of themselves
  have declares : ∀ {own : Expr → Bool} {effect : Effect},
      requireEffect root entry.symbol declared (body.subexprs.any own) effect = .ok () →
      ∀ sub ∈ body.subexprs, own sub = true → Declares P objects entry.signature effect :=
    fun checked sub mem required =>
      ⟨declared, effects, requireEffect_ok checked (List.any_eq_true.mpr ⟨sub, mem, required⟩)⟩
  rw [exprRequiresState_eq] at state
  rw [exprRequiresAlloc_eq] at alloc
  rw [exprRequiresUnsafe_eq] at unsafeOps
  rw [exprRequiresIo_eq] at io
  refine ⟨fun sub mem => ⟨declares state sub mem, declares alloc sub mem,
    declares unsafeOps sub mem, declares io sub mem⟩, fun sub mem dependency own => ?_⟩
  have same : dependenciesForDefinition P objects root entry.definition =
      .ok (SortOn.sortedSet (collectExprDeps P root body)) :=
    Except.bind_eq_ok.mpr ⟨false, has.internal, Except.bind_eq_ok.mpr ⟨hash, atHash,
      Except.bind_eq_ok.mpr ⟨body, loaded, rfl⟩⟩⟩
  obtain rfl := Except.ok.inj (same.symm.trans atDependencies)
  have listed : dependency ∈ collectExprDeps P root body := by
    rw [collectExprDeps_eq]
    exact List.mem_flatMap.mpr ⟨sub, mem, own⟩
  exact requireCallee_ok effects
    (validateEach_ok run dependency (SortOn.mem_sortedSet.mpr listed))

theorem typeCheckSymbol_effects {El : Elaborator P}
    (run : typeCheckSymbol El objects root entry = .ok ())
    (internal : definitionIsExternal objects entry.definition = .ok false) :
    El.verifyFunctionEffects objects root entry = .ok () := by
  obtain ⟨⟨paramTypes, returnType⟩, -, run⟩ := Except.bind_eq_ok.mp run
  obtain ⟨_, -, run⟩ := Except.bind_eq_ok.mp run
  obtain ⟨_, -, run⟩ := Except.bind_eq_ok.mp run
  obtain ⟨_, -, run⟩ := Except.bind_eq_ok.mp run
  obtain ⟨_, -, run⟩ := Except.bind_eq_ok.mp run
  obtain ⟨_, -, run⟩ := Except.bind_eq_ok.mp run
  split_ifs at run
  obtain ⟨_, atKind, run⟩ := Except.bind_eq_ok.mp run
  obtain rfl := Except.ok.inj (internal.symm.trans atKind)
  rw [if_neg Bool.false_ne_true] at run
  obtain ⟨_, -, run⟩ := Except.bind_eq_ok.mp run
  obtain ⟨_, -, run⟩ := Except.bind_eq_ok.mp run
  obtain ⟨_, -, run⟩ := Except.bind_eq_ok.mp run
  split_ifs at run
  · obtain ⟨_, -, run⟩ := Except.bind_eq_ok.mp run
    obtain ⟨_, -, run⟩ := Except.bind_eq_ok.mp run
    obtain ⟨_, -, run⟩ := Except.bind_eq_ok.mp run
    cases run
  · obtain ⟨escapes, -, run⟩ := Except.bind_eq_ok.mp run
    split_ifs at run
    · obtain ⟨_, -, run⟩ := Except.bind_eq_ok.mp run
      cases run
    · obtain ⟨_, -, run⟩ := Except.bind_eq_ok.mp run
      exact run

/-- In a checked root the effects of every function that has a body are checked. -/
theorem typeCheckRoot_effects {El : Elaborator P} {rootHash : Hash}
    (loaded : loadRoot P objects rootHash = .ok root)
    (accepted : typeCheckRoot El objects rootHash = .ok ()) (mem : entry ∈ root.symbols)
    (internal : definitionIsExternal objects entry.definition = .ok false) :
    El.verifyFunctionEffects objects root entry = .ok () := by
  obtain ⟨_, loaded', run⟩ := Except.bind_eq_ok.mp accepted
  obtain rfl := Except.ok.inj (loaded.symm.trans loaded')
  obtain ⟨_, -, run⟩ := Except.bind_eq_ok.mp run
  obtain ⟨_, symbols, -⟩ := Except.bind_eq_ok.mp run
  exact typeCheckSymbol_effects (validateEach_ok symbols entry mem) internal

end Check

/-! ### Functions of a checked root -/

section Root

variable (P : Primitives) (objects : Objects) (root : ProgramRootPayload)

/-- A function of a root calls a symbol. -/
def Calls (caller callee : Hash) : Prop :=
  ∃ entry body typeArgs args, rootSymbol root caller = some entry ∧ HasBody P objects entry body ∧
    .call callee typeArgs args ∈ body.subexprs

/-- A function of a root declares all that the generic functions declare which it calls. -/
def GenericCallsDeclared (caller : Hash) : Prop :=
  ∀ entry body callee typeArgs args, rootSymbol root caller = some entry →
    HasBody P objects entry body → .call callee typeArgs args ∈ body.subexprs → typeArgs ≠ [] →
      DeclaresCallee P objects root entry.signature callee

/-- A root lists the instances of the generic functions a function calls, and they declare
all that the generic functions declare. -/
def InstancesListed (caller : Hash) : Prop :=
  ∀ entry body callee typeArgs args, rootSymbol root caller = some entry →
    HasBody P objects entry body → .call callee typeArgs args ∈ body.subexprs → typeArgs ≠ [] →
      ∃ listed, rootSymbol root (monomorphicInstanceSymbol P callee typeArgs) = some listed ∧
        DeclaresCallee P objects root listed.signature callee

end Root

section Root

variable {P : Primitives} {context : EvalContext} {El : Elaborator P} {rootHash symbol : Hash}
  {entry : RootSymbolPayload} {body : Expr}

/-- In a checked root a function depends on what it calls, so it declares what the instances
it is built with declare. -/
theorem GenericCallsDeclared.of_listed
    (loaded : loadRoot P context.objects rootHash = .ok context.root)
    (accepted : typeCheckRoot El.withBodies context.objects rootHash = .ok ())
    (listed : InstancesListed P context.objects context.root symbol) :
    GenericCallsDeclared P context.objects context.root symbol := by
  intro entry body callee typeArgs args found has call generic template atTemplate effect declared
  obtain ⟨inst, atInstance, all⟩ := listed entry body callee typeArgs args found has call generic
  have checked := typeCheckRoot_effects loaded accepted (rootSymbol_some found).1 has.internal
  refine (verifyFunctionEffects_ok checked has).2 _ call _ ?_ inst atInstance effect
    (all template atTemplate effect declared)
  simp [ownDeps, callTarget, generic, atInstance]

/-- In a checked root a function declares what its body takes, if it declares what the
generic functions declare which it calls. -/
theorem effectsDeclared_of_checked
    (loaded : loadRoot P context.objects rootHash = .ok context.root)
    (accepted : typeCheckRoot El.withBodies context.objects rootHash = .ok ())
    (generic : GenericCallsDeclared P context.objects context.root symbol)
    (found : rootSymbol context.root symbol = some entry)
    (has : HasBody P context.objects entry body) :
    EffectsDeclared P context.objects context.root (Calls P context.objects context.root symbol)
      entry.signature body := by
  have checked := typeCheckRoot_effects loaded accepted (rootSymbol_some found).1 has.internal
  obtain ⟨own, dependencies⟩ := verifyFunctionEffects_ok checked has
  intro sub mem
  obtain ⟨state, alloc, unsafeOps, io⟩ := own sub mem
  refine ⟨state, alloc, unsafeOps, io, ?_⟩
  rintro callee typeArgs args rfl
  refine ⟨⟨entry, body, typeArgs, args, found, has, mem⟩, ?_⟩
  by_cases plain : typeArgs = []
  · -- The callee itself is what the body depends on.
    subst plain
    intro other atCallee
    refine dependencies _ mem callee ?_ other atCallee
    simp [ownDeps, callTarget, atCallee]
  · exact generic entry body callee typeArgs args found has mem plain

/-- Whatever a function of a checked root does when it is evaluated, it declares, if each
function it reaches declares what the generic functions declare which that function
calls. -/
theorem evaluation_declared
    (loaded : loadRoot P context.objects rootHash = .ok context.root)
    (accepted : typeCheckRoot El.withBodies context.objects rootHash = .ok ())
    (found : rootSymbol context.root symbol = some entry)
    (generic : ∀ reached,
      Relation.ReflTransGen (Calls P context.objects context.root) symbol reached →
        GenericCallsDeclared P context.objects context.root reached)
    (depth callDepth : Nat) (args : List Value) (memory : Memory) (event : Event)
    (happens : event ∈ ((evaluators P context depth).call callDepth symbol args memory).2.1) :
    event.DeclaredBy P context.objects entry.signature := by
  let among := Relation.ReflTransGen (Calls P context.objects context.root) symbol
  have sound : SoundEvaluators P context among (evaluators P context depth) := by
    refine sound_evaluators (fun reached other body mem atReached has sub mem' => ?_) depth
    have declared := effectsDeclared_of_checked loaded accepted (generic reached mem) atReached has
      sub mem'
    exact { declared with
      calls := fun callee typeArgs args same =>
        (declared.calls callee typeArgs args same).imp_left mem.tail }
  have self : DeclaresCallee P context.objects context.root entry.signature symbol := by
    intro other atSymbol effect declared
    obtain rfl := Option.some.inj (found.symm.trans atSymbol)
    exact declared
  exact sound.call .refl self callDepth args memory event happens

end Root

/-- What a function of a checked root does when it is evaluated need not be declared. -/
theorem evaluation_undeclared :
    typeCheckRoot recordedTypes.withBodies (sampleObjects []) (sampleRootHash []) = .ok () ∧
      loadRoot plain (sampleObjects []) (sampleRootHash []) = .ok (sampleRoot []) ∧
      rootSymbol (sampleRoot []) outer = some (outerEntry []) ∧
      Event.readArguments ∈
        ((evaluators plain (sampleContext []) 4).call 0 outer [.ofI64 0] #[]).2.1 ∧
      ¬ Event.readArguments.DeclaredBy plain (sampleObjects []) (outerEntry []).signature := by
  refine ⟨typeCheckRoot_sampleRoot (.inl rfl), loadRoot_sampleRoot, rootSymbol_outer [],
    outer_reads_arguments [] 0, ?_⟩
  rintro ⟨declared, read, mem⟩
  obtain rfl := Except.ok.inj ((signatureEffects_outerEntry (.inl rfl)).symm.trans read)
  exact absurd mem List.not_mem_nil


theorem HasBody.unique {P : Primitives} {objects : Objects} {entry : RootSymbolPayload}
    {body body' : Expr} (has : HasBody P objects entry body)
    (has' : HasBody P objects entry body') : body = body' := by
  obtain ⟨hash, atHash, loaded⟩ := has.loaded
  obtain ⟨hash', atHash', loaded'⟩ := has'.loaded
  obtain rfl := Except.ok.inj (atHash.symm.trans atHash')
  exact Except.ok.inj (loaded.symm.trans loaded')

/-- The outer function may call the generic one if it declares what that declares. -/
theorem genericCallsDeclared_sampleRoot (caller : Hash) :
    GenericCallsDeclared plain (sampleObjects [.io]) (sampleRoot [.io]) caller := by
  intro entry body callee typeArgs args found has call _
  rcases List.mem_cons.mp (rootSymbol_some found).1 with rfl | mem
  · obtain rfl := has.unique hasBody_countEntry
    simp [subexprs_argCount] at call
  · obtain rfl := List.mem_singleton.mp mem
    obtain rfl := has.unique hasBody_outerEntry
    obtain ⟨rfl, -, -⟩ : callee = count ∧ typeArgs = [typeI64] ∧ args = [.paramRef 0] := by
      simpa [subexprs_call] using call
    rintro other atCount effect ⟨declared, read, mem⟩
    obtain rfl := Option.some.inj ((rootSymbol_count [.io]).symm.trans atCount)
    obtain rfl := Except.ok.inj ((signatureEffects_countEntry [.io]).symm.trans read)
    exact ⟨_, signatureEffects_outerEntry (.inr rfl), mem⟩

/-- An outer function that declares the effect. -/
theorem evaluation_declared_io :
    Event.readArguments.DeclaredBy plain (sampleObjects [.io]) (outerEntry [.io]).signature :=
  @evaluation_declared plain (sampleContext [.io]) recordedTypes (sampleRootHash [.io]) outer
    (outerEntry [.io]) loadRoot_sampleRoot (typeCheckRoot_sampleRoot (.inr rfl))
    (rootSymbol_outer [.io]) (fun reached _ => genericCallsDeclared_sampleRoot reached) 4 0
    [.ofI64 0] #[] .readArguments (outer_reads_arguments [.io] 0)

end CodeDb

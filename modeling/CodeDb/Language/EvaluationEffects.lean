import CodeDb.Language.Effects
import CodeDb.Language.Evaluator

/-!
# What evaluation does

Evaluation does something besides computing values only where an expression of some kind
asks for it. If a signature declares what the expressions of a body take, and all that the
functions declare which the body calls, then it declares whatever evaluating the body does.

## Main definitions

* `Event.DeclaredBy` — a signature declares what an event takes
* `EffectsDeclared` — a signature declares what an expression takes, calls included

## Main results

* `logs_evalExpr`, `logs_evalSymbol` — one step only does what is declared
* `sound_evaluators` — an evaluator only does what is declared
-/

namespace CodeDb

open Logged

section Declarations

variable (P : Primitives) (objects : Objects)

/-- A signature declares an effect. -/
def Declares (signature : Hash) (effect : Effect) : Prop :=
  ∃ effects, signatureEffects P objects signature = .ok effects ∧ effect ∈ effects

/-- A signature declares all another one declares. -/
def DeclaresAll (signature other : Hash) : Prop :=
  ∀ effect, Declares P objects other effect → Declares P objects signature effect

/-- A signature declares what an event takes. -/
def Event.DeclaredBy (signature : Hash) : Event → Prop
  | .assign | .push | .setByte => Declares P objects signature .state
  | .allocate | .free => Declares P objects signature .alloc
  | .castPointer | .loadPointer => Declares P objects signature .unsafeOps
  | .storePointer =>
    Declares P objects signature .state ∧ Declares P objects signature .unsafeOps
  | .readArguments => Declares P objects signature .io
  | .reachExternal external => DeclaresAll P objects signature external

variable (root : ProgramRootPayload)

/-- A signature declares all that the function of a symbol declares. -/
def DeclaresCallee (signature symbol : Hash) : Prop :=
  ∀ callee, rootSymbol root symbol = some callee → DeclaresAll P objects signature callee.signature

/-- A function is not external and has a body. -/
structure HasBody (entry : RootSymbolPayload) (body : Expr) : Prop where
  internal : definitionIsExternal objects entry.definition = .ok false
  loaded : ∃ hash, functionBodyHash P objects entry.definition = .ok hash ∧
    loadBody P objects hash = .ok body

/-- A signature declares what an expression takes by itself, and what it calls is among
some functions. -/
structure OwnDeclared (among : Hash → Prop) (signature : Hash) (e : Expr) : Prop where
  state : writes e = true → Declares P objects signature .state
  alloc : allocates e = true → Declares P objects signature .alloc
  unsafeOps : usesRawPointer e = true → Declares P objects signature .unsafeOps
  io : readsArguments e = true → Declares P objects signature .io
  calls : ∀ symbol typeArgs args, e = .call symbol typeArgs args →
    among symbol ∧ DeclaresCallee P objects root signature symbol

/-- A signature declares what an expression takes. -/
def EffectsDeclared (among : Hash → Prop) (signature : Hash) (e : Expr) : Prop :=
  ∀ sub ∈ e.subexprs, OwnDeclared P objects root among signature sub

end Declarations

section Rules

variable {P : Primitives} {objects : Objects} {root : ProgramRootPayload} {among : Hash → Prop}
  {signature other : Hash} {e child : Expr}

theorem Event.DeclaredBy.mono {event : Event} (all : DeclaresAll P objects signature other)
    (declared : event.DeclaredBy P objects other) : event.DeclaredBy P objects signature := by
  cases event with
  | storePointer => exact declared.imp (all _) (all _)
  | reachExternal external => exact fun effect mem => all effect (declared effect mem)
  | _ => exact all _ declared

theorem EffectsDeclared.own (declared : EffectsDeclared P objects root among signature e) :
    OwnDeclared P objects root among signature e :=
  declared e e.self_mem_subexprs

theorem EffectsDeclared.of_child (declared : EffectsDeclared P objects root among signature e)
    (mem : child ∈ e.children) : EffectsDeclared P objects root among signature child :=
  fun sub found => declared sub (Expr.subexprs_subset mem found)

end Rules

/-! ### One step -/

section Step

variable (P : Primitives) (context : EvalContext) (among : Hash → Prop)

/-- Evaluation only does what is declared. -/
structure SoundEvaluators (E : Evaluators) : Prop where
  value : ∀ {signature e},
    EffectsDeclared P context.objects context.root among signature e → ∀ frame,
      Logs (Event.DeclaredBy P context.objects signature) (E.value e frame)
  place : ∀ {signature e},
    EffectsDeclared P context.objects context.root among signature e → ∀ frame,
      Logs (Event.DeclaredBy P context.objects signature) (E.place e frame)
  call : ∀ {signature symbol}, among symbol →
    DeclaresCallee P context.objects context.root signature symbol → ∀ callDepth args,
      Logs (Event.DeclaredBy P context.objects signature) (E.call callDepth symbol args)

end Step

section Step

variable {P : Primitives} {context : EvalContext} {among : Hash → Prop} {E : Evaluators}
  {allowed : Event → Prop}

theorem logs_evalEnumArms {variant : String} {cell : ValueCell} {frame : Frame}
    {arms : List (CasePattern × Option Expr × Expr)}
    (bodies : ∀ arm ∈ arms, ∀ frame, Logs allowed (E.value arm.2.2 frame)) :
    Logs allowed (evalEnumArms E variant cell frame arms) := by
  induction arms with
  | nil => exact .quietly _
  | cons arm arms ih =>
    obtain ⟨body, rest⟩ := List.forall_mem_cons.mp bodies
    unfold evalEnumArms
    split
    · exact body frame
    · refine Logs.bind (.quietly _) fun found => ?_
      split
      · exact body _
      · exact body frame
      · exact ih rest

theorem logs_evalI64Arms {n : Int} {frame : Frame}
    {arms : List (CasePattern × Option Expr × Expr)}
    (guards : ∀ arm ∈ arms, ∀ guard ∈ arm.2.1, Logs allowed (E.value guard frame))
    (bodies : ∀ arm ∈ arms, Logs allowed (E.value arm.2.2 frame)) :
    Logs allowed (evalI64Arms E n frame arms) := by
  induction arms with
  | nil => exact .quietly _
  | cons arm arms ih =>
    obtain ⟨pattern, guard, body⟩ := arm
    obtain ⟨guardLogs, laterGuards⟩ := List.forall_mem_cons.mp guards
    obtain ⟨bodyLogs, laterBodies⟩ := List.forall_mem_cons.mp bodies
    unfold evalI64Arms
    split
    · cases guard with
      | none => exact bodyLogs
      | some guard =>
        refine (guardLogs guard rfl).bind fun holds => ?_
        split
        · exact bodyLogs
        · exact ih laterGuards laterBodies
        · exact .quietly _
    · exact ih laterGuards laterBodies

theorem mem_of_selectBoolArm {b : Bool} {body : Expr}
    {arms : List (CasePattern × Option Expr × Expr)} (selected : selectBoolArm b arms = some body) :
    ∃ arm ∈ arms, arm.2.2 = body := by
  obtain ⟨arm, found, rfl⟩ := Option.map_eq_some_iff.mp selected
  rcases Option.or_eq_some_iff.mp found with found | ⟨-, found⟩
  · exact ⟨arm, List.mem_of_find?_eq_some found, rfl⟩
  · exact ⟨arm, List.mem_of_find?_eq_some found, rfl⟩

theorem logs_evalLoopFrom {cond body : Expr} {frame : Frame}
    (condLogs : ∀ cell, Logs allowed (E.value cond (frame.push cell)))
    (bodyLogs : ∀ cell, Logs allowed (E.value body (frame.push cell))) (left : Nat) (v : Value) :
    Logs allowed (evalLoopFrom E cond body frame left v) := by
  induction left generalizing v with
  | zero =>
    unfold evalLoopFrom
    refine Logs.bind (.quietly _) fun copy => Logs.bind (.quietly _) fun cell => ?_
    refine (condLogs cell).bind fun holds => ?_
    split
    · exact .pure _
    · exact (bodyLogs cell).bind fun _ => .quietly _
    · exact .quietly _
  | succ left ih =>
    unfold evalLoopFrom
    refine Logs.bind (.quietly _) fun copy => Logs.bind (.quietly _) fun cell => ?_
    refine (condLogs cell).bind fun holds => ?_
    split
    · exact .pure _
    · exact (bodyLogs cell).bind fun next => ih next
    · exact .quietly _

theorem logs_evalFold {target init body : Expr} {frame : Frame}
    (targetLogs : Logs allowed (E.value target frame))
    (initLogs : Logs allowed (E.value init frame))
    (bodyLogs : ∀ frame, Logs allowed (E.value body frame)) :
    Logs allowed (evalFold E target init body frame) := by
  refine targetLogs.bind fun target => Logs.bind (.quietly _) fun elements => ?_
  refine initLogs.bind fun init => Logs.foldl fun accumulator item _ => ?_
  exact Logs.bind (.quietly _) fun _ => Logs.bind (.quietly _) fun _ =>
    Logs.bind (.quietly _) fun _ => Logs.bind (.quietly _) fun _ => bodyLogs _

theorem logs_evalCase {v : Value} {frame : Frame} {arms : List (CasePattern × Option Expr × Expr)}
    (guards : ∀ arm ∈ arms, ∀ guard ∈ arm.2.1, Logs allowed (E.value guard frame))
    (bodies : ∀ arm ∈ arms, ∀ frame, Logs allowed (E.value arm.2.2 frame)) :
    Logs allowed (evalCase E v arms frame) := by
  unfold evalCase
  split
  · exact Logs.bind (.quietly _) fun _ => logs_evalEnumArms bodies
  · split
    · rename_i selected
      obtain ⟨arm, mem, rfl⟩ := mem_of_selectBoolArm selected
      exact bodies arm mem frame
    · exact .quietly _
  · split
    · exact logs_evalI64Arms guards fun arm mem => bodies arm mem frame
    · exact .quietly _

theorem logs_evalPlaceCell {e : Expr} {frame : Frame}
    (values : ∀ child ∈ e.children, Logs allowed (E.value child frame))
    (places : ∀ child ∈ e.children, Logs allowed (E.place child frame)) :
    Logs allowed (evalPlaceCell E e frame) := by
  cases e with
  | paramRef | localRef => exact .quietly _
  | fieldAccess target field =>
    exact (places target List.mem_cons_self).bind fun _ => Logs.bind (.quietly _) fun _ =>
      .quietly _
  | arrayIndex target index =>
    exact (places target List.mem_cons_self).bind fun _ =>
      (values index (by simp [Expr.children])).bind fun _ => Logs.bind (.quietly _) fun _ =>
        .quietly _
  | _ => exact .quietly _

variable {signature : Hash} {e : Expr}

/-- A step only does what is declared, if what it is made of does. -/
theorem logs_evalExpr (sound : SoundEvaluators P context among E)
    (declared : EffectsDeclared P context.objects context.root among signature e) (frame : Frame) :
    Logs (Event.DeclaredBy P context.objects signature) (evalExpr P context E e frame) := by
  have own := declared.own
  have value : ∀ child ∈ e.children, ∀ frame, Logs _ (E.value child frame) := fun _ mem =>
    sound.value (declared.of_child mem)
  have place : ∀ child ∈ e.children, ∀ frame, Logs _ (E.place child frame) := fun _ mem =>
    sound.place (declared.of_child mem)
  -- by kind: children in turn, what is computed quietly, and the event of the kind itself
  cases e with
  | literalBool | literalUnit => exact .pure _
  | literalI64 text type =>
    refine Logs.bind (.quietly _) fun spec => ?_
    split
    · split
      · exact Logs.bind (.quietly _) fun _ => .pure _
      · exact .quietly _
    · exact .quietly _
  | staticBytes staticData =>
    refine Logs.bind (.quietly _) fun data => Logs.bind ?_ fun _ => .pure _
    exact .each fun _ _ => .quietly _
  | paramRef | localRef =>
    exact Logs.bind (.quietly _) fun _ => Logs.bind (.quietly _) fun _ => .quietly _
  | call symbol typeArgs args =>
    -- what the callee declares, the caller declares as well
    obtain ⟨mem, callee⟩ := own.calls symbol typeArgs args rfl
    exact Logs.bind (.each fun arg mem => value arg mem frame) fun _ => sound.call mem callee _ _
  | binary op left right =>
    exact (value left (by simp [Expr.children]) frame).bind fun _ =>
      (value right (by simp [Expr.children]) frame).bind fun _ => .quietly _
  | unary op expr => exact (value expr List.mem_cons_self frame).bind fun _ => .quietly _
  | borrowShared target | borrowMut target | sliceFromArray isMut target =>
    exact (place target List.mem_cons_self frame).bind fun _ =>
      Logs.bind (.quietly _) fun _ => .pure _
  | sliceLen target =>
    exact (value target List.mem_cons_self frame).bind fun _ =>
      Logs.bind (.quietly _) fun _ => .pure _
  | subslice target start len =>
    exact (value target (by simp [Expr.children]) frame).bind fun _ =>
      (value start (by simp [Expr.children]) frame).bind fun _ => Logs.bind (.quietly _) fun _ =>
        (value len (by simp [Expr.children]) frame).bind fun _ => Logs.bind (.quietly _) fun _ =>
          .quietly _
  | boxNew inner =>
    exact (value inner List.mem_cons_self frame).bind fun _ =>
      Logs.bind (.emit (own.alloc rfl)) fun _ => Logs.bind (.quietly _) fun _ => .pure _
  | unbox inner =>
    refine (value inner List.mem_cons_self frame).bind fun boxed => ?_
    split
    · exact Logs.bind (.emit (own.alloc rfl)) fun _ => .quietly _
    · exact .quietly _
  | intCast type inner =>
    simp only [evalExpr]
    split
    · exact (value inner List.mem_cons_self frame).bind fun _ => .quietly _
    · exact .quietly _
  | vecNew capacity =>
    exact (value capacity List.mem_cons_self frame).bind fun _ => Logs.bind (.quietly _) fun _ =>
      Logs.bind (.emit (own.alloc rfl)) fun _ => .pure _
  | vecPush target pushed =>
    refine (value pushed (by simp [Expr.children]) frame).bind fun _ =>
      (place target (by simp [Expr.children]) frame).bind fun _ =>
        Logs.bind (.quietly _) fun found => ?_
    split
    · split
      · exact .quietly _
      · exact Logs.bind (.emit (own.state rfl)) fun _ => Logs.bind (.quietly _) fun _ =>
          Logs.bind (.quietly _) fun _ => .pure _
    · exact .quietly _
  | vecGet target index =>
    refine (value index (by simp [Expr.children]) frame).bind fun _ =>
      Logs.bind (.quietly _) fun _ => (place target (by simp [Expr.children]) frame).bind fun _ =>
        Logs.bind (.quietly _) fun found => ?_
    split
    · exact Logs.bind (.quietly _) fun _ => Logs.bind (.quietly _) fun _ => .quietly _
    · exact .quietly _
  | vecLen target | stringLen target =>
    refine (place target List.mem_cons_self frame).bind fun _ =>
      Logs.bind (.quietly _) fun found => ?_
    split
    · exact .pure _
    · exact .quietly _
  | stringNew source =>
    exact (value source List.mem_cons_self frame).bind fun _ => Logs.bind (.quietly _) fun _ =>
      Logs.bind (.emit (own.alloc rfl)) fun _ => .pure _
  | stringWithCapacity capacity =>
    exact (value capacity List.mem_cons_self frame).bind fun _ => Logs.bind (.quietly _) fun _ =>
      Logs.bind (.emit (own.alloc rfl)) fun _ => .pure _
  | stringPush target pushed =>
    refine (value pushed (by simp [Expr.children]) frame).bind fun _ =>
      Logs.bind (.quietly _) fun _ => (place target (by simp [Expr.children]) frame).bind fun _ =>
        Logs.bind (.quietly _) fun found => ?_
    split
    · exact Logs.bind (.emit (own.state rfl)) fun _ => Logs.bind (.quietly _) fun _ => .pure _
    · exact .quietly _
  | stringGet target index =>
    refine (value index (by simp [Expr.children]) frame).bind fun _ =>
      Logs.bind (.quietly _) fun _ => (place target (by simp [Expr.children]) frame).bind fun _ =>
        Logs.bind (.quietly _) fun found => ?_
    split
    · exact Logs.bind (.quietly _) fun _ => .pure _
    · exact .quietly _
  | stringSet target index stored =>
    refine (value index (by simp [Expr.children]) frame).bind fun _ =>
      Logs.bind (.quietly _) fun _ => (value stored (by simp [Expr.children]) frame).bind fun _ =>
        Logs.bind (.quietly _) fun _ => (place target (by simp [Expr.children]) frame).bind fun _ =>
          Logs.bind (.quietly _) fun found => ?_
    split
    · split
      · exact Logs.bind (.emit (own.state rfl)) fun _ => Logs.bind (.quietly _) fun _ => .pure _
      · exact .quietly _
    · exact .quietly _
  | argCount => exact Logs.bind (.emit (own.io rfl)) fun _ => .pure _
  | argLen index =>
    exact (value index List.mem_cons_self frame).bind fun _ => Logs.bind (.quietly _) fun _ =>
      Logs.bind (.emit (own.io rfl)) fun _ => Logs.bind (.quietly _) fun _ => .pure _
  | argByte index byte =>
    exact (value index (by simp [Expr.children]) frame).bind fun _ =>
      Logs.bind (.quietly _) fun _ => (value byte (by simp [Expr.children]) frame).bind fun _ =>
        Logs.bind (.quietly _) fun _ => Logs.bind (.emit (own.io rfl)) fun _ =>
          Logs.bind (.quietly _) fun _ => Logs.bind (.quietly _) fun _ => .pure _
  | rawPtrCast isMut inner =>
    exact (value inner List.mem_cons_self frame).bind fun _ => Logs.bind (.quietly _) fun _ =>
      Logs.bind (.emit (own.unsafeOps rfl)) fun _ => .pure _
  | rawLoad pointer =>
    refine (value pointer List.mem_cons_self frame).bind fun found => ?_
    split
    · exact Logs.bind (.emit (own.unsafeOps rfl)) fun _ => Logs.bind (.quietly _) fun _ =>
        .quietly _
    · exact .quietly _
  | rawStore pointer stored =>
    refine (value pointer (by simp [Expr.children]) frame).bind fun found =>
      (value stored (by simp [Expr.children]) frame).bind fun _ => ?_
    split
    -- a raw store needs both: it writes, and it goes through a raw pointer
    · exact Logs.bind (.emit ⟨own.state rfl, own.unsafeOps rfl⟩) fun _ =>
        Logs.bind (.quietly _) fun _ => .pure _
    · exact .quietly _
    · exact .quietly _
  | assign target stored =>
    exact (value stored (by simp [Expr.children]) frame).bind fun _ =>
      (place target (by simp [Expr.children]) frame).bind fun _ =>
        Logs.bind (.emit (own.state rfl)) fun _ => Logs.bind (.quietly _) fun _ => .pure _
  | letIn bound body =>
    exact (value bound (by simp [Expr.children]) frame).bind fun _ =>
      Logs.bind (.quietly _) fun _ => value body (by simp [Expr.children]) _
  | ifThenElse cond thenBranch elseBranch =>
    refine (value cond (by simp [Expr.children]) frame).bind fun holds => ?_
    split
    · exact value thenBranch (by simp [Expr.children]) frame
    · exact value elseBranch (by simp [Expr.children]) frame
    · exact .quietly _
  | returnWith returned =>
    exact (value returned List.mem_cons_self frame).bind fun _ => .stop _
  | fold target init body =>
    exact logs_evalFold (value target (by simp [Expr.children]) frame)
      (value init (by simp [Expr.children]) frame) (value body (by simp [Expr.children]))
  | loop init cond body =>
    exact (value init (by simp [Expr.children]) frame).bind fun _ =>
      logs_evalLoopFrom (fun _ => value cond (by simp [Expr.children]) _)
        (fun _ => value body (by simp [Expr.children]) _) _ _
  | arrayLiteral elements =>
    refine Logs.bind (.each fun element mem => ?_) fun _ => .pure _
    exact (value element mem frame).bind fun _ => .quietly _
  | arrayFill filled count =>
    refine (value filled List.mem_cons_self frame).bind fun _ => Logs.bind ?_ fun _ => .pure _
    exact .each fun _ _ => Logs.bind (.quietly _) fun _ => .quietly _
  | arraySet array index stored =>
    refine (value array (by simp [Expr.children]) frame).bind fun _ =>
      (value index (by simp [Expr.children]) frame).bind fun _ => Logs.bind (.quietly _) fun _ =>
        (value stored (by simp [Expr.children]) frame).bind fun _ =>
          Logs.bind (.quietly _) fun cells => ?_
    split
    · split
      · exact Logs.bind (.quietly _) fun _ => .pure _
      · exact .quietly _
    · exact .quietly _
  | arrayIndex target index =>
    -- a target that is no place is evaluated as a value, and what its place logged is kept
    refine Logs.bind (.recover ((place target (by simp [Expr.children]) frame).bind fun _ =>
      .pure _) fun reason => ?_) fun found => ?_
    · split
      · exact .stop _
      · exact .pure _
    · have index := value index (by simp [Expr.children]) frame
      split
      · exact index.bind fun _ => Logs.bind (.quietly _) fun _ => Logs.bind (.quietly _) fun _ =>
          Logs.bind (.quietly _) fun _ => .quietly _
      · exact (value target (by simp [Expr.children]) frame).bind fun _ => index.bind fun _ =>
          Logs.bind (.quietly _) fun _ => Logs.bind (.quietly _) fun _ =>
            Logs.bind (.quietly _) fun _ => .quietly _
  | recordLiteral fields =>
    refine Logs.bind (.each fun field mem => ?_) fun _ => .pure _
    exact (value field.2 (List.mem_map_of_mem mem) frame).bind fun _ =>
      Logs.bind (.quietly _) fun _ => .pure _
  | fieldAccess target field =>
    exact (sound.place declared frame).bind fun _ => Logs.bind (.quietly _) fun _ => .quietly _
  | enumConstruct variant inner =>
    exact (value inner List.mem_cons_self frame).bind fun _ =>
      Logs.bind (.quietly _) fun _ => .pure _
  | caseOf scrutinee arms =>
    -- the guards and bodies of the arms are children, too
    have child : ∀ arm ∈ arms, ∀ part ∈ arm.2.1.toList ++ [arm.2.2],
        part ∈ (Expr.caseOf scrutinee arms).children := fun arm mem part found =>
      List.mem_cons_of_mem _ (List.mem_flatMap.mpr ⟨arm, mem, found⟩)
    refine (value scrutinee List.mem_cons_self frame).bind fun _ => logs_evalCase ?_ ?_
    · intro arm mem guard has
      exact value guard (child arm mem guard (by simp [Option.mem_def.mp has])) frame
    · intro arm mem
      exact value arm.2.2 (child arm mem arm.2.2 (by simp))

/-- What may fail with a message logs nothing, and goes on only with what it computes. -/
theorem logs_ofExcept_bind {α β : Type} {x : Except Error α} {next : α → Eval β}
    (rest : ∀ a, x = .ok a → Logs allowed (next a)) :
    Logs allowed ((liftM (Mem.ofExcept x) : Eval α) >>= next) := by
  cases x with
  | error message => exact fun s event mem => absurd mem List.not_mem_nil
  | ok a => exact rest a rfl

/-- A call only does what is declared, if the body of each function does. -/
theorem logs_evalSymbol (sound : SoundEvaluators P context among E)
    (bodies : ∀ symbol entry body, among symbol →
      rootSymbol context.root symbol = some entry →
      HasBody P context.objects entry body →
        EffectsDeclared P context.objects context.root among entry.signature body)
    {symbol : Hash} (mem : among symbol)
    (callee : DeclaresCallee P context.objects context.root signature symbol)
    (callDepth : Nat) (args : List Value) :
    Logs (Event.DeclaredBy P context.objects signature)
      (evalSymbol P context E callDepth symbol args) := by
  unfold evalSymbol
  split
  · exact .quietly _
  · split
    · exact .quietly _
    · rename_i entry found
      refine Logs.bind (.quietly _) fun parts => ?_
      obtain ⟨paramTypes, returnType⟩ := parts
      dsimp only
      split
      · exact Logs.bind (.quietly _) fun _ => .quietly _
      · refine Logs.bind (.quietly _) fun _ => logs_ofExcept_bind fun external atKind => ?_
        split
        · exact Logs.bind (.emit (callee entry found)) fun _ => Logs.bind (.quietly _) fun _ =>
            .quietly _
        · rename_i internal
          obtain rfl : external = false := by simpa using internal
          refine logs_ofExcept_bind fun hash atHash => logs_ofExcept_bind fun body loaded =>
            Logs.bind (.each fun _ _ => .quietly _) fun cells => .recover ?_ fun _ => .quietly _
          have declared := bodies symbol entry body mem found
            ⟨atKind, hash, atHash, loaded⟩
          exact (sound.value declared _).mono fun _ => Event.DeclaredBy.mono (callee entry found)

/-- Evaluation only does what is declared, if the body of each function does. -/
theorem sound_evaluators
    (bodies : ∀ symbol entry body, among symbol →
      rootSymbol context.root symbol = some entry →
      HasBody P context.objects entry body →
        EffectsDeclared P context.objects context.root among entry.signature body) (depth : Nat) :
    SoundEvaluators P context among (evaluators P context depth) := by
  induction depth with
  | zero => exact ⟨fun _ _ => .stop _, fun _ _ => .stop _, fun _ _ _ _ => .stop _⟩
  | succ depth sound =>
    refine ⟨logs_evalExpr sound, fun declared frame => ?_, fun mem callee =>
      logs_evalSymbol sound bodies mem callee⟩
    exact logs_evalPlaceCell (fun _ mem => sound.value (declared.of_child mem) frame)
      fun _ mem => sound.place (declared.of_child mem) frame

end Step

end CodeDb

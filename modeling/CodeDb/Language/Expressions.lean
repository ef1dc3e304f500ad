import CodeDb.Operations.Definitions

/-!
# Typed expressions

The body of a function is stored as a graph of objects, one for each expression, that
refer to each other by hash. Whatever walks a body goes from an expression to its
children; here the graph is unfolded into a tree first. The table of the children of an
expression is what all walks share.

## Main definitions

* `Expr` — a typed expression
* `Expr.children`, `Expr.subexprs` — the table of children, and all expressions in one
* `loadExpr` — unfold a stored expression
* `Expr.inductionOnChildren` — what holds of an expression whenever it holds of its
  children holds of all
-/

namespace CodeDb

/-- The pattern of an arm over an enum: a variant, and what it does with the payload. -/
inductive TypedPattern where
  | node (variant : Option String) (binds : Bool) (payload : Option TypedPattern)

/-- What an arm of a case is chosen by. -/
structure CasePattern where
  isDefault : Bool
  literalI64 : Option String
  rangeLo : Option String
  rangeHi : Option String
  rangeInclusive : Bool
  literalBool : Option Bool
  pattern : TypedPattern

/-- A typed expression. -/
inductive Expr where
  | literalI64 (value : String) (type : Hash)
  | literalBool (value : Bool)
  | literalUnit
  | staticBytes (staticData : Hash)
  | paramRef (index : Nat)
  | localRef (depth : Nat)
  | call (symbol : Hash) (typeArgs : List Hash) (args : List Expr)
  | binary (op : String) (left right : Expr)
  | unary (op : String) (expr : Expr)
  | borrowShared (target : Expr)
  | borrowMut (target : Expr)
  | sliceFromArray (isMut : Bool) (target : Expr)
  | sliceLen (target : Expr)
  | subslice (target start len : Expr)
  | boxNew (value : Expr)
  | unbox (value : Expr)
  | intCast (type : Hash) (value : Expr)
  | vecNew (capacity : Expr)
  | vecPush (target value : Expr)
  | vecGet (target index : Expr)
  | vecLen (target : Expr)
  | stringNew (source : Expr)
  | stringLen (target : Expr)
  | stringWithCapacity (capacity : Expr)
  | stringPush (target value : Expr)
  | stringGet (target index : Expr)
  | stringSet (target index value : Expr)
  | argCount
  | argLen (index : Expr)
  | argByte (index byte : Expr)
  | rawPtrCast (isMut : Bool) (value : Expr)
  | rawLoad (pointer : Expr)
  | rawStore (pointer value : Expr)
  | assign (target value : Expr)
  | letIn (value body : Expr)
  | ifThenElse (cond thenBranch elseBranch : Expr)
  | returnWith (value : Expr)
  | fold (target init body : Expr)
  | loop (init cond body : Expr)
  | arrayLiteral (elements : List Expr)
  | arrayFill (value : Expr) (count : Nat)
  | arraySet (array index value : Expr)
  | arrayIndex (target index : Expr)
  | recordLiteral (fields : List (String × Expr))
  | fieldAccess (target : Expr) (field : String)
  | enumConstruct (variant : String) (value : Expr)
  | caseOf (expr : Expr) (arms : List (CasePattern × Option Expr × Expr))

namespace Expr

/-- The kind an expression is stored under. -/
def kind : Expr → String
  | literalI64 .. => "literal_i64"
  | literalBool .. => "literal_bool"
  | literalUnit => "literal_unit"
  | staticBytes .. => "static_bytes"
  | paramRef .. => "param_ref"
  | localRef .. => "local_ref"
  | call .. => "call"
  | binary .. => "binary"
  | unary .. => "unary"
  | borrowShared .. => "borrow_shared"
  | borrowMut .. => "borrow_mut"
  | sliceFromArray .. => "slice_from_array"
  | sliceLen .. => "slice_len"
  | subslice .. => "subslice"
  | boxNew .. => "box_new"
  | unbox .. => "unbox"
  | intCast .. => "int_cast"
  | vecNew .. => "vec_new"
  | vecPush .. => "vec_push"
  | vecGet .. => "vec_get"
  | vecLen .. => "vec_len"
  | stringNew .. => "string_new"
  | stringLen .. => "string_len"
  | stringWithCapacity .. => "string_with_capacity"
  | stringPush .. => "string_push"
  | stringGet .. => "string_get"
  | stringSet .. => "string_set"
  | argCount => "arg_count"
  | argLen .. => "arg_len"
  | argByte .. => "arg_byte"
  | rawPtrCast .. => "raw_ptr_cast"
  | rawLoad .. => "raw_load"
  | rawStore .. => "raw_store"
  | assign .. => "assign"
  | letIn .. => "let"
  | ifThenElse .. => "if"
  | returnWith .. => "return"
  | fold .. => "fold"
  | loop .. => "loop"
  | arrayLiteral .. => "array_literal"
  | arrayFill .. => "array_fill"
  | arraySet .. => "array_set"
  | arrayIndex .. => "array_index"
  | recordLiteral .. => "record_literal"
  | fieldAccess .. => "field_access"
  | enumConstruct .. => "enum_construct"
  | caseOf .. => "case"

/-- The children of an expression. -/
def children : Expr → List Expr
  | literalI64 .. | literalBool .. | literalUnit | staticBytes .. | paramRef .. | localRef ..
  | argCount => []
  | call _ _ args => args
  | recordLiteral fields => fields.map (·.2)
  | arrayLiteral elements => elements
  | caseOf expr arms => expr :: arms.flatMap fun arm => arm.2.1.toList ++ [arm.2.2]
  | unary _ expr => [expr]
  | argLen index => [index]
  | argByte index byte => [index, byte]
  | intCast _ value | boxNew value | unbox value | rawPtrCast _ value | arrayFill value _
  | enumConstruct _ value | returnWith value => [value]
  | borrowShared target | borrowMut target | sliceFromArray _ target | sliceLen target
  | vecLen target | stringLen target | fieldAccess target _ => [target]
  | vecNew capacity | stringWithCapacity capacity => [capacity]
  | stringNew source => [source]
  | rawLoad pointer => [pointer]
  | binary _ left right => [left, right]
  | vecPush target value | stringPush target value | assign target value => [target, value]
  | rawStore pointer value => [pointer, value]
  | vecGet target index | stringGet target index | arrayIndex target index => [target, index]
  | stringSet target index value => [target, index, value]
  | arraySet array index value => [array, index, value]
  | letIn value body => [value, body]
  | subslice target start len => [target, start, len]
  | ifThenElse cond thenBranch elseBranch => [cond, thenBranch, elseBranch]
  | fold target init body => [target, init, body]
  | loop init cond body => [init, cond, body]

private theorem sizeOf_children (e : Expr) : ∀ child ∈ e.children, sizeOf child < sizeOf e := by
  cases e with
  | caseOf expr arms =>
    refine List.forall_mem_cons.mpr ⟨by simp; omega, fun child mem => ?_⟩
    obtain ⟨⟨pattern, guard, body⟩, arm, mem⟩ := List.mem_flatMap.mp mem
    have bound := List.sizeOf_lt_of_mem arm
    cases guard with
    | none =>
      obtain rfl := List.mem_singleton.mp mem
      simp at bound ⊢
      omega
    | some guard =>
      obtain rfl | rfl : child = guard ∨ child = body := by simpa using mem
      all_goals
        simp at bound ⊢
        omega
  | recordLiteral fields =>
    intro child mem
    obtain ⟨⟨name, value⟩, field, rfl⟩ := List.mem_map.mp mem
    have bound := List.sizeOf_lt_of_mem field
    simp at bound ⊢
    omega
  | call _ _ args | arrayLiteral args =>
    intro child mem
    have bound : sizeOf child < sizeOf args := List.sizeOf_lt_of_mem mem
    simp
    omega
  | binary | argByte | vecPush | stringPush | assign | rawStore | vecGet | stringGet | arrayIndex
    | stringSet | arraySet | letIn | subslice | ifThenElse | fold | loop | arrayFill |
      fieldAccess =>
    simp [children]
    omega
  | _ => simp [children]

theorem sizeOf_child {e child : Expr} (mem : child ∈ e.children) : sizeOf child < sizeOf e :=
  sizeOf_children e child mem

section Arms

variable {expr body : Expr} {pattern : CasePattern} {arms : List (CasePattern × Option Expr × Expr)}

theorem guard_mem_children {guard : Expr} (mem : (pattern, some guard, body) ∈ arms) :
    guard ∈ (caseOf expr arms).children :=
  List.mem_cons_of_mem _ (List.mem_flatMap.mpr ⟨_, mem, by simp⟩)

theorem body_mem_children {guard : Option Expr} (mem : (pattern, guard, body) ∈ arms) :
    body ∈ (caseOf expr arms).children :=
  List.mem_cons_of_mem _ (List.mem_flatMap.mpr ⟨_, mem, by simp⟩)

end Arms

/-- What holds of an expression whenever it holds of its children holds of all. -/
theorem inductionOnChildren {motive : Expr → Prop}
    (step : ∀ e, (∀ child ∈ e.children, motive child) → motive e) (e : Expr) : motive e :=
  step e fun child mem =>
    have := sizeOf_child mem
    inductionOnChildren step child
termination_by sizeOf e

/-- An expression and all expressions in it. -/
def subexprs (e : Expr) : List Expr :=
  e :: e.children.attach.flatMap fun child =>
    have := sizeOf_child child.2
    subexprs child.1
termination_by sizeOf e

theorem subexprs_eq (e : Expr) : e.subexprs = e :: e.children.flatMap subexprs := by
  rw [subexprs, List.flatMap_subtype (g := subexprs) (fun _ _ => rfl), List.unattach_attach]

theorem self_mem_subexprs (e : Expr) : e ∈ e.subexprs := by
  rw [subexprs_eq]
  exact List.mem_cons_self

theorem subexprs_subset {e child : Expr} (mem : child ∈ e.children) :
    child.subexprs ⊆ e.subexprs := by
  intro sub found
  rw [subexprs_eq e]
  exact List.mem_cons_of_mem _ (List.mem_flatMap.mpr ⟨child, mem, found⟩)

end Expr

/-! ### Reading stored expressions -/

namespace JsonValue

/-- The number of an unsigned number. -/
def asU64? : Option JsonValue → Option Nat
  | some (.number (.posInt n)) => some n.toNat
  | _ => none

def asBool? : Option JsonValue → Option Bool
  | some (.bool b) => some b
  | _ => none

/-- What is there, or an error. -/
def require {α : Type} (missing : Error) : Option α → Except Error α
  | some a => .ok a
  | none => .error missing

/-- The elements under a key of an object. -/
def getArray (v : JsonValue) (key : String) (missing : Error) : Except Error (List JsonValue) :=
  match v.get? key with
  | some (.array values) => .ok values
  | _ => .error missing

theorem sizeOf_get? {v inner : JsonValue} {key : String} (found : v.get? key = some inner) :
    sizeOf inner < sizeOf v := by
  cases v with
  | object entries =>
    obtain ⟨before, after, rfl, -⟩ := List.lookup_eq_some_iff.mp found
    have bound : sizeOf (key, inner) < sizeOf (before ++ (key, inner) :: after) :=
      List.sizeOf_lt_of_mem (by simp)
    simp at bound ⊢
    omega
  | _ => exact nomatch found

end JsonValue

/-- Read the pattern of an arm over an enum. -/
def readPattern (node : JsonValue) : TypedPattern :=
  .node (JsonValue.asStr? (node.get? "variant"))
    (JsonValue.asStr? (node.get? "binding_name")).isSome
    (match _found : node.get? "payload_pattern" with
      | some inner => some (readPattern inner)
      | none => none)
termination_by sizeOf node
decreasing_by exact JsonValue.sizeOf_get? _found

/-- Read what an arm is chosen by. -/
def readCasePattern (arm : JsonValue) : CasePattern where
  isDefault := JsonValue.asBool? (arm.get? "default") == some true
  literalI64 := JsonValue.asStr? (arm.get? "literal_i64")
  rangeLo := JsonValue.asStr? (arm.get? "range_lo")
  rangeHi := JsonValue.asStr? (arm.get? "range_hi")
  rangeInclusive := (JsonValue.asBool? (arm.get? "range_inclusive")).getD false
  literalBool := JsonValue.asBool? (arm.get? "literal_bool")
  pattern := readPattern arm

/-- The type arguments a call of a generic function is recorded with. -/
def callTypeArgs (payload : JsonValue) : Except Error (List Hash) :=
  match payload.get? "type_args" with
  | none => .ok []
  | some (.array values) => JsonValue.getStrings "call type arg must be a hash" values
  | some _ => .error "call type_args must be an array"

/-- Read an expression of a kind, given how its children are read. -/
def readExpr (child : Hash → Except Error Expr) (kind : String) (payload : JsonValue) :
    Except Error Expr :=
  let missing (key : String) : Error := kind ++ " missing " ++ key
  let str (key : String) : Except Error String := payload.getStr key (missing key)
  let u64 (key : String) : Except Error Nat :=
    JsonValue.require (missing key) (JsonValue.asU64? (payload.get? key))
  let flag (key : String) : Except Error Bool :=
    JsonValue.require (missing key) (JsonValue.asBool? (payload.get? key))
  let childOf (v : JsonValue) (key : String) : Except Error Expr := do
    let hash ← v.getStr key (missing key)
    child hash
  let sub (key : String) : Except Error Expr := childOf payload key
  match kind with
  | "literal_i64" => do return .literalI64 (← str "value") (← str "type")
  | "literal_bool" => do return .literalBool (← flag "value")
  | "literal_unit" => .ok .literalUnit
  | "static_bytes" => do return .staticBytes (← str "static_data")
  | "param_ref" => do return .paramRef (← u64 "index")
  | "local_ref" => do return .localRef (← u64 "depth")
  | "call" => do
    let symbol ← str "symbol"
    let typeArgs ← callTypeArgs payload
    let values ← payload.getArray "args" (missing "args")
    let hashes ← JsonValue.getStrings "call arg must be hash" values
    return .call symbol typeArgs (← hashes.mapM child)
  | "binary" => do return .binary (← str "op") (← sub "left") (← sub "right")
  | "unary" => do return .unary (← str "op") (← sub "expr")
  | "borrow_shared" => do return .borrowShared (← sub "target")
  | "borrow_mut" => do return .borrowMut (← sub "target")
  | "slice_from_array" => do return .sliceFromArray (← flag "mutable") (← sub "target")
  | "slice_len" => do return .sliceLen (← sub "target")
  | "subslice" => do return .subslice (← sub "target") (← sub "start") (← sub "len")
  | "box_new" => do return .boxNew (← sub "value")
  | "unbox" => do return .unbox (← sub "value")
  | "int_cast" => do return .intCast (← str "type") (← sub "value")
  | "vec_new" => do return .vecNew (← sub "capacity")
  | "vec_push" => do return .vecPush (← sub "target") (← sub "value")
  | "vec_get" => do return .vecGet (← sub "target") (← sub "index")
  | "vec_len" => do return .vecLen (← sub "target")
  | "string_new" => do return .stringNew (← sub "source")
  | "string_len" => do return .stringLen (← sub "target")
  | "string_with_capacity" => do return .stringWithCapacity (← sub "capacity")
  | "string_push" => do return .stringPush (← sub "target") (← sub "value")
  | "string_get" => do return .stringGet (← sub "target") (← sub "index")
  | "string_set" => do return .stringSet (← sub "target") (← sub "index") (← sub "value")
  | "arg_count" => .ok .argCount
  | "arg_len" => do return .argLen (← sub "index")
  | "arg_byte" => do return .argByte (← sub "index") (← sub "byte")
  | "raw_ptr_cast" => do return .rawPtrCast (← flag "mutable") (← sub "value")
  | "raw_load" => do return .rawLoad (← sub "pointer")
  | "raw_store" => do return .rawStore (← sub "pointer") (← sub "value")
  | "assign" => do return .assign (← sub "target") (← sub "value")
  | "let" => do return .letIn (← sub "value") (← sub "body")
  | "if" => do return .ifThenElse (← sub "cond") (← sub "then") (← sub "else")
  | "return" => do return .returnWith (← sub "value")
  | "fold" => do return .fold (← sub "target") (← sub "init") (← sub "body")
  | "loop" => do return .loop (← sub "init") (← sub "cond") (← sub "body")
  | "array_literal" => do
    let elements ← payload.getArray "elements" (missing "elements")
    return .arrayLiteral (← elements.mapM (childOf · "value"))
  | "array_fill" => do return .arrayFill (← sub "value") (← u64 "count")
  | "array_set" => do return .arraySet (← sub "array") (← sub "index") (← sub "value")
  | "array_index" => do return .arrayIndex (← sub "target") (← sub "index")
  | "record_literal" => do
    let fields ← payload.getArray "fields" (missing "fields")
    return .recordLiteral (← fields.mapM fun field => do
      return (← field.getStr "name" "record field missing name", ← childOf field "value"))
  | "field_access" => do return .fieldAccess (← sub "target") (← str "field")
  | "enum_construct" => do return .enumConstruct (← str "variant") (← sub "value")
  | "case" => do
    let expr ← sub "expr"
    let arms ← payload.getArray "arms" (missing "arms")
    return .caseOf expr (← arms.mapM fun arm => do
      let guard ← (JsonValue.asStr? (arm.get? "guard")).mapM child
      return (readCasePattern arm, guard, ← childOf arm "body"))
  | other => .error ("unknown expression kind " ++ other)

/-- Unfold a stored expression, as far as some depth. -/
def loadExpr (P : Primitives) (objects : Objects) : Nat → Hash → Except Error Expr
  | 0, hash => .error ("expression " ++ hash ++ " does not end")
  | depth + 1, hash => do
    let payload ← getPayload P objects hash
    let kind ← payload.getStr "expr_kind" ("expression missing expr_kind " ++ hash)
    readExpr (loadExpr P objects depth) kind payload

/-- Unfold the body of a function. A path through a graph without cycles passes each
object once, so it is no longer than there are objects. -/
def loadBody (P : Primitives) (objects : Objects) (hash : Hash) : Except Error Expr :=
  loadExpr P objects objects.entries.length hash

end CodeDb

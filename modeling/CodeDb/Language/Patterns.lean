import CodeDb.Language.Expressions
import CodeDb.Language.Types
import Mathlib.Algebra.Ring.Nat

/-!
# Patterns over enums

An arm of a case over an enum has a pattern: a chain of variants, each over the payload of
the one before, that ends in a binding or a wildcard. The arms are checked as a whole: no
arm may be dead, and together they must cover the enum.

## Main definitions

* `RawPattern`, `RawCaseArm` — patterns and arms as the source has them
* `typeVariantArm` — what is stored of an arm, its pattern, and what it binds
* `checkPatternsWellFormed` — no two patterns of a level are in each other's way
* `patternsExhaustive` — patterns cover an enum
-/

namespace CodeDb

/-- A pattern as the source has it. -/
inductive RawPattern where
  | binding (name : String)
  | wildcard
  | variant (variant : String) (sub : RawPattern)
  deriving DecidableEq

namespace RawPattern

/-- The pattern matches everything. -/
def isCatchAll : RawPattern → Bool
  | .binding _ | .wildcard => true
  | .variant .. => false

/-- How many variants a pattern goes through. -/
def depth : RawPattern → Nat
  | .binding _ | .wildcard => 0
  | .variant _ sub => sub.depth + 1

/-- What a pattern asks of the payload of a variant. -/
def subOf (variant : String) : RawPattern → Option RawPattern
  | .variant name sub => if name = variant then some sub else none
  | _ => none

theorem subOf_eq_some {variant : String} {p sub : RawPattern} :
    p.subOf variant = some sub ↔ p = .variant variant sub := by
  cases p with
  | binding | wildcard => simp [subOf]
  | variant name inner => simp [subOf]

end RawPattern

/-- What an arm of a case over an enum is chosen by, as the source has it. -/
structure RawCaseArm where
  variant : Option String
  binding : Option String
  payloadPattern : Option RawPattern

/-- An arm as a pattern over the enum. -/
def armScrutineePattern (arm : RawCaseArm) (variant : String) : RawPattern :=
  .variant variant <|
    match arm.payloadPattern, arm.binding with
    | some pattern, _ => pattern
    | none, some binding => .binding binding
    | none, none => .wildcard

/-- What patterns ask of the payload of a variant. -/
def subPatterns (variant : String) (patterns : List RawPattern) : List RawPattern :=
  patterns.filterMap (·.subOf variant)

theorem mem_subPatterns {variant : String} {patterns : List RawPattern} {sub : RawPattern} :
    sub ∈ subPatterns variant patterns ↔ .variant variant sub ∈ patterns := by
  simp [subPatterns, RawPattern.subOf_eq_some]

/-- How many variants patterns go through in all. -/
def totalDepth (patterns : List RawPattern) : Nat := (patterns.map RawPattern.depth).sum

/-- Below a variant there are fewer variants to go through. -/
theorem totalDepth_subPatterns_add_length (variant : String) (patterns : List RawPattern) :
    totalDepth (subPatterns variant patterns) + (subPatterns variant patterns).length ≤
      totalDepth patterns := by
  induction patterns with
  | nil => simp [totalDepth, subPatterns]
  | cons p patterns ih =>
    cases found : p.subOf variant with
    | none =>
      simp only [totalDepth, subPatterns, List.filterMap_cons, found, List.map_cons,
        List.sum_cons] at ih ⊢
      omega
    | some sub =>
      obtain rfl := RawPattern.subOf_eq_some.mp found
      simp only [totalDepth, subPatterns, List.filterMap_cons, found, List.map_cons,
        List.sum_cons, List.length_cons, RawPattern.depth] at ih ⊢
      omega

theorem totalDepth_subPatterns_lt {variant : String} {patterns : List RawPattern}
    (named : subPatterns variant patterns ≠ []) :
    totalDepth (subPatterns variant patterns) < totalDepth patterns := by
  have bound := totalDepth_subPatterns_add_length variant patterns
  have some := List.length_pos_iff.mpr named
  omega

section Checks

variable (P : Primitives) (objects : Objects) (root : ProgramRootPayload)

/-- The typed pattern of a payload, with what it binds and its type. -/
def typePayloadPattern : RawPattern → Hash → Except Error (JsonValue × Option (String × Hash))
  | .variant variant sub, matchType => do
    match ← typeSpecInRoot P objects root matchType with
    | .enum variants => do
      validateProjectionIdentifier "enum variant" variant
      let payload ← JsonValue.require ("nested pattern uses unknown variant " ++ variant)
        (variants.find? (·.name == variant))
      match sub with
      | .binding name => do
        validateProjectionIdentifier "case binding" name
        return (.object [("binding_name", .string name), ("variant", .string variant)],
          some (name, payload.typeHash))
      | .wildcard => return (.object [("variant", .string variant)], none)
      | inner => do
        let (node, leaf) ← typePayloadPattern inner payload.typeHash
        return (.object [("payload_pattern", node), ("variant", .string variant)], leaf)
    | _ => do
      let shown ← typeName P objects matchType
      .error ("nested pattern `" ++ variant ++ "(..)` requires an enum payload, got " ++ shown)
  | _, _ => .error "nested payload pattern must be a variant pattern"

/-- What an arm without a pattern for the payload binds, with its type. -/
def simpleArmLeaf (variant : String) (payload : Hash) :
    Option String → Except Error (Option (String × Hash))
  | some binding => do
    validateProjectionIdentifier "case binding" binding
    return some (binding, payload)
  | none =>
    if payload ≠ typeHashFor P "Unit" then
      .error ("case arm " ++ variant ++ " must bind its payload")
    else .ok none

/-- An arm that is typed: what is stored of it, its pattern, and what it binds with its type. -/
structure TypedArm where
  node : JsonValue
  pattern : RawPattern
  leaf : Option (String × Hash)

/-- Type an arm with a body over an enum with given variants. -/
def typeVariantArm (variants : List TypeFieldSpec) (arm : RawCaseArm) (body : Hash) :
    Except Error TypedArm := do
  let variant ← JsonValue.require "case arm missing variant" arm.variant
  validateProjectionIdentifier "enum variant" variant
  let payload ← JsonValue.require ("case arm uses unknown variant " ++ variant)
    (variants.find? (·.name == variant))
  match arm.payloadPattern with
  | some pattern => do
    let (node, leaf) ← typePayloadPattern P objects root pattern payload.typeHash
    return ⟨.object [("body", .string body), ("payload_pattern", node),
      ("variant", .string variant)], armScrutineePattern arm variant, leaf⟩
  | none => do
    let leaf ← simpleArmLeaf P variant payload.typeHash arm.binding
    return ⟨.object [("binding_name", (arm.binding.map .string).getD .null), ("body", .string body),
      ("variant", .string variant)], armScrutineePattern arm variant, leaf⟩

/-- Check that at every level there is one pattern that matches everything, or patterns over
variants only. -/
def checkPatternsWellFormed (matchType : Hash) (patterns : List RawPattern) : Except Error Unit :=
  let catchAlls := patterns.countP RawPattern.isCatchAll
  let named := patterns.any (! ·.isCatchAll)
  if catchAlls > 1 then
    .error "duplicate catch-all pattern: a binding or `_` already matches every value here"
  else if catchAlls ≥ 1 ∧ named then
    .error ("a binding/`_` pattern cannot be mixed with variant patterns at the same level " ++
      "(to match a nullary variant use `v(_)`)")
  else if !named then .ok ()
  else do
    match ← typeSpecInRoot P objects root matchType with
    | .enum variants =>
      variants.forM fun variant =>
        let subs := subPatterns variant.name patterns
        if _named : subs ≠ [] then checkPatternsWellFormed variant.typeHash subs else .ok ()
    | _ => .error "variant pattern requires an enum payload"
termination_by totalDepth patterns
decreasing_by exact totalDepth_subPatterns_lt _named

/-- Patterns cover every value of a type: there is one that matches everything, or every
variant is covered by what they ask of its payload. -/
def patternsExhaustive (matchType : Hash) (patterns : List RawPattern) : Except Error Bool :=
  if patterns.any RawPattern.isCatchAll then .ok true
  else do
    match ← typeSpecInRoot P objects root matchType with
    | .enum variants =>
      variants.allM fun variant =>
        let subs := subPatterns variant.name patterns
        if _named : subs ≠ [] then patternsExhaustive variant.typeHash subs else .ok false
    | _ => .ok false
termination_by totalDepth patterns
decreasing_by exact totalDepth_subPatterns_lt _named

end Checks

end CodeDb

import CodeDb.Language.StoredTypes
import CodeDb.Lib.Settling
import Mathlib.Data.Finset.Insert
import Mathlib.Logic.Relation

/-!
# Instances of generic types

A named type at arguments is an instance of its definition. Substitution gives the types of its
members, which were not written anywhere, so they are stored when the instance is used; and so are
those of the instances that its members lead to, one level after the other.

Instances that were seen are not expanded again, and a chain of instances, each one a member of the
one before, must not grow beyond a limit.

## Main definitions

* `Instance` — a named type at arguments
* `materializeInstance` — store the types of the members, and of the members of nested instances
* `Instance.Nested`, `Instance.Reaches` — what instances an instance leads to
* `Instance.Expands` — as far as each of them has type arguments
* `Instance.MembersAre` — what holds of the types of all members
-/

namespace CodeDb

open Relation

/-- A named type at arguments. -/
structure Instance where
  typeSymbol : Hash
  regionArgs : List Hash
  typeArgs : List Hash
  deriving DecidableEq

namespace Instance

def spec (i : Instance) : TypeSpec := .named i.typeSymbol i.regionArgs i.typeArgs

end Instance

/-! ### Storing what is seen -/

/-- Why an expansion does not succeed. -/
inductive ExpansionError where
  /-- There was not enough fuel to tell. -/
  | unfinished
  | depthLimit (typeSymbol : Hash)
  | failed (message : Error)

/-- What is told of an error. -/
def ExpansionError.message : ExpansionError → Option Error
  | .unfinished => none
  | .depthLimit typeSymbol => some ("generic type instantiation exceeds the depth limit (" ++
      toString genericInstantiationDepthLimit ++ ") at " ++ typeSymbol ++
      ": a recursive generic whose type arguments grow each level (polymorphic recursion) does " ++
      "not converge")
  | .failed message => some message

/-- The instances that were seen, by their hashes, and the store. -/
structure Expansion where
  seen : Finset Hash
  objects : Objects

abbrev ExpandM := StateT Expansion (Except ExpansionError)

namespace ExpandM

variable {α : Type}

def ofExcept (result : Except Error α) : ExpandM α := fun s =>
  match result with
  | .ok a => .ok (a, s)
  | .error message => .error (.failed message)

instance : MonadLift (Except Error) ExpandM := ⟨ofExcept⟩

/-- Read from the store. -/
def fetch (read : Objects → Except Error α) : ExpandM α := fun s => ofExcept (read s.objects) s

/-- Store an object, and return its hash. -/
def put (P : Primitives) (kind : String) (payload : JsonValue) : ExpandM Hash := fun s =>
  .ok ((putObject P s.objects kind payload).1,
    { s with objects := (putObject P s.objects kind payload).2 })

/-- See an instance, and tell whether it is new. -/
def visit (hash : Hash) : ExpandM Bool := fun s =>
  .ok (decide (hash ∉ s.seen), { s with seen := insert hash s.seen })

end ExpandM

open ExpandM

section Model

variable (P : Primitives)

def putStructuralType (spec : TypeSpec) : ExpandM Hash := do
  let payload ← typePayloadForSpec spec
  put P "Type" payload

/-- Store a type with regions and type parameters substituted. -/
def putSubstitutedType (regions : SortedMap Hash Hash) (args : List Hash) :
    Nat → Hash → ExpandM Hash
  | 0, _ => throw .unfinished
  | fuel + 1, hash =>
    if regions.entries.isEmpty && args.isEmpty then return hash
    else do
      let recurse := putSubstitutedType regions args fuel
      let region (r : Hash) : Hash := (regions.get? r).getD r
      let fields := fun (members : List TypeFieldSpec) => members.mapM fun f => do
        return (⟨f.name, ← recurse f.typeHash⟩ : TypeFieldSpec)
      match ← fetch fun objects => typeSpec P objects hash with
      | .builtin _ => return hash
      | .typeParam index =>
        JsonValue.require ("type parameter " ++ toString index ++ " has no substitution argument")
          args[index]?
      | .named typeSymbol regionArgs typeArgs => do
        putStructuralType P (.named typeSymbol (regionArgs.map region) (← typeArgs.mapM recurse))
      | .reference r isMut referent => do
        putStructuralType P (.reference (region r) isMut (← recurse referent))
      | .rawPointer isMut pointee => do
        putStructuralType P (.rawPointer isMut (← recurse pointee))
      | .box element => do putStructuralType P (.box (← recurse element))
      | .vec element => do putStructuralType P (.vec (← recurse element))
      | .string => putStructuralType P .string
      | .slice r isMut element => do
        putStructuralType P (.slice (region r) isMut (← recurse element))
      | .fixedArray element len => do putStructuralType P (.fixedArray (← recurse element) len)
      | .record members => do putStructuralType P (.record (← fields members))
      | .enum members => do putStructuralType P (.enum (← fields members))

variable (root : ProgramRootPayload)

/-- The definition of an instance, and what is substituted for its parameters. -/
def namedTypeDefinitionWithArgs (objects : Objects) (i : Instance) :
    Except Error (TypeDefinition × SortedMap Hash Hash × List Hash) :=
  match rootType root i.typeSymbol with
  | none => .error ("named type missing from root " ++ i.typeSymbol)
  | some entry => do
    let definition ← typeDefinition P objects entry.typeDef
    let body := definition.body
    if body.regionParams.length ≠ i.regionArgs.length then
      .error ("named type " ++ i.typeSymbol ++ " expects " ++ toString body.regionParams.length ++
        " region args, got " ++ toString i.regionArgs.length)
    else if body.typeParams.length ≠ i.typeArgs.length then
      .error ("named type " ++ i.typeSymbol ++ " expects " ++ toString body.typeParams.length ++
        " type args, got " ++ toString i.typeArgs.length)
    else
      let regions := (body.regionParams.zip i.regionArgs).foldl
        (fun m (param, arg) => m.insert param.region arg) (∅ : SortedMap Hash Hash)
      .ok (definition, regions, i.typeArgs)

mutual

/-- Store the types of the members of an instance, and of the instances nested in them. -/
def materializeInstance : Nat → Instance → Nat → ExpandM Unit
  | 0, _, _ => throw .unfinished
  | fuel + 1, i, depth =>
    if depth > genericInstantiationDepthLimit then throw (.depthLimit i.typeSymbol)
    else do
      let instanceHash ← putStructuralType P i.spec
      if ← visit instanceHash then do
        let (definition, regions, args) ← fetch fun objects =>
          namedTypeDefinitionWithArgs P root objects i
        definition.body.members.forM fun member => do
          let substituted ← putSubstitutedType P regions args fuel member.typeHash
          materializeNestedInstances fuel substituted (depth + 1)
      else return

/-- Store what the instances in a type are made of. -/
def materializeNestedInstances : Nat → Hash → Nat → ExpandM Unit
  | 0, _, _ => throw .unfinished
  | fuel + 1, typeHash, depth => do
    match ← fetch fun objects => typeSpec P objects typeHash with
    | .named typeSymbol regionArgs typeArgs =>
      if !typeArgs.isEmpty then materializeInstance fuel ⟨typeSymbol, regionArgs, typeArgs⟩ depth
      else return
    | .box element | .vec element | .fixedArray element _ | .slice _ _ element
    | .reference _ _ element | .rawPointer _ element =>
      materializeNestedInstances fuel element depth
    | .record members | .enum members =>
      members.forM fun member => materializeNestedInstances fuel member.typeHash depth
    | .builtin _ | .string | .typeParam _ => return

end

end Model

/-! ### What a type is made of -/

/-- The types that a type is made of. -/
def TypeSpec.components : TypeSpec → List Hash
  | .builtin _ | .typeParam _ | .string => []
  | .named _ _ typeArgs => typeArgs
  | .reference _ _ inner | .rawPointer _ inner | .box inner | .vec inner | .slice _ _ inner
  | .fixedArray inner _ => [inner]
  | .record members | .enum members => members.map (·.typeHash)

/-- The types that values of a type hold or point to, as far as the type itself tells. -/
def TypeSpec.contents : TypeSpec → List Hash
  | .named _ _ _ => []
  | spec => spec.components

section Types

variable (P : Primitives) (objects : Objects)

def IsStored (type : Hash) : Prop := ∃ spec, typeSpec P objects type = .ok spec

/-- A type is stored, and everything that it is made of. -/
inductive StoredType : Hash → Prop where
  | intro {type : Hash} {spec : TypeSpec} (read : typeSpec P objects type = .ok spec)
      (parts : ∀ part ∈ spec.components, StoredType part) : StoredType type

/-- A type is made of another one. -/
def HasPart (type part : Hash) : Prop :=
  ∃ spec, typeSpec P objects type = .ok spec ∧ part ∈ spec.components

/-- What a type is, where it is stored. -/
def Shows (type : Hash) (spec : TypeSpec) : Prop :=
  ∃ later, Grows P objects later ∧ typeSpec P later type = .ok spec

/-- Values of a type hold or point to those of another one. -/
def Contains (type part : Hash) : Prop := ∃ spec, Shows P objects type spec ∧ part ∈ spec.contents

/-- An instance is found in a type, through boxes, vecs, arrays, slices, references, raw pointers
and inline records and enums. -/
def LeadsTo (type : Hash) (i : Instance) : Prop :=
  ∃ inner, ReflTransGen (Contains P objects) type inner ∧ Shows P objects inner i.spec

/-- A type is what a template is for regions and type arguments. -/
def Substitutes (regions : SortedMap Hash Hash) (args : List Hash) (template type : Hash) : Prop :=
  ∃ depth, substituteTypeHash P objects regions args depth template = .ok type

/-- All definitions are stored, and the types of their members. -/
def TypesStored (root : ProgramRootPayload) : Prop :=
  ∀ entry ∈ root.types, ∃ definition, typeDefinition P objects entry.typeDef = .ok definition ∧
    ∀ member ∈ definition.body.members, StoredType P objects member.typeHash

end Types

/-! ### Instances -/

namespace Instance

variable (P : Primitives) (objects : Objects) (root : ProgramRootPayload)

/-- A member of an instance has a type. -/
def MemberType (i : Instance) (type : Hash) : Prop :=
  ∃ definition regions args,
    namedTypeDefinitionWithArgs P root objects i = .ok (definition, regions, args) ∧
      ∃ member ∈ definition.body.members, Substitutes P objects regions args member.typeHash type

/-- All members of an instance have types of which something holds. -/
def MembersAre (holds : Hash → Prop) (i : Instance) : Prop :=
  ∃ definition regions args,
    namedTypeDefinitionWithArgs P root objects i = .ok (definition, regions, args) ∧
      ∀ member ∈ definition.body.members, ∃ type,
        Substitutes P objects regions args member.typeHash type ∧ holds type

/-- A member of an instance leads to another one. -/
def Nested (i j : Instance) : Prop :=
  ∃ type, MemberType P objects root i type ∧ LeadsTo P objects type j

/-- The instances that an instance leads to. -/
def Reaches : Instance → Instance → Prop := ReflTransGen (Nested P objects root)

/-- The instances that an instance leads to by way of instances with type arguments. -/
def Expands : Instance → Instance → Prop :=
  ReflTransGen fun i j => Nested P objects root i j ∧ j.typeArgs ≠ []

/-- A type is an instance, or is made for a part of the type of one of its members. -/
def Writes (i : Instance) (type : Hash) : Prop :=
  hashForTypeSpec P i.spec = .ok type ∨ ∃ definition regions args,
    namedTypeDefinitionWithArgs P root objects i = .ok (definition, regions, args) ∧
      ∃ member ∈ definition.body.members, ∃ part,
        ReflTransGen (HasPart P objects) member.typeHash part ∧
          Substitutes P objects regions args part type

end Instance

end CodeDb

import CodeDb.Language.Expressions
import CodeDb.Lib.SortedMap

/-!
# Types

A type is an object too, except that the builtin ones are known by their hashes. The
types a type is made of are given by hash, so a type can be substituted into without
being stored. A named type stands for its definition in a root, at its arguments.

## Main definitions

* `TypeSpec`, `typeSpec` — a type, and reading one
* `substituteTypeHash` — the hash of a type at regions and type arguments
* `typeSpecInRoot` — a type with a named one resolved
* `typeIsConcrete` — no type parameter occurs
-/

namespace CodeDb

open SortOn

/-! ### Sized integers -/

/-- A sized integer type: its width in bytes, and whether it has a sign. -/
structure ScalarIntType where
  name : String
  width : Nat
  signed : Bool
  deriving DecidableEq

def scalarIntTypes : List ScalarIntType :=
  [⟨"I8", 1, true⟩, ⟨"I16", 2, true⟩, ⟨"I32", 4, true⟩, ⟨"I64", 8, true⟩,
    ⟨"U8", 1, false⟩, ⟨"U16", 2, false⟩, ⟨"U32", 4, false⟩, ⟨"U64", 8, false⟩]

def i64 : ScalarIntType := ⟨"I64", 8, true⟩

def u8 : ScalarIntType := ⟨"U8", 1, false⟩

/-- The sized integer type of a name. -/
def scalarIntType (name : String) : Option ScalarIntType :=
  scalarIntTypes.find? (·.name == name)

/-! ### Types -/

structure TypeFieldSpec where
  name : String
  typeHash : Hash
  deriving DecidableEq

/-- A type, over the hashes of the types it is made of. -/
inductive TypeSpec where
  | builtin (kind : String)
  | named (typeSymbol : Hash) (regionArgs typeArgs : List Hash)
  | typeParam (index : Nat)
  | reference (region : Hash) (isMut : Bool) (referent : Hash)
  | rawPointer (isMut : Bool) (pointee : Hash)
  | box (element : Hash)
  | vec (element : Hash)
  | string
  | slice (region : Hash) (isMut : Bool) (element : Hash)
  | fixedArray (element : Hash) (len : Nat)
  | record (fields : List TypeFieldSpec)
  | enum (variants : List TypeFieldSpec)
  deriving DecidableEq

def validateTypeHashText (label : String) (hash : Hash) : Except Error Unit :=
  if hasHashPrefix hash then .ok () else .error (label ++ " type must be a hash")

def validateRegionArg (arg : Hash) : Except Error Unit :=
  if hasHashPrefix arg then .ok () else .error "region argument must be a region hash"

/-- The fields of a record type or the variants of an enum type in their order. -/
def canonicalTypeFields (label : String) (fields : List TypeFieldSpec) :
    Except Error (List TypeFieldSpec) := do
  if fields.isEmpty then .error (label ++ "s must not be empty")
  else do
    validateDistinct (fun f => validateProjectionIdentifier label f.name) (·.name)
      (fun name => "duplicate " ++ label ++ " " ++ name) fields []
    return sortOn (·.name) fields

/-- The JSON form of a type of a kind. -/
def typeFieldsValue (fields : List TypeFieldSpec) : JsonValue :=
  .array (fields.map fun f => .object [("name", .string f.name), ("type", .string f.typeHash)])

/-- The payload of a type. -/
def typePayloadForSpec : TypeSpec → Except Error JsonValue
  | .builtin kind => .ok (.object [("type_kind", .string kind)])
  | .named typeSymbol regionArgs typeArgs => do
    validateEach validateRegionArg regionArgs
    validateEach (validateTypeHashText "named type argument") typeArgs
    return .object ([("region_args", .strings regionArgs)] ++
      listEntry .string "type_args" typeArgs ++
      [("type_kind", .string "Named"), ("type_symbol", .string typeSymbol)])
  | .typeParam index =>
    .ok (.object [("index", .number (.posInt (.ofNat index))), ("type_kind", .string "TypeParam")])
  | .reference region isMut referent => do
    validateRegionArg region
    validateTypeHashText "reference referent" referent
    return .object [("mutable", .bool isMut), ("referent", .string referent),
      ("region", .string region), ("type_kind", .string "Reference")]
  | .rawPointer isMut pointee => do
    validateTypeHashText "raw pointer pointee" pointee
    return .object [("mutable", .bool isMut), ("pointee", .string pointee),
      ("type_kind", .string "RawPointer")]
  | .box element => do
    validateTypeHashText "box element" element
    return .object [("element", .string element), ("type_kind", .string "Box")]
  | .vec element => do
    validateTypeHashText "vec element" element
    return .object [("element", .string element), ("type_kind", .string "Vec")]
  | .string => .ok (.object [("type_kind", .string "String")])
  | .slice region isMut element => do
    validateRegionArg region
    validateTypeHashText "slice element" element
    return .object [("element", .string element), ("mutable", .bool isMut),
      ("region", .string region), ("type_kind", .string "Slice")]
  | .fixedArray element len => do
    validateTypeHashText "fixed array element" element
    return .object [("element", .string element), ("len", .number (.posInt (.ofNat len))),
      ("type_kind", .string "FixedArray")]
  | .record fields => do
    let fields ← canonicalTypeFields "record field" fields
    return .object [("fields", typeFieldsValue fields), ("type_kind", .string "Record")]
  | .enum variants => do
    let variants ← canonicalTypeFields "enum variant" variants
    return .object [("type_kind", .string "Enum"), ("variants", typeFieldsValue variants)]

/-- The hash of a type. -/
def hashForTypeSpec (P : Primitives) (spec : TypeSpec) : Except Error Hash := do
  let payload ← typePayloadForSpec spec
  return objectHash P "Type" payload

def typeFieldsFromPayload (label : String) : Option JsonValue → Except Error (List TypeFieldSpec)
  | some (.array values) => do
    let fields ← values.mapM fun entry => do
      let name ← entry.getStr "name" (label ++ " missing name")
      validateProjectionIdentifier label name
      let typeHash ← entry.getStr "type" (label ++ " missing type")
      return (⟨name, typeHash⟩ : TypeFieldSpec)
    canonicalTypeFields label fields
  | _ => .error (label ++ "s must be an array")

/-- A list of strings under a key that may be missing. -/
def optionalStrings (v : JsonValue) (key : String) (notArray notString : Error) :
    Except Error (List String) :=
  match v.get? key with
  | some (.array values) => JsonValue.getStrings notString values
  | some _ => .error notArray
  | none => .ok []

/-- Read a type. -/
def typeSpecFromPayload (payload : JsonValue) : Except Error TypeSpec := do
  let kind ← payload.getStr "type_kind" "Type object missing type_kind"
  let missing (key : String) : Error := kind ++ " Type object missing " ++ key
  let flag (key : String) : Except Error Bool :=
    JsonValue.require (missing key) (JsonValue.asBool? (payload.get? key))
  let typeHash (key label : String) : Except Error Hash := do
    let hash ← payload.getStr key (missing key)
    validateTypeHashText label hash
    return hash
  let region : Except Error Hash := do
    let region ← payload.getStr "region" (missing "region")
    validateRegionArg region
    return region
  match kind with
  | "Bool" | "Unit" => return .builtin kind
  | "Named" => do
    let typeSymbol ← payload.getStr "type_symbol" (missing "type_symbol")
    let regionArgs ← optionalStrings payload "region_args" "Named Type region_args must be an array"
      "Named Type region arg must be string"
    validateEach validateRegionArg regionArgs
    let typeArgs ← optionalStrings payload "type_args" "Named Type type_args must be an array"
      "Named Type type arg must be string"
    validateEach (validateTypeHashText "named type argument") typeArgs
    return .named typeSymbol regionArgs typeArgs
  | "TypeParam" => do
    let index ← JsonValue.require (missing "index") (JsonValue.asU64? (payload.get? "index"))
    if index < 2 ^ 32 then return .typeParam index
    else .error ("TypeParam index " ++ toString index ++ " out of range")
  | "Reference" => do
    let region ← region
    let isMut ← flag "mutable"
    return .reference region isMut (← typeHash "referent" "reference referent")
  | "RawPointer" => do
    let isMut ← flag "mutable"
    return .rawPointer isMut (← typeHash "pointee" "raw pointer pointee")
  | "Box" => do return .box (← typeHash "element" "box element")
  | "Vec" => do return .vec (← typeHash "element" "vec element")
  | "String" => return .string
  | "Slice" => do
    let region ← region
    let isMut ← flag "mutable"
    return .slice region isMut (← typeHash "element" "slice element")
  | "FixedArray" => do
    let element ← typeHash "element" "fixed array element"
    let len ← JsonValue.require (missing "len") (JsonValue.asU64? (payload.get? "len"))
    return .fixedArray element len
  | "Record" => do return .record (← typeFieldsFromPayload "record field" (payload.get? "fields"))
  | "Enum" => do return .enum (← typeFieldsFromPayload "enum variant" (payload.get? "variants"))
  | other =>
    if (scalarIntType other).isSome then return .builtin other
    else .error ("unknown Type object kind " ++ other)

section Reading

variable (P : Primitives) (objects : Objects)

/-- The sized integer type of a hash. -/
def scalarIntTypeByHash (hash : Hash) : Option ScalarIntType :=
  scalarIntTypes.find? fun t => hash == typeHashFor P t.name

/-- The type of a hash. -/
def typeSpec (hash : Hash) : Except Error TypeSpec :=
  match scalarIntTypeByHash P hash with
  | some int => .ok (.builtin int.name)
  | none =>
    if hash = typeHashFor P "Bool" then .ok (.builtin "Bool")
    else if hash = typeHashFor P "Unit" then .ok (.builtin "Unit")
    else do
      let kind ← getKind objects hash
      if kind ≠ "Type" then .error ("type hash points to non-Type object " ++ hash)
      else do
        let payload ← getPayload P objects hash
        typeSpecFromPayload payload

/-- How deep types may be nested: no deeper than there are objects, and a builtin type. -/
def typeDepth : Nat := objects.entries.length + 1

/-! ### Names -/

/-- The source of a type, with regions and named types shown by their hashes. -/
def typeNameFrom : Nat → Hash → Except Error String
  | 0, hash => .error ("type " ++ hash ++ " does not end")
  | depth + 1, hash => do
    let recurse := typeNameFrom depth
    let mutable (isMut : Bool) (plain marked : String) : String := if isMut then marked else plain
    let members := fun (members : List TypeFieldSpec) => do
      let shown ← members.mapM fun m => do return m.name ++ ": " ++ (← recurse m.typeHash)
      return " \x7b" ++ String.intercalate ", " shown ++ "\x7d"
    match ← typeSpec P objects hash with
    | .builtin kind => return kind.toLower
    | .typeParam index => return "typeparam<" ++ toString index ++ ">"
    | .named typeSymbol regionArgs typeArgs =>
      let args := regionArgs ++ typeArgs.map fun arg => "type<" ++ arg ++ ">"
      return if args.isEmpty then "type<" ++ typeSymbol ++ ">"
        else "type<" ++ typeSymbol ++ "<" ++ String.intercalate ", " args ++ ">>"
    | .reference region isMut referent => do
      return "&'" ++ region ++ mutable isMut " " " mut " ++ (← recurse referent)
    | .rawPointer isMut pointee => do
      return mutable isMut "raw_ptr<" "raw_mut_ptr<" ++ (← recurse pointee) ++ ">"
    | .box element => do return "box<" ++ (← recurse element) ++ ">"
    | .vec element => do return "vec<" ++ (← recurse element) ++ ">"
    | .string => return "string"
    | .slice region isMut element => do
      return mutable isMut "slice<'" "mut_slice<'" ++ region ++ ", " ++ (← recurse element) ++ ">"
    | .fixedArray element len => do
      return "array<" ++ (← recurse element) ++ ", " ++ toString len ++ ">"
    | .record fields => do return "record" ++ (← members fields)
    | .enum variants => do return "enum" ++ (← members variants)

/-- The source of a type. -/
def typeName (hash : Hash) : Except Error String := typeNameFrom P objects (typeDepth objects) hash

/-! ### Substitution -/

/-- The hash of a type with regions and type parameters substituted. -/
def substituteTypeHash (regions : SortedMap Hash Hash) (args : List Hash) :
    Nat → Hash → Except Error Hash
  | 0, hash => .error ("type " ++ hash ++ " does not end")
  | depth + 1, hash =>
    if regions.entries.isEmpty && args.isEmpty then .ok hash
    else do
      let recurse := substituteTypeHash regions args depth
      let region (r : Hash) : Hash := (regions.get? r).getD r
      let fields := fun (members : List TypeFieldSpec) => members.mapM fun f => do
        return (⟨f.name, ← recurse f.typeHash⟩ : TypeFieldSpec)
      match ← typeSpec P objects hash with
      | .builtin _ => return hash
      | .typeParam index =>
        JsonValue.require ("type parameter " ++ toString index ++ " has no substitution argument")
          args[index]?
      | .named typeSymbol regionArgs typeArgs => do
        hashForTypeSpec P (.named typeSymbol (regionArgs.map region) (← typeArgs.mapM recurse))
      | .reference r isMut referent => do
        hashForTypeSpec P (.reference (region r) isMut (← recurse referent))
      | .rawPointer isMut pointee => do hashForTypeSpec P (.rawPointer isMut (← recurse pointee))
      | .box element => do hashForTypeSpec P (.box (← recurse element))
      | .vec element => do hashForTypeSpec P (.vec (← recurse element))
      | .string => hashForTypeSpec P .string
      | .slice r isMut element => do
        hashForTypeSpec P (.slice (region r) isMut (← recurse element))
      | .fixedArray element len => do hashForTypeSpec P (.fixedArray (← recurse element) len)
      | .record members => do hashForTypeSpec P (.record (← fields members))
      | .enum members => do hashForTypeSpec P (.enum (← fields members))

/-- The members of a definition at regions and type arguments. -/
def substituteMembers (regions : SortedMap Hash Hash) (args : List Hash)
    (members : List TypeMemberDef) : Except Error (List TypeFieldSpec) :=
  members.mapM fun m => do
    let typeHash ← substituteTypeHash P objects regions args (typeDepth objects) m.typeHash
    return ⟨m.name, typeHash⟩

/-- The type of a hash, with a named type resolved in a root. -/
def typeSpecInRoot (root : ProgramRootPayload) (hash : Hash) : Except Error TypeSpec := do
  match ← typeSpec P objects hash with
  | .named typeSymbol regionArgs typeArgs =>
    match rootType root typeSymbol with
    | none => .error ("named type missing from root " ++ typeSymbol)
    | some entry => do
      let definition ← typeDefinition P objects entry.typeDef
      let body := definition.body
      if body.regionParams.length ≠ regionArgs.length then
        .error ("named type " ++ typeSymbol ++ " expects " ++ toString body.regionParams.length ++
          " region args, got " ++ toString regionArgs.length)
      else if body.typeParams.length ≠ typeArgs.length then
        .error ("named type " ++ typeSymbol ++ " expects " ++ toString body.typeParams.length ++
          " type args, got " ++ toString typeArgs.length)
      else do
        let regions := (body.regionParams.zip regionArgs).foldl
          (fun m (param, arg) => m.insert param.region arg) (∅ : SortedMap Hash Hash)
        let members ← substituteMembers P objects regions typeArgs body.members
        return match definition with
          | .record _ => .record members
          | .enum _ => .enum members
  | other => return other

/-- No type parameter occurs in a type. -/
def typeIsConcrete : Nat → Hash → Except Error Bool
  | 0, hash => .error ("type " ++ hash ++ " does not end")
  | depth + 1, hash => do
    let every := fun (hashes : List Hash) => do
      return (← hashes.mapM (typeIsConcrete depth)).all id
    match ← typeSpec P objects hash with
    | .typeParam _ => return false
    | .builtin _ | .string => return true
    | .named _ _ typeArgs => every typeArgs
    | .reference _ _ inner | .rawPointer _ inner | .box inner | .vec inner | .slice _ _ inner
    | .fixedArray inner _ => typeIsConcrete depth inner
    | .record members | .enum members => every (members.map (·.typeHash))

end Reading

end CodeDb

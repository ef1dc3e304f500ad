import CodeDb.Language.Values

/-!
# The registry of lowered operators

Every operator of the language is lowered to a kind of its own for each type it works on. The
registry lists the kinds and what they mean.

## Main definitions

* `KindSem` — what an operator of a kind does
* `opKinds` — the registry
* `semForKind` — a kind is looked up
* `OpEntry`, `ops` — the registry with all that it says of an operator

## Main results

* `semForKind_ops` — an operator is found under its kind
-/

namespace CodeDb

/-- What an operator does. One on integers comes with their type. -/
inductive KindSem where
  | arith (op : ArithOp) (int : ScalarIntType)
  | cmp (op : Cmp) (int : ScalarIntType)
  | bit (op : BitOp) (int : ScalarIntType)
  | shift (op : ShiftOp) (int : ScalarIntType)
  | neg (int : ScalarIntType)
  | bitNot (int : ScalarIntType)
  | andBool
  | orBool
  | notBool

/-- The operators on integers of a type, under their verbs. -/
def intKinds (int : ScalarIntType) : List (String × KindSem) :=
  [("add", .arith .add int), ("sub", .arith .sub int), ("mul", .arith .mul int),
    ("div", .arith .div int), ("mod", .arith .rem int), ("and", .bit .and int),
    ("or", .bit .or int), ("xor", .bit .xor int), ("shl", .shift .shl int),
    ("shr", .shift .shr int), ("eq", .cmp .eq int), ("ne", .cmp .ne int), ("lt", .cmp .lt int),
    ("le", .cmp .le int), ("gt", .cmp .gt int), ("ge", .cmp .ge int), ("neg", .neg int),
    ("bitnot", .bitNot int)]

/-- The registry. -/
def opKinds : List (String × KindSem) :=
  [("and_bool", .andBool), ("or_bool", .orBool), ("not_bool", .notBool)] ++
    scalarIntTypes.flatMap fun int =>
      (intKinds int).map fun (verb, sem) => (verb ++ "_" ++ int.name.toLower, sem)

def semForKind (kind : String) : Option KindSem := opKinds.lookup kind

/-! ### Entries -/

inductive OpCategory where
  | binary | unary
  deriving DecidableEq

/-- Where an operator traps. -/
structure TrapSpec where
  condition : String
  code : String
  deriving DecidableEq

def divTrap : TrapSpec := ⟨"right_operand_zero", "division_by_zero"⟩

def modTrap : TrapSpec := ⟨"right_operand_zero", "modulo_by_zero"⟩

/-- An operator. Types are named; a unary one has no type on the right. -/
structure OpEntry where
  kind : String
  category : OpCategory
  sourceOp : String
  leftType : String
  rightType : String
  resultType : String
  trap : Option TrapSpec
  sem : KindSem

def boolOps : List OpEntry :=
  [⟨"and_bool", .binary, "&&", "Bool", "Bool", "Bool", none, .andBool⟩,
    ⟨"or_bool", .binary, "||", "Bool", "Bool", "Bool", none, .orBool⟩,
    ⟨"not_bool", .unary, "!", "Bool", "", "Bool", none, .notBool⟩]

/-- The operators on integers of a type. -/
def intEntries (int : ScalarIntType) : List OpEntry :=
  let kind (verb : String) := verb ++ "_" ++ int.name.toLower
  let same (verb src : String) (trap : Option TrapSpec) (sem : KindSem) : OpEntry :=
    ⟨kind verb, .binary, src, int.name, int.name, int.name, trap, sem⟩
  let compare (verb src : String) (sem : KindSem) : OpEntry :=
    ⟨kind verb, .binary, src, int.name, int.name, "Bool", none, sem⟩
  let un (verb src : String) (sem : KindSem) : OpEntry :=
    ⟨kind verb, .unary, src, int.name, "", int.name, none, sem⟩
  [same "add" "+" none (.arith .add int), same "sub" "-" none (.arith .sub int),
    same "mul" "*" none (.arith .mul int), same "div" "/" (some divTrap) (.arith .div int),
    same "mod" "%" (some modTrap) (.arith .rem int), same "and" "&" none (.bit .and int),
    same "or" "|" none (.bit .or int), same "xor" "^" none (.bit .xor int),
    same "shl" "<<" none (.shift .shl int), same "shr" ">>" none (.shift .shr int),
    compare "eq" "==" (.cmp .eq int), compare "ne" "!=" (.cmp .ne int),
    compare "lt" "<" (.cmp .lt int), compare "le" "<=" (.cmp .le int),
    compare "gt" ">" (.cmp .gt int), compare "ge" ">=" (.cmp .ge int),
    un "neg" "-" (.neg int), un "bitnot" "~" (.bitNot int)]

def ops : List OpEntry := boolOps ++ scalarIntTypes.flatMap intEntries

theorem map_ops : ops.map (fun entry => (entry.kind, entry.sem)) = opKinds := by
  have ints (int : ScalarIntType) : (intEntries int).map (fun entry => (entry.kind, entry.sem)) =
      (intKinds int).map fun (verb, sem) => (verb ++ "_" ++ int.name.toLower, sem) := rfl
  rw [ops, opKinds, List.map_append, List.map_flatMap]
  simp only [ints]
  rfl

/-- No two operators have the same kind. -/
theorem opKinds_nodup : (opKinds.map Prod.fst).Nodup := by decide +kernel

/-- An operator is found under its kind. -/
theorem semForKind_ops {entry : OpEntry} (listed : entry ∈ ops) :
    semForKind entry.kind = some entry.sem := by
  rw [semForKind, SortOn.lookup_eq_some_iff opKinds_nodup, ← map_ops]
  exact List.mem_map_of_mem listed

end CodeDb

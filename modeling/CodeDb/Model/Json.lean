import CodeDb.Lib.SortOn
import Mathlib.Data.String.Basic

/-!
# JSON values

The values the database stores: the payloads of objects, the metadata of a
program root, the details of a conflict. A number is an unsigned or a negative
machine integer or the bits of a double, and an object lists its entries in
increasing order of key.

The program compares values as JSON: doubles are compared as numbers, so the two
zeros are one value, and the keys of an object come in any order.

## Main definitions

* `JsonValue.normal` — a value with the keys of its objects in order
* `SameValue` — equality of values, as the program compares them
-/

namespace CodeDb

open SortOn

/-- A JSON number. -/
inductive JsonNumber where
  | posInt (n : UInt64)
  | negInt (n : Int64)
  | float (bits : UInt64)
  deriving DecidableEq, Repr

/-- A JSON value. -/
inductive JsonValue where
  | null
  | bool (b : Bool)
  | number (n : JsonNumber)
  | string (s : String)
  | array (values : List JsonValue)
  | object (entries : List (String × JsonValue))
  deriving Repr

namespace JsonValue

mutual

/-- Equality of values, by structural comparison. -/
def decEq : (a b : JsonValue) → Decidable (a = b)
  | .null, .null => isTrue rfl
  | .bool a, .bool b => decidable_of_iff (a = b) (by simp)
  | .number a, .number b => decidable_of_iff (a = b) (by simp)
  | .string a, .string b => decidable_of_iff (a = b) (by simp)
  | .array a, .array b => @decidable_of_iff _ (a = b) (by simp) (decEqList a b)
  | .object a, .object b => @decidable_of_iff _ (a = b) (by simp) (decEqEntries a b)
  | .null, .bool _ | .null, .number _ | .null, .string _ | .null, .array _
  | .null, .object _ => isFalse (by simp)
  | .bool _, .null | .bool _, .number _ | .bool _, .string _ | .bool _, .array _
  | .bool _, .object _ => isFalse (by simp)
  | .number _, .null | .number _, .bool _ | .number _, .string _ | .number _, .array _
  | .number _, .object _ => isFalse (by simp)
  | .string _, .null | .string _, .bool _ | .string _, .number _ | .string _, .array _
  | .string _, .object _ => isFalse (by simp)
  | .array _, .null | .array _, .bool _ | .array _, .number _ | .array _, .string _
  | .array _, .object _ => isFalse (by simp)
  | .object _, .null | .object _, .bool _ | .object _, .number _ | .object _, .string _
  | .object _, .array _ => isFalse (by simp)

/-- Equality of lists of values. -/
def decEqList : (a b : List JsonValue) → Decidable (a = b)
  | [], [] => isTrue rfl
  | [], _ :: _ | _ :: _, [] => isFalse (by simp)
  | a :: as, b :: bs =>
    @decidable_of_iff _ (a = b ∧ as = bs) (by simp)
      (@instDecidableAnd _ _ (decEq a b) (decEqList as bs))

/-- Equality of lists of object entries. -/
def decEqEntries : (a b : List (String × JsonValue)) → Decidable (a = b)
  | [], [] => isTrue rfl
  | [], _ :: _ | _ :: _, [] => isFalse (by simp)
  | (k, a) :: as, (l, b) :: bs =>
    @decidable_of_iff _ (k = l ∧ a = b ∧ as = bs) (by simp [and_assoc])
      (@instDecidableAnd _ _ _ (@instDecidableAnd _ _ (decEq a b) (decEqEntries as bs)))

end

instance : DecidableEq JsonValue := decEq

instance : Inhabited JsonValue := ⟨.null⟩

section Normal

variable (onFloat : UInt64 → UInt64)

mutual

/-- A value with the keys of its objects in order, and its doubles replaced. -/
def normal : JsonValue → JsonValue
  | .number (.float bits) => .number (.float (onFloat bits))
  | .array values => .array (normalValues values)
  | .object entries => .object (sortOn (·.1) (normalEntries entries))
  | v => v

def normalValues : List JsonValue → List JsonValue
  | [] => []
  | v :: values => v.normal :: normalValues values

def normalEntries : List (String × JsonValue) → List (String × JsonValue)
  | [] => []
  | (key, v) :: entries => (key, v.normal) :: normalEntries entries

end

end Normal

end JsonValue

/-- Zero without its sign. -/
def dropSign (bits : UInt64) : UInt64 := if bits = 0x8000000000000000 then 0 else bits

/-- Equality of values: keys in any order, and doubles compared as numbers. -/
def SameValue (a b : JsonValue) : Prop := a.normal dropSign = b.normal dropSign

instance : DecidableRel SameValue := fun _ _ => inferInstanceAs (Decidable (_ = _))

end CodeDb

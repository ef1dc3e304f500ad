import CodeDb.Lib.SortOn
import CodeDb.Lib.SortedMap
import CodeDb.Model.Json
import Mathlib.Data.Prod.Lex
import Mathlib.Order.BooleanAlgebra.Basic

/-!
# Program roots

A program root is the snapshot a migration produces: the symbols of a program
with their definitions and signatures, its types, and the parallel lists that
name, parameterise, export and test them. Everything is referred to by content
hash.

`normalizeRoot` brings every list of a root into one canonical order, which is
what makes the hash of a root independent of the order in which the operations
appended to its lists.
-/

namespace CodeDb

open SortOn

/-- A content hash, as the database spells it. -/
abbrev Hash := String

structure RootSymbolPayload where
  symbol : Hash
  definition : Hash
  signature : Hash
  deriving DecidableEq, Repr

structure RootTypePayload where
  typeSymbol : Hash
  typeDef : Hash
  deriving DecidableEq, Repr

/-- A display name of a symbol in a module. -/
structure NameBinding where
  module : String
  displayName : String
  symbol : Hash
  isPreferred : Bool
  deriving DecidableEq, Repr

/-- A display name of a type in a module. -/
structure TypeNameBinding where
  module : String
  displayName : String
  typeSymbol : Hash
  isPreferred : Bool
  deriving DecidableEq, Repr

structure ParamNames where
  symbol : Hash
  names : List String
  deriving DecidableEq, Repr

structure ExportBinding where
  symbol : Hash
  exportedName : String
  deriving DecidableEq, Repr

structure RootTestBinding where
  name : String
  test : Hash
  deriving DecidableEq, Repr

/-- The metadata of a root, by key. -/
abbrev Metadata := SortedMap String JsonValue

/-- What metadata is compared by. Metadata with the same keys and the same values under
them is equal, whatever the signs of its zeros. -/
def Metadata.value (metadata : Metadata) : JsonValue :=
  (JsonValue.object metadata.entries).normal dropSign

/-- A program root. `recursionGroups` and `typeRecursionGroups` list one content
hash for each clique of functions or of types that was created atomically. -/
structure ProgramRootPayload where
  symbols : List RootSymbolPayload
  types : List RootTypePayload
  names : List NameBinding
  typeNames : List TypeNameBinding
  paramNames : List ParamNames
  exports : List ExportBinding
  tests : List RootTestBinding
  recursionGroups : List Hash
  typeRecursionGroups : List Hash
  metadata : Metadata
  deriving DecidableEq

/-- The root of a program with nothing in it. -/
def ProgramRootPayload.empty : ProgramRootPayload where
  symbols := []
  types := []
  names := []
  typeNames := []
  paramNames := []
  exports := []
  tests := []
  recursionGroups := []
  typeRecursionGroups := []
  metadata := ∅

instance : Inhabited ProgramRootPayload := ⟨.empty⟩

/-! ### The canonical order -/

/-- What bindings of names are ordered by. -/
def NameBinding.key (b : NameBinding) : String ×ₗ String ×ₗ Hash ×ₗ Bool :=
  toLex (b.module, toLex (b.displayName, toLex (b.symbol, b.isPreferred)))

/-- What bindings of type names are ordered by. -/
def TypeNameBinding.key (b : TypeNameBinding) : String ×ₗ String ×ₗ Hash ×ₗ Bool :=
  toLex (b.module, toLex (b.displayName, toLex (b.typeSymbol, b.isPreferred)))

/-- What exports are ordered by. -/
def ExportBinding.key (b : ExportBinding) : String ×ₗ Hash := toLex (b.exportedName, b.symbol)

/-- What tests are ordered by. -/
def RootTestBinding.key (b : RootTestBinding) : String ×ₗ Hash := toLex (b.name, b.test)

theorem NameBinding.key_injective : Function.Injective NameBinding.key := by
  rintro ⟨⟩ ⟨⟩ h
  simpa [NameBinding.key] using h

theorem TypeNameBinding.key_injective : Function.Injective TypeNameBinding.key := by
  rintro ⟨⟩ ⟨⟩ h
  simpa [TypeNameBinding.key] using h

theorem ExportBinding.key_injective : Function.Injective ExportBinding.key := by
  rintro ⟨⟩ ⟨⟩ h
  simpa [ExportBinding.key, and_comm] using h

theorem RootTestBinding.key_injective : Function.Injective RootTestBinding.key := by
  rintro ⟨⟩ ⟨⟩ h
  simpa [RootTestBinding.key] using h

/-- Every list of a root in its canonical order. -/
def normalizeRoot (root : ProgramRootPayload) : ProgramRootPayload where
  symbols := sortOn (·.symbol) root.symbols
  types := sortOn (·.typeSymbol) root.types
  names := sortOn (·.key) root.names
  typeNames := sortOn (·.key) root.typeNames
  paramNames := sortOn (·.symbol) root.paramNames
  exports := sortOn (·.key) root.exports
  tests := sortOn (·.key) root.tests
  recursionGroups := sortOn id root.recursionGroups
  typeRecursionGroups := sortOn id root.typeRecursionGroups
  metadata := root.metadata

@[simp] theorem normalizeRoot_normalizeRoot (root : ProgramRootPayload) :
    normalizeRoot (normalizeRoot root) = normalizeRoot root := by
  simp [normalizeRoot]

end CodeDb

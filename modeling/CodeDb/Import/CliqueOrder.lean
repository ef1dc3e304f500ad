import Mathlib.Data.List.Lex
import CodeDb.Store.Hashing

/-!
# The order of a clique

Definitions that refer to each other are created at once, in an order that is a property
of how they refer to each other, and not of where they stand in the source. The members are
coloured by their form, with each reference replaced by the colour of the peer, until that
tells no more of them apart. Where it does not tell all of them apart, every member of the
lowest class is tried apart from the rest, and the least form of all that follows decides.

## Main definitions

* `Clique` — what the order is computed from
* `refineCliqueColors` — colours that are refined until they are stable
* `cliqueForm` — the form of a clique in an order
* `canonicalCliqueOrder` — the order
-/

namespace CodeDb

open SortOn

/-- Members of a clique: what is known of each without its peers, its form with each
reference replaced by the colour of the peer, and a key of its own. -/
structure Clique (n : Nat) where
  staticSig : Fin n → String
  erase : Fin n → (Fin n → String) → String
  memberKey : Fin n → String

/-- The colours that occur, in order. -/
def cliqueColors {n : Nat} (colors : Fin n → String) : List String :=
  sortedSet (List.ofFn colors)

def distinctColorCount {n : Nat} (colors : Fin n → String) : Nat := (cliqueColors colors).length

/-- The separator of colours. -/
def recursionOrderDomain : String := "codedb/recursion-order/v1\x00"

/-- An order of the members, with the form of the clique and the keys of the members in it. -/
structure Labeling (n : Nat) where
  form : List String
  keySeq : List String
  order : List (Fin n)

/-- Labelings are compared by form, and then by keys. -/
def Labeling.score {n : Nat} (l : Labeling n) : List String ×ₗ List String :=
  toLex (l.form, l.keySeq)

/-- The better of two labelings: the first, unless the second is less. -/
def betterLabeling {n : Nat} : Option (Labeling n) → Labeling n → Labeling n
  | none, l => l
  | some best, l => if l.score < best.score then l else best

/-- The members of a colour. -/
def colorCell {n : Nat} (colors : Fin n → String) (color : String) : List (Fin n) :=
  (List.finRange n).filter fun i => colors i = color

/-- The lowest class with more than one member. -/
def targetCell {n : Nat} (colors : Fin n → String) : List (Fin n) :=
  (((cliqueColors colors).map (colorCell colors)).find? fun cell => 1 < cell.length).getD []

/-- Set a member apart. -/
def individualize {n : Nat} (depth : Nat) (colors : Fin n → String) (member : Fin n) :
    Fin n → String :=
  Function.update colors member ("\x00ind:" ++ toString depth ++ "\x00" ++ colors member)

section Order

variable (P : Primitives) {n : Nat} (c : Clique n)

/-- The next colours: a member's form in the colours at hand, and its own colour where it is
preserved. -/
def nextColors (preserveOwn : Bool) (colors : Fin n → String) (i : Fin n) : String :=
  hashBytes P recursionOrderDomain <| utf8 <|
    if preserveOwn then colors i ++ "|" ++ c.staticSig i ++ "|" ++ c.erase i colors
    else c.staticSig i ++ "|" ++ c.erase i colors

/-- Rounds of refinement, until one tells no more members apart. -/
def refineRounds (preserveOwn : Bool) : Nat → (Fin n → String) → Fin n → String
  | 0, colors => colors
  | rounds + 1, colors =>
    let next := nextColors P c preserveOwn colors
    if distinctColorCount next = distinctColorCount colors then next
    else refineRounds preserveOwn rounds next

def refineCliqueColors (initial : Fin n → String) (preserveOwn : Bool) : Fin n → String :=
  refineRounds P c preserveOwn n initial

/-- The form of a clique: that of each member, with references replaced by positions. -/
def cliqueForm (order : List (Fin n)) : List String :=
  order.map fun i => c.staticSig i ++ "|" ++ c.erase i fun j => toString (order.idxOf j)

/-- The labeling in which members are in the order of their colours. -/
def labelingOfColors (colors : Fin n → String) : Labeling n :=
  let order := sortOn colors (List.finRange n)
  ⟨cliqueForm c order, order.map c.memberKey, order⟩

/-- Search for the least labeling, so many levels down at most. -/
def cliqueLabelSearch : Nat → (Fin n → String) → Nat → Option (Labeling n) →
    Option (Option (Labeling n))
  | 0, _, _, _ => none
  | levels + 1, seedColors, depth, best =>
    let colors := refineCliqueColors P c seedColors true
    if distinctColorCount colors = n then some (betterLabeling best (labelingOfColors c colors))
    else (targetCell colors).foldlM (fun best member =>
      cliqueLabelSearch levels (individualize depth colors member) (depth + 1) best) best

/-- The order of a clique. Every level of the search sets one more member apart. -/
def canonicalCliqueOrder : Option (List (Fin n)) := do
  let colors := refineCliqueColors P c (fun _ => "") false
  if distinctColorCount colors = n then return sortOn colors (List.finRange n)
  else
    let best ← (← cliqueLabelSearch P c n colors 0 none)
    return best.order

end Order

end CodeDb

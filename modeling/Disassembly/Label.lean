import Std.Data.TreeMap
import Disassembly.Definition

/-!
# Labels

A label names an address. A table keeps its labels in the order of their declaration; several may
share an address, and then the FIRST one declared is the one that is shown, as a line of its own
and inside operands alike. The later ones stay in the list and are never matched.

The position of the first label at each address is kept beside the list, so that a lookup does not
walk it; `add` is the only operation that touches both.
-/

namespace Disassembly

/-- A named address. -/
structure Label where
  name : String
  address : Address
deriving DecidableEq, Repr

/-- Labels in declaration order, and for each labelled address where its first label stands. -/
structure LabelTable where
  labels : Array Label := #[]
  firstAt : Std.TreeMap Address Nat := ∅

namespace LabelTable

/-! ## 1. Building -/

/-- The table without labels. Disassembling with it is disassembling without labels. -/
def empty : LabelTable := {}

/-- Appends a label. It becomes the one shown at its address unless there is one already. -/
def add (table : LabelTable) (label : Label) : LabelTable where
  labels := table.labels.push label
  firstAt := table.firstAt.insertIfNew label.address table.labels.size

def ofList (labels : List Label) : LabelTable := labels.foldl add empty

/-! ## 2. Looking up -/

/-- The name shown for an address: that of the first label declared there. -/
def nameAt? (table : LabelTable) (address : Address) : Option String := do
  let position ← table.firstAt[address]?
  let label ← table.labels[position]?
  return label.name

/-- Without labels no address has a name. -/
theorem nameAt?_empty (address : Address) : empty.nameAt? address = none := by
  have hnone : (∅ : Std.TreeMap Address Nat)[address]? = none := Std.TreeMap.getElem?_emptyc
  unfold nameAt?
  rw [show empty.firstAt = ∅ from rfl, hnone]
  rfl

def isEmpty (table : LabelTable) : Bool := table.labels.isEmpty

/-! ## 3. Label files -/

/-- The label a line defines: a name, then its address; further fields say nothing. That the
    address is there is asked before the name, and the name before what the address says. -/
def define : List (List Char) → Except Defect Label
  | name :: address :: _ =>
    if (Text.trim name).isEmpty then .error .emptyName
    else do
      let address ← Definition.addressOf address
      return { name := String.ofList (Text.trim name), address }
  | _ => .error .missingAddress

/-- The table that a label file declares. -/
def parse (text : String) : Except Offence LabelTable :=
  (Definition.readText define text).map ofList

end LabelTable

end Disassembly

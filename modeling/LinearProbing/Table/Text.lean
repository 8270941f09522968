-- SUMMARY: The structured text of a table.
import LinearProbing.Table.Basic

/-! # The text of a table

A table is written slot by slot, with its bookkeeping in front.
-/

namespace LinearProbing

universe u

variable {α : Type u} [Described α]

/-- The text of one slot. -/
def Slots.describeSlot : Option (Cell α) → Layout
  | none => .atom "Empty"
  | some cell =>
    .record "Occupied"
      [("hash", .atom (toString cell.hash.toNat)), ("item", describe cell.item)]

instance : Described (Table α) where
  describe t :=
    let slots := Layout.list (t.slots.toList.map Slots.describeSlot)
    let counts := [("populated", describe t.count), ("capacity", describe t.capacity)]
    match t.sizing with
    | .growing policy =>
      .record "HashTable" (counts ++ [("policy", describe policy), ("slots", slots)])
    | .bounded => .record "BoundedTable" (counts ++ [("slots", slots)])

end LinearProbing

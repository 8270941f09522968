-- SUMMARY: Items with a number and a tag, for tables whose hashes are chosen freely.
import LinearProbing.Tagged.Key

/-! # Tagged items

Items of a table whose hashes are chosen freely: a number to tell them apart and a tag to change.
-/

namespace LinearProbing

/-- A number and a tag. -/
structure Item where
  key : UInt64
  tag : Int64
  deriving DecidableEq, Repr, Inhabited

namespace Item

/-- The size in bytes of a slot that holds such an item, its hash, and whether it is occupied. -/
def slotBytes : Nat := 32

instance : Described Item where
  describe item :=
    .record "Item" [("key", .atom (toString item.key.toNat)), ("tag", describe item.tag)]

end Item

end LinearProbing

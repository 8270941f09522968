-- SUMMARY: Tables driven by hashes and predicates: lookup, removal, and visits of all items.
import LinearProbing.Cursor
import LinearProbing.Policy
import LinearProbing.Slots.Gap
import LinearProbing.Slots.Probe
import LinearProbing.Traversal

/-! # Tables

A table stores items under hashes that the caller supplies, in the slots of one array. An item is
looked up by a hash and a predicate: it matches if its stored hash is the same and the predicate
accepts it. Lookups never change the number of slots.

`Table.entry`, in its own module, is the one way in; what it does when there is no room depends on
the table's `Sizing`.
-/

namespace LinearProbing

universe u

/-- What a table does when it has no room for another entry. -/
inductive Sizing
  /-- It moves to a larger array, as the policy says. -/
  | growing (policy : GrowthPolicy)
  /-- It keeps its array and refuses the entry. -/
  | bounded

/-- A slot array with the number of its occupied slots. -/
structure Table (α : Type u) where
  sizing : Sizing
  capacity : Nat
  slots : Slots α capacity
  count : Nat

namespace Table

variable {α : Type u}

/-! ## Empty tables -/

/-- No entries in `capacity` slots. -/
def fresh (α : Type u) (sizing : Sizing) (capacity : Nat) : Table α :=
  { sizing, capacity, slots := .empty α capacity, count := 0 }

/-- A table that grows by the policy, from the usual number of slots. -/
def ofPolicy (α : Type u) (policy : GrowthPolicy) : Table α :=
  fresh α (.growing policy) initialCapacity

/-- A table that grows by the policy, from the given number of slots. -/
def ofCapacity (α : Type u) (policy : GrowthPolicy) (capacity : Nat) : Except Fault (Table α) :=
  if capacity < capacityBound then .ok (fresh α (.growing policy) capacity)
  else .error (.capacityTooLarge capacity)

/-- A table that keeps `capacity` slots. -/
def ofBound (α : Type u) (capacity : Nat) : Table α := fresh α .bounded capacity

/-! ## Size -/

def isEmpty (t : Table α) : Bool := t.count == 0

/-- Every slot is occupied. -/
def isFull (t : Table α) : Bool := t.count == t.capacity

/-- The policy of a growing table. -/
def policy? (t : Table α) : Option GrowthPolicy :=
  match t.sizing with
  | .growing policy => some policy
  | .bounded => none

/-! ## Lookup -/

/-- A lookup is answered without a search. Growing tables do that while they have no entries,
bounded ones never do. -/
def skipsSearch (t : Table α) : Bool :=
  match t.sizing with
  | .growing _ => t.isEmpty
  | .bounded => false

/-- The position and content of the entry that matches. -/
def seek? (t : Table α) (hash : UInt64) (accepts : α → Bool) :
    Option (Fin t.capacity × Cell α) :=
  if t.skipsSearch then none else (t.slots.probe hash accepts).found?

/-- The item that matches. -/
def find? (t : Table α) (hash : UInt64) (accepts : α → Bool) : Option α :=
  (t.seek? hash accepts).map fun (_, cell) => cell.item

/-- Changes the item that matches, and yields it. -/
def modify? (t : Table α) (hash : UInt64) (accepts : α → Bool) (update : α → α) :
    Option (α × Table α) := do
  let (i, _) ← t.seek? hash accepts
  let (item, slots) ← t.slots.updateAt? i update
  some (item, { t with slots })

/-- A cursor at the item that matches, or at the end. -/
def cursor (t : Table α) (hash : UInt64) (accepts : α → Bool) : Cursor α t.capacity :=
  { slots := t.slots, position := (t.seek? hash accepts).map (·.1) }

/-! ## Removal -/

/-- Takes the entry out of a slot. -/
def takeAt? (t : Table α) (i : Fin t.capacity) : Option (α × Table α) :=
  (t.slots.vacate? i).map fun (cell, slots) => (cell.item, { t with slots, count := t.count - 1 })

/-- Takes out the item that matches. -/
def remove? (t : Table α) (hash : UInt64) (accepts : α → Bool) : Option (α × Table α) := do
  let (i, _) ← t.seek? hash accepts
  t.takeAt? i

/-- Removes all entries and keeps the slots. -/
def clear (t : Table α) : Table α := { t with slots := .empty α t.capacity, count := 0 }

/-! ## Visiting all entries -/

/-- Visits all entries in slot order. -/
def traversal (t : Table α) : Traversal α t.capacity :=
  { slots := t.slots, low := 0, high := t.capacity, remaining := t.count }

/-- The items in slot order. -/
def toList (t : Table α) : List α := t.traversal.rest

/-- The table with the items as a traversal of it has left them. -/
def visited (t : Table α) (traversal : Traversal α t.capacity) : Table α :=
  { t with slots := traversal.slots }

/-- Applies `update` to every item. -/
def mapItems (t : Table α) (update : α → α) : Table α := t.visited (t.traversal.restWith update).2

/-- Hands out the entries and leaves the table empty. -/
def drain (t : Table α) : Traversal α t.capacity × Table α := (t.traversal, t.clear)

end Table

end LinearProbing

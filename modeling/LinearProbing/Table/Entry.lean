-- SUMMARY: Entries of a table, vacant or occupied, and how a table makes room for a new one.
import LinearProbing.Table.Resize

/-! # Entries

An entry is the place of one item in a table: occupied by the item that matches, or vacant, with
the slot where the item belongs. It holds the table, so using an entry yields the table that
results.
-/

namespace LinearProbing

universe u

/-- A slot that an item with this hash belongs in. -/
structure VacantEntry (α : Type u) where
  table : Table α
  index : Fin table.capacity
  hash : UInt64
  empty : table.slots.get index = none

/-- A slot that holds an item. -/
structure OccupiedEntry (α : Type u) where
  table : Table α
  index : Fin table.capacity
  cell : Cell α
  holds : table.slots.get index = some cell

/-- The place of an item in a table. -/
inductive Entry (α : Type u)
  | vacant (entry : VacantEntry α)
  | occupied (entry : OccupiedEntry α)

variable {α : Type u}

/-- Stores the item in the slot. -/
def VacantEntry.insert (e : VacantEntry α) (item : α) : OccupiedEntry α :=
  let cell := { hash := e.hash, item }
  { table := { e.table with
      slots := e.table.slots.put e.index (some cell)
      count := e.table.count + 1 }
    index := e.index
    cell
    holds := by simp }

namespace OccupiedEntry

def item (e : OccupiedEntry α) : α := e.cell.item

/-- Changes the item. -/
def modify (e : OccupiedEntry α) (update : α → α) : OccupiedEntry α :=
  let cell := { e.cell with item := update e.cell.item }
  { table := { e.table with slots := e.table.slots.put e.index (some cell) }
    index := e.index
    cell
    holds := by simp }

/-- Takes the item out of the table. -/
def remove (e : OccupiedEntry α) : α × Table α :=
  (e.item,
    { e.table with
      slots := (Gap.ofTaken e.table.slots e.index).close
      count := e.table.count - 1 })

end OccupiedEntry

namespace Entry

def table : Entry α → Table α
  | .vacant e => e.table
  | .occupied e => e.table

/-- The slot that the entry is about. -/
def index : Entry α → Nat
  | .vacant e => e.index
  | .occupied e => e.index

/-- The item of an occupied entry. -/
def item? : Entry α → Option α
  | .vacant _ => none
  | .occupied e => some e.item

/-- Stores the item that is computed if the entry is vacant. -/
def orInsertWith (e : Entry α) (item : Unit → α) : OccupiedEntry α :=
  match e with
  | .vacant e => e.insert (item ())
  | .occupied e => e

/-- Stores the item if the entry is vacant. -/
def orInsert (e : Entry α) (item : α) : OccupiedEntry α := e.orInsertWith fun _ => item

/-- Changes the item of an occupied entry. -/
def andModify (e : Entry α) (update : α → α) : Entry α :=
  match e with
  | .vacant e => .vacant e
  | .occupied e => .occupied (e.modify update)

end Entry

namespace Table

/-- The entry for a hash and a predicate in the slots that the table has; an error if it would be
new and every slot is occupied. -/
def locate (t : Table α) (hash : UInt64) (accepts : α → Bool) : Except Error (Entry α) :=
  match h : t.slots.probe hash accepts with
  | .found index cell =>
    .ok (.occupied { table := t, index, cell, holds := (Slots.probe_found h).1 })
  | .vacant index => .ok (.vacant { table := t, index, hash, empty := Slots.probe_vacant h })
  | .full => .error (.capacityExceeded t.capacity)

/-- The table after one growth step of the policy. -/
def enlarge (t : Table α) (policy : GrowthPolicy) : Except Fault (Table α) :=
  t.grow (policy.grownCapacity t.capacity)

/-- The entry for a hash and a predicate in a table that grows: first if its load is above the
threshold, and once more if there is still no empty slot for a new entry. -/
def growingEntry (t : Table α) (policy : GrowthPolicy) (hash : UInt64) (accepts : α → Bool) :
    Except Fault (Entry α) := do
  let t ← if policy.needsGrowth t.count t.capacity then t.enlarge policy else pure t
  match t.locate hash accepts with
  | .ok entry => pure entry
  | .error _ =>
    let t ← t.enlarge policy
    match t.locate hash accepts with
    | .ok entry => pure entry
    | .error _ => throw (.stillFull t.capacity)

/-- The entry for a hash and a predicate. A growing table makes room first; a bounded table with
every slot occupied has no place for a new entry. -/
def entry (t : Table α) (hash : UInt64) (accepts : α → Bool) : Except Fault (Entry α) :=
  match t.sizing with
  | .growing policy => t.growingEntry policy hash accepts
  | .bounded =>
    match t.locate hash accepts with
    | .ok entry => .ok entry
    | .error error => .error (.unhandled error)

end Table

end LinearProbing

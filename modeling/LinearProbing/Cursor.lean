-- SUMMARY: Cursors over the occupied slots, with one end position between the last slot and the first.
import LinearProbing.Slots.Basic
import LinearProbing.Text.Layout

/-! # Cursors

A cursor stands on an occupied slot or at the end, which comes after the last slot and before the
first. Moving off the end in either direction comes back to the occupied slots.
-/

namespace LinearProbing

universe u

/-- A slot array and a position in it; no position is the end. -/
structure Cursor (α : Type u) (n : Nat) where
  slots : Slots α n
  position : Option (Fin n)

namespace Cursor

variable {α : Type u} {n : Nat}

def atEnd (s : Slots α n) : Cursor α n := { slots := s, position := none }

def isEnd (c : Cursor α n) : Bool := c.position.isNone

/-- The position as a number, the number of slots at the end. -/
def index (c : Cursor α n) : Nat := c.position.elim n (·.val)

/-- The entry under the cursor. -/
def cell? (c : Cursor α n) : Option (Cell α) := c.position.bind c.slots.get

def item? (c : Cursor α n) : Option α := c.cell?.map (·.item)

/-- Moves to the next occupied slot, or to the end. -/
def next (c : Cursor α n) : Cursor α n :=
  let start := c.position.elim 0 (·.val + 1)
  { c with position := c.slots.first? Option.isSome start n }

/-- Moves to the previous occupied slot, or to the end. -/
def prev (c : Cursor α n) : Cursor α n :=
  { c with position := c.slots.last? Option.isSome 0 c.index }

/-- What a move forward would reach. -/
def peekNext? (c : Cursor α n) : Option α := c.next.item?

/-- What a move backward would reach. -/
def peekPrev? (c : Cursor α n) : Option α := c.prev.item?

/-- At the first occupied slot, or at the end if there is none. -/
def front (s : Slots α n) : Cursor α n := (atEnd s).next

/-- Whether two cursors into the same array are at the same position. -/
def samePosition (c d : Cursor α n) : Bool := c.position == d.position

/-- The structured text of a cursor. -/
def layout (c : Cursor α n) : Layout :=
  .record "Cursor" [("position", describe c.index), ("capacity", describe n)]

instance : Described (Cursor α n) := ⟨layout⟩

end Cursor

end LinearProbing

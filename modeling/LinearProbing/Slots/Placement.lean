-- SUMMARY: Placement of new entries in the first empty slot from their home on.
import LinearProbing.Slots.Basic

/-! # Placement

An entry that is known to be new goes into the first empty slot from its home on. The search needs
no comparison of items: it looks at the slots from the home to the end of the array, then at those
before the home.
-/

namespace LinearProbing.Slots

universe u

variable {α : Type u} {n : Nat}

/-- The first empty slot on the ring from the home of this hash on. -/
def vacancy? (s : Slots α n) (hash : UInt64) : Option (Fin n) :=
  let start := scale hash n
  s.first? Option.isNone start n <|> s.first? Option.isNone 0 start

/-- Stores an entry in the first empty slot from its home on; fails if there is none. -/
def place? (s : Slots α n) (cell : Cell α) : Option (Slots α n) :=
  (s.vacancy? cell.hash).map fun i => s.put i (some cell)

/-- Stores the entries one after the other. -/
def placeAll? (s : Slots α n) (cells : List (Cell α)) : Option (Slots α n) :=
  cells.foldlM place? s

end LinearProbing.Slots

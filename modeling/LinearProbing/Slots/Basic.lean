-- SUMMARY: Slot arrays: cells, displacements from home, updates, and scans for a slot.
import LinearProbing.Compression
import LinearProbing.Cyclic
import LinearProbing.Word

/-! # Slot arrays

An array of `n` slots, each empty or holding an item together with the hash it is stored under.
-/

namespace LinearProbing

universe u

/-- An item and the hash it is stored under. -/
structure Cell (α : Type u) where
  hash : UInt64
  item : α
  deriving DecidableEq, Repr

/-- The slots of a table; `none` is an empty slot. -/
abbrev Slots (α : Type u) (n : Nat) := Vector (Option (Cell α)) n

namespace Slots

variable {α : Type u} {n : Nat}

/-- All slots empty. -/
def empty (α : Type u) (n : Nat) : Slots α n := Vector.replicate n none

/-- What slot `i` holds. -/
def get (s : Slots α n) (i : Fin n) : Option (Cell α) := Vector.get s i

/-- The array with slot `i` overwritten. -/
def put (s : Slots α n) (i : Fin n) (slot : Option (Cell α)) : Slots α n :=
  Vector.set s i slot i.isLt

theorem get_eq_getElem (s : Slots α n) (i : Fin n) : s.get i = s[i.val] := rfl

@[simp] theorem get_put_self (s : Slots α n) (i : Fin n) (slot : Option (Cell α)) :
    (s.put i slot).get i = slot := by
  simp [get_eq_getElem, put]

theorem get_put_ne (s : Slots α n) {i j : Fin n} (slot : Option (Cell α)) (h : i ≠ j) :
    (s.put i slot).get j = s.get j := by
  have : i.val ≠ j.val := fun e => h (Fin.ext e)
  simp [get_eq_getElem, put, Vector.getElem_set_ne, this]

@[simp] theorem get_empty (i : Fin n) : (empty α n).get i = none := by
  simp [get_eq_getElem, empty]

/-- The contents of the occupied slots, in slot order. -/
def cells (s : Slots α n) : List (Cell α) := s.toList.filterMap id

/-- The occupied positions with their contents, in slot order. -/
def entries (s : Slots α n) : List (Fin n × Cell α) :=
  (List.finRange n).filterMap fun i => (s.get i).map (i, ·)

/-- The number of steps from an entry's home to its slot; nothing for an empty slot. -/
def displacement? (s : Slots α n) (i : Fin n) : Option Nat :=
  (s.get i).map fun cell => Cyclic.distance (home cell.hash i.pos) i

/-- The steps from home of all entries, in slot order. -/
def displacements (s : Slots α n) : List Nat := (List.finRange n).filterMap s.displacement?

/-- The sum of the steps from home of all entries. -/
def totalDisplacement (s : Slots α n) : Nat := total s.displacements

/-- Changes the item in slot `i` and yields it; none if the slot is empty. -/
def updateAt? (s : Slots α n) (i : Fin n) (update : α → α) : Option (α × Slots α n) :=
  (s.get i).map fun cell =>
    let item := update cell.item
    (item, s.put i (some { cell with item }))

/-! ## Scans -/

/-- The first position from `start` on and before `stop` whose slot satisfies `p`. -/
def first? (s : Slots α n) (p : Option (Cell α) → Bool) (start stop : Nat) : Option (Fin n) :=
  if h : start < stop ∧ start < n then
    if p (s.get ⟨start, h.2⟩) then some ⟨start, h.2⟩ else s.first? p (start + 1) stop
  else none
termination_by stop - start

/-- The last position from `start` on and before `stop` whose slot satisfies `p`. -/
def last? (s : Slots α n) (p : Option (Cell α) → Bool) (start : Nat) : (stop : Nat) → Option (Fin n)
  | 0 => none
  | last + 1 =>
    if start ≤ last then
      if h : last < n then
        if p (s.get ⟨last, h⟩) then some ⟨last, h⟩ else s.last? p start last
      else s.last? p start last
    else none

end Slots

end LinearProbing

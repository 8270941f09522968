-- SUMMARY: Rebuilding a table in a new array: growing, reserving, shrinking, and retaining.
import LinearProbing.Slots.Placement
import LinearProbing.Table.Basic

/-! # Rebuilding a table

A table changes its number of slots by placing all entries, in slot order, into a new array. The
same is done, with an array of the same size, to keep only some of the entries.
-/

namespace LinearProbing.Table

universe u v

variable {α : Type u}

/-- Places the entries into a new array of `capacity` slots. -/
def rebuild (t : Table α) (capacity : Nat) (cells : List (Cell α)) : Except Fault (Table α) :=
  match (Slots.empty α capacity).placeAll? cells with
  | some slots => .ok { t with capacity, slots, count := cells.length }
  | none => .error .noSlotLeft

/-- Moves all entries into a new array of `capacity` slots, which may be fewer than before. -/
def grow (t : Table α) (capacity : Nat) : Except Fault (Table α) :=
  if capacity < t.count then .error (.doesNotFit t.count capacity)
  else if capacityBound ≤ capacity then .error (.capacityTooLarge capacity)
  else t.rebuild capacity t.slots.cells

/-- Makes room for `additional` entries below the load threshold. A bounded table stays as it
is. -/
def reserve (t : Table α) (additional : Nat) : Except Fault (Table α) :=
  match t.sizing with
  | .bounded => .ok t
  | .growing policy =>
    let required := policy.capacityFor (saturate (t.count + additional))
    if t.capacity < required then t.grow required else .ok t

/-- Moves all entries into exactly as many slots. -/
def shrinkToFit (t : Table α) : Except Fault (Table α) :=
  if t.capacity = t.count then .ok t else t.rebuild t.count t.slots.cells

/-- Visits the cells in order with a running state. The visit yields the new item of a cell that is
kept and nothing for one that is not. -/
def sift {σ : Type v} (visit : σ → α → σ × Option α) :
    (state : σ) → List (Cell α) → σ × List (Cell α)
  | state, [] => (state, [])
  | state, cell :: rest =>
    let (state, item?) := visit state cell.item
    let (state, kept) := sift visit state rest
    match item? with
    | some item => (state, { cell with item } :: kept)
    | none => (state, kept)

/-- Keeps the entries, with their new items, for which the visit yields one. -/
def retain {σ : Type v} (t : Table α) (visit : σ → α → σ × Option α) (state : σ) :
    Except Fault (σ × Table α) :=
  let (state, kept) := sift visit state t.slots.cells
  match t.rebuild t.capacity kept with
  | .ok table => .ok (state, table)
  | .error fault => .error fault

end LinearProbing.Table

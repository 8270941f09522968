-- SUMMARY: Visiting the entries of a slot array from both ends, with an exact count of those left.
import LinearProbing.Slots.Basic

/-! # Traversals

A traversal visits the entries of a slot array from either end, and counts the entries it has not
visited yet; once none is left it yields nothing more. Each visit may replace the item. The hashes
and the positions of the entries stay as they are.
-/

namespace LinearProbing

universe u

/-- A slot array, the range of slots that neither end has reached, and the number of entries
left. -/
structure Traversal (α : Type u) (n : Nat) where
  slots : Slots α n
  low : Nat
  high : Nat
  remaining : Nat

namespace Traversal

variable {α : Type u} {n : Nat}

/-- Visits the first entry that is left and yields its new item. -/
def nextWith? (t : Traversal α n) (update : α → α) : Option (α × Traversal α n) :=
  if t.remaining = 0 then none
  else
    (t.slots.first? Option.isSome t.low t.high).bind fun i =>
      (t.slots.updateAt? i update).map fun (item, slots) =>
        (item, { t with slots, low := i.val + 1, remaining := t.remaining - 1 })

/-- Visits the last entry that is left and yields its new item. -/
def nextBackWith? (t : Traversal α n) (update : α → α) : Option (α × Traversal α n) :=
  if t.remaining = 0 then none
  else
    (t.slots.last? Option.isSome t.low t.high).bind fun i =>
      (t.slots.updateAt? i update).map fun (item, slots) =>
        (item, { t with slots, high := i.val, remaining := t.remaining - 1 })

/-- The first entry that is left. -/
def next? (t : Traversal α n) : Option (α × Traversal α n) := t.nextWith? id

/-- The last entry that is left. -/
def nextBack? (t : Traversal α n) : Option (α × Traversal α n) := t.nextBackWith? id

theorem remaining_nextWith? {t t' : Traversal α n} {update : α → α} {item : α}
    (h : t.nextWith? update = some (item, t')) : t'.remaining + 1 = t.remaining := by
  unfold nextWith? at h
  split at h
  · cases h
  · simp only [Option.bind_eq_some_iff, Option.map_eq_some_iff, Prod.mk.injEq] at h
    obtain ⟨i, _, _, _, _, rfl⟩ := h
    simp only
    omega

theorem remaining_nextBackWith? {t t' : Traversal α n} {update : α → α} {item : α}
    (h : t.nextBackWith? update = some (item, t')) : t'.remaining + 1 = t.remaining := by
  unfold nextBackWith? at h
  split at h
  · cases h
  · simp only [Option.bind_eq_some_iff, Option.map_eq_some_iff, Prod.mk.injEq] at h
    obtain ⟨i, _, _, _, _, rfl⟩ := h
    simp only
    omega

/-- Visits all entries that are left, from the front. -/
def restWith (t : Traversal α n) (update : α → α) : List α × Traversal α n :=
  match _ : t.nextWith? update with
  | none => ([], t)
  | some (item, t') =>
    let (items, last) := t'.restWith update
    (item :: items, last)
termination_by t.remaining
decreasing_by exact Nat.lt_of_succ_le (Nat.le_of_eq (remaining_nextWith? ‹_›))

/-- The entries that are left, from the front. -/
def rest (t : Traversal α n) : List α := (t.restWith id).1

/-- The entries that are left, from the back. -/
def reversed (t : Traversal α n) : List α :=
  match _ : t.nextBack? with
  | none => []
  | some (item, t') => item :: t'.reversed
termination_by t.remaining
decreasing_by exact Nat.lt_of_succ_le (Nat.le_of_eq (remaining_nextBackWith? ‹_›))

/-- The bounds on the number of entries still to come; they are exact. -/
def sizeHint (t : Traversal α n) : Nat × Nat := (t.remaining, t.remaining)

end Traversal

end LinearProbing

-- SUMMARY: Probing: the walk from the home of a hash to a match, an empty slot, or all around.
import LinearProbing.Slots.Basic

/-! # Probing

A lookup walks the ring forward from the home of its hash. It ends at the first empty slot, at the
first entry with the same hash that the predicate accepts, or after one full turn.
-/

namespace LinearProbing

universe u

/-- Where a lookup ended. -/
inductive Probe (α : Type u) (n : Nat)
  | found (index : Fin n) (cell : Cell α)
  | vacant (index : Fin n)
  | full

/-- The match that a lookup ended at. -/
def Probe.found? {α : Type u} {n : Nat} : Probe α n → Option (Fin n × Cell α)
  | .found i cell => some (i, cell)
  | .vacant _ => none
  | .full => none

namespace Slots

variable {α : Type u} {n : Nat}

/-- Whether a lookup for `hash` and `accepts` stops at this entry. -/
def Matches (hash : UInt64) (accepts : α → Bool) (cell : Cell α) : Prop :=
  cell.hash = hash ∧ accepts cell.item = true

instance (hash : UInt64) (accepts : α → Bool) (cell : Cell α) :
    Decidable (Matches hash accepts cell) :=
  inferInstanceAs (Decidable (_ ∧ _))

/-- The walk from position `i` on, over at most `steps` slots. -/
def probeFrom (s : Slots α n) (hash : UInt64) (accepts : α → Bool) :
    (steps : Nat) → (i : Fin n) → Probe α n
  | 0, _ => .full
  | steps + 1, i =>
    match s.get i with
    | none => .vacant i
    | some cell =>
      if Matches hash accepts cell then .found i cell
      else s.probeFrom hash accepts steps (Cyclic.next i)

/-- Looks for an entry with this hash that the predicate accepts. An array without slots is
full. -/
def probe (s : Slots α n) (hash : UInt64) (accepts : α → Bool) : Probe α n :=
  if pos : 0 < n then s.probeFrom hash accepts n (home hash pos) else .full

theorem probeFrom_found {s : Slots α n} {hash : UInt64} {accepts : α → Bool} {steps : Nat}
    {start i : Fin n} {cell : Cell α}
    (h : s.probeFrom hash accepts steps start = .found i cell) :
    s.get i = some cell ∧ Matches hash accepts cell := by
  fun_induction probeFrom s hash accepts steps start with
  | case1 => simp at h
  | case2 => simp at h
  | case3 steps j found hj hm => cases h; exact ⟨hj, hm⟩
  | case4 steps j found hj hm ih => exact ih h

theorem probe_found {s : Slots α n} {hash : UInt64} {accepts : α → Bool} {i : Fin n}
    {cell : Cell α} (h : s.probe hash accepts = .found i cell) :
    s.get i = some cell ∧ Matches hash accepts cell := by
  unfold probe at h
  split at h
  · exact probeFrom_found h
  · simp at h

theorem probeFrom_vacant {s : Slots α n} {hash : UInt64} {accepts : α → Bool} {steps : Nat}
    {start i : Fin n} (h : s.probeFrom hash accepts steps start = .vacant i) : s.get i = none := by
  fun_induction probeFrom s hash accepts steps start with
  | case1 => simp at h
  | case2 steps j hj => cases h; exact hj
  | case3 => simp at h
  | case4 steps j found hj hm ih => exact ih h

theorem probe_vacant {s : Slots α n} {hash : UInt64} {accepts : α → Bool} {i : Fin n}
    (h : s.probe hash accepts = .vacant i) : s.get i = none := by
  unfold probe at h
  split at h
  · exact probeFrom_vacant h
  · simp at h

end Slots

end LinearProbing

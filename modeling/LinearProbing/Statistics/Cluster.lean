-- SUMMARY: The longest run of occupied slots on the ring.
import LinearProbing.Slots.Basic

/-! # Clusters

A cluster is a run of occupied slots on the ring. Counting starts behind an empty slot, so that a
cluster that passes the end of the array is counted in one piece.
-/

namespace LinearProbing.Slots

universe u

variable {α : Type u} {n : Nat}

/-- The longest run of occupied slots among `steps` slots from position `i` on, when the slots just
before it form a run of length `run` and the longest run so far is `longest`. -/
def longestRun (s : Slots α n) : (steps : Nat) → (i : Fin n) → (run longest : Nat) → Nat
  | 0, _, _, longest => longest
  | steps + 1, i, run, longest =>
    if (s.get i).isSome then s.longestRun steps (Cyclic.next i) (run + 1) (max longest (run + 1))
    else s.longestRun steps (Cyclic.next i) 0 longest

/-- The number of slots in the longest cluster. -/
def longestCluster (s : Slots α n) : Nat :=
  match s.first? Option.isNone 0 n with
  | none => n
  | some gap => s.longestRun n (Cyclic.next gap) 0 0

end LinearProbing.Slots

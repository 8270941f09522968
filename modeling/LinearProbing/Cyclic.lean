-- SUMMARY: Positions on a ring: the next position and the forward distance between two positions.
/-! # Positions on a ring

The slots of an array form a ring: after the last comes the first. `Cyclic.distance a b` is the
number of steps forward from `a` to `b`.
-/

namespace LinearProbing.Cyclic

variable {n : Nat}

/-- The position after `i`. -/
def next (i : Fin n) : Fin n :=
  if h : i.val + 1 < n then ⟨i.val + 1, h⟩ else ⟨0, i.pos⟩

/-- The number of steps forward from `start` to `stop`. -/
def distance (start stop : Fin n) : Nat :=
  if start.val ≤ stop.val then stop.val - start.val else n - start.val + stop.val

theorem next_val (i : Fin n) : (next i).val = if i.val + 1 < n then i.val + 1 else 0 := by
  unfold next; split <;> rfl

@[simp] theorem distance_self (i : Fin n) : distance i i = 0 := by simp [distance]

theorem distance_lt (start stop : Fin n) : distance start stop < n := by
  unfold distance; split <;> omega

theorem eq_of_distance_eq_zero {start stop : Fin n} (h : distance start stop = 0) :
    start = stop := by
  unfold distance at h; apply Fin.ext; split at h <;> omega

theorem distance_next {start stop : Fin n} (h : start ≠ stop) :
    distance (next start) stop + 1 = distance start stop := by
  have : start.val ≠ stop.val := fun e => h (Fin.ext e)
  have := next_val start
  unfold distance
  split at this <;> split <;> split <;> omega

end LinearProbing.Cyclic

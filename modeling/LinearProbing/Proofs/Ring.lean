-- SUMMARY: Distances on the ring: when they add up, and the positions that a walk passes.
import LinearProbing.Cyclic
import Mathlib.Logic.Function.Iterate
import Mathlib.Tactic.SplitIfs

/-! # Distances on the ring

A position is determined by its distance from a fixed start. The positions that are closer to the
start than `b` are the ones that a walk from the start to `b` passes.
-/

namespace LinearProbing.Cyclic

variable {n : Nat} {a b i j : Fin n}

theorem distance_right_inj : distance a i = distance a j ↔ i = j := by
  constructor
  · intro h
    apply Fin.ext
    unfold distance at h
    split_ifs at h <;> omega
  · rintro rfl
    rfl

theorem distance_left_inj : distance i a = distance j a ↔ i = j := by
  constructor
  · intro h
    apply Fin.ext
    unfold distance at h
    split_ifs at h <;> omega
  · rintro rfl
    rfl

theorem distance_add (h : distance a i ≤ distance a j) :
    distance a i + distance i j = distance a j := by
  unfold distance at *
  split_ifs at * <;> omega

theorem distance_triangle (a i j : Fin n) : distance a j ≤ distance a i + distance i j := by
  have hlt := distance_lt a j
  unfold distance at *
  split_ifs at * <;> omega

/-- Nothing is further from `i` than the position right after it. -/
theorem distance_le_distance_next (a i : Fin n) : distance a i ≤ distance (next i) i := by
  have hnext := next_val i
  have hlt := distance_lt a i
  unfold distance at *
  split_ifs at * <;> omega

/-- If the walk from `a` to `j` passes `b`, it also passes what lies between `b` and `j`. -/
theorem distance_lt_of_passes (hb : distance a b < distance a j) (hib : i ≠ b) (hjb : j ≠ b)
    (hij : i ≠ j) (h : distance j b ≤ distance i b) : distance a i < distance a j := by
  have hib' : i.val ≠ b.val := Fin.val_ne_of_ne hib
  have hjb' : j.val ≠ b.val := Fin.val_ne_of_ne hjb
  have hij' : i.val ≠ j.val := Fin.val_ne_of_ne hij
  unfold distance at *
  split_ifs at * <;> omega

theorem distance_next_right (h : distance a i + 1 < n) : distance a (next i) = distance a i + 1 := by
  have hnext := next_val i
  unfold distance at *
  split_ifs at * <;> omega

/-- A walk of fewer than `n` steps ends as many steps from its start. -/
theorem distance_iterate_next {k : Nat} (hk : k < n) : distance a (next^[k] a) = k := by
  induction k with
  | zero => simp
  | succ k ih =>
    have hlast := ih (Nat.lt_of_succ_lt hk)
    rw [Function.iterate_succ_apply', distance_next_right (by omega), hlast]

/-- A walk of as many steps as the distance ends at its goal. -/
theorem iterate_next_distance (a i : Fin n) : next^[distance a i] a = i :=
  distance_right_inj.1 (distance_iterate_next (distance_lt a i))

theorem next_val_mod (i : Fin n) : (next i).val = (i.val + 1) % n := by
  rw [next_val]
  split
  · exact (Nat.mod_eq_of_lt ‹_›).symm
  · have hlast : i.val + 1 = n := by omega
    rw [hlast, Nat.mod_self]

theorem val_iterate_next (a : Fin n) (k : Nat) : (next^[k] a).val = (a.val + k) % n := by
  induction k with
  | zero => exact (Nat.mod_eq_of_lt a.isLt).symm
  | succ k ih => rw [Function.iterate_succ_apply', next_val_mod, ih, Nat.mod_add_mod, Nat.add_assoc]

/-- A walk that starts behind `i`, passes `a` and stops before `i` is not a full turn. -/
theorem distance_next_add_lt (a i : Fin n) : distance (next i) a + distance a i < n := by
  have hnext := next_val i
  have ha := a.isLt
  unfold distance
  split_ifs at * <;> omega

end LinearProbing.Cyclic

-- SUMMARY: The load threshold as a bound on the capacity, and how it depends on count and capacity.
import LinearProbing.Policy
import Mathlib.Algebra.Order.Group.Nat
import Mathlib.Data.Bool.Basic

/-! # The load threshold

The load is a quotient that is rounded down before it is compared with the threshold, and the
capacity for a number of entries is another such quotient. `GrowthPolicy.needsGrowth_iff` says that
the two agree at every count, saturated or not. So all questions about the threshold can be asked
about capacities.
-/

namespace LinearProbing.GrowthPolicy

variable {policy : GrowthPolicy} {count count' capacity : Nat}

theorem percent_mono (h : count ≤ count') : percent count ≤ percent count' :=
  saturate_mono (Nat.mul_le_mul_left 100 h)

theorem percent_eq (h : 100 * count ≤ largestCount) : percent count = 100 * count :=
  saturate_of_le h

theorem needsGrowth_eq_false_iff :
    policy.needsGrowth count capacity = false ↔
      0 < capacity ∧ percent count / capacity ≤ policy.maxLoad := by
  simp [needsGrowth, Nat.pos_iff_ne_zero]

/-- The load is at most the threshold if and only if the capacity is above the quotient of the load
by the next percent. -/
theorem div_le_maxLoad_iff (hpos : 0 < capacity) :
    percent count / capacity ≤ policy.maxLoad ↔
      percent count / (policy.maxLoad + 1) + 1 ≤ capacity := by
  rw [← Nat.lt_succ_iff, Nat.div_lt_iff_lt_mul hpos, Nat.succ_le_iff,
    Nat.div_lt_iff_lt_mul policy.maxLoad.succ_pos, Nat.mul_comm]

/-- Below the capacity for its entries, and only there, a table needs growth. -/
theorem needsGrowth_iff (policy : GrowthPolicy) (hcount : 0 < count) (capacity : Nat) :
    policy.needsGrowth count capacity = true ↔ capacity < policy.capacityFor count := by
  rw [capacityFor, if_neg (Nat.ne_of_gt hcount), ← not_iff_not, Bool.not_eq_true,
    needsGrowth_eq_false_iff, Nat.not_lt]
  constructor
  · rintro ⟨hpos, hload⟩
    exact (div_le_maxLoad_iff hpos).1 hload
  · intro henough
    have hpos : 0 < capacity := Nat.lt_of_lt_of_le (Nat.succ_pos _) henough
    exact ⟨hpos, (div_le_maxLoad_iff hpos).2 henough⟩

/-- The load of a full table is one hundred percent. -/
theorem percent_div_self (hpos : 0 < count) (hword : 100 * count ≤ largestCount) :
    percent count / count = 100 := by
  rw [percent_eq hword, Nat.mul_div_cancel 100 hpos]

/-- Fewer entries in the same slots do not need growth either. -/
theorem needsGrowth_eq_false_of_le (h : policy.needsGrowth count' capacity = false)
    (hle : count ≤ count') : policy.needsGrowth count capacity = false := by
  obtain ⟨hpos, hload⟩ := needsGrowth_eq_false_iff.1 h
  exact needsGrowth_eq_false_iff.2
    ⟨hpos, (Nat.div_le_div_right (percent_mono hle)).trans hload⟩

/-- Below the threshold a slot is empty. -/
theorem lt_of_needsGrowth_eq_false (h : policy.needsGrowth count capacity = false)
    (hword : 100 * count ≤ largestCount) (hle : count ≤ capacity) : count < capacity := by
  obtain ⟨hpos, hload⟩ := needsGrowth_eq_false_iff.1 h
  refine Nat.lt_of_le_of_ne hle ?_
  rintro rfl
  have hfull := percent_div_self hpos hword
  have := policy.maxLoad_lt
  omega

/-- The divisor is at least two, so a quotient of counts leaves room for one more. -/
theorem percent_div_succ_lt (policy : GrowthPolicy) (count : Nat) :
    percent count / (policy.maxLoad + 1) < largestCount := by
  have hpos : 0 < largestCount := by decide
  have htwo : 1 < policy.maxLoad + 1 := Nat.succ_lt_succ policy.maxLoad_pos
  calc percent count / (policy.maxLoad + 1)
      ≤ largestCount / (policy.maxLoad + 1) :=
        Nat.div_le_div_right (saturate_le_largestCount _)
    _ < largestCount := Nat.div_lt_self hpos htwo

theorem capacityFor_le_largestCount (policy : GrowthPolicy) (count : Nat) :
    policy.capacityFor count ≤ largestCount := by
  unfold capacityFor
  split
  · exact Nat.zero_le _
  · exact policy.percent_div_succ_lt count

/-- As many slots as entries are not enough. -/
theorem lt_capacityFor (policy : GrowthPolicy) (hcount : 0 < count)
    (hword : 100 * count ≤ largestCount) : count < policy.capacityFor count := by
  rw [← needsGrowth_iff policy hcount count]
  apply Bool.eq_true_of_not_eq_false
  intro hbelow
  exact Nat.lt_irrefl count (lt_of_needsGrowth_eq_false hbelow hword (Nat.le_refl count))

theorem needsGrowth_monotone (policy : GrowthPolicy) (capacity : Nat) :
    Monotone fun count => policy.needsGrowth count capacity := by
  intro count count' hle
  rw [Bool.le_iff_imp]
  intro (hgrowth : policy.needsGrowth count capacity = true)
  apply Bool.eq_true_of_not_eq_false
  intro hbelow
  rw [needsGrowth_eq_false_of_le hbelow hle] at hgrowth
  cases hgrowth

theorem needsGrowth_antitone (policy : GrowthPolicy) (hcount : 0 < count) :
    Antitone (policy.needsGrowth count) := by
  intro capacity capacity' hle
  rw [Bool.le_iff_imp, needsGrowth_iff policy hcount, needsGrowth_iff policy hcount]
  intro hgrowth
  exact Nat.lt_of_le_of_lt hle hgrowth

end LinearProbing.GrowthPolicy

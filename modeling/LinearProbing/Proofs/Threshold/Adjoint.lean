-- SUMMARY: The capacity for a number of entries is the exact boundary of the load threshold.
import LinearProbing.Proofs.Program.Resize
import LinearProbing.Proofs.Threshold

/-! # The boundary of the threshold

A table asks whether its load is above the threshold, and it asks for the least capacity at which
the load is not. The two questions round down in different places: one divides by the capacity, the
other by the next percent. They meet at the same capacity for every count of entries, also where the
load has stopped at the end of the word range, and no step on the way leaves that range.
-/

namespace LinearProbing.GrowthPolicy

/-- Every policy is one that is accepted for its load and its ratio. -/
theorem make_eq_ok (policy : GrowthPolicy) : make policy.maxLoad policy.ratio = .ok policy := by
  unfold make
  rw [dif_pos ⟨policy.maxLoad_pos, policy.maxLoad_lt⟩, dif_pos policy.one_lt_ratio]

/-- The capacity for `count` entries separates the capacities that need growth from the others. -/
structure Separates (policy : GrowthPolicy) (count : Nat) : Prop where
  accepted : make policy.maxLoad policy.ratio = .ok policy
  needsGrowth_iff : ∀ capacity,
    policy.needsGrowth count capacity = true ↔ capacity < policy.capacityFor count
  monotone : ∀ capacity, Monotone fun entries => policy.needsGrowth entries capacity
  antitone : Antitone (policy.needsGrowth count)
  /-- The sums and the quotient are computed without a defect. -/
  computes : ∀ (σ : Type) (s : σ), Program.exec (Program.capacityFor policy count) s =
    .some (.ok (policy.capacityFor count), s)
  capacityFor_le : policy.capacityFor count ≤ largestCount
  lt_capacityFor : 100 * count ≤ largestCount → count < policy.capacityFor count

/-- Every policy has a boundary at every count of entries. -/
theorem capacityFor_separates (policy : GrowthPolicy) {count : Nat} (hcount : 0 < count) :
    policy.Separates count where
  accepted := policy.make_eq_ok
  needsGrowth_iff := policy.needsGrowth_iff hcount
  monotone := policy.needsGrowth_monotone
  antitone := policy.needsGrowth_antitone hcount
  computes := fun _ s => Program.exec_capacityFor policy count s
  capacityFor_le := policy.capacityFor_le_largestCount count
  lt_capacityFor := policy.lt_capacityFor hcount

/-- At the largest count the load has stopped at the end of the word range, long before it would
reach one hundred times the count. -/
theorem capacityFor_separates_largestCount :
    0 < largestCount ∧ percent largestCount = largestCount ∧
      standard.capacityFor largestCount = 259813296812810587 ∧
      standard.Separates largestCount :=
  ⟨by decide, by decide, by decide, capacityFor_separates standard (by decide)⟩

end LinearProbing.GrowthPolicy

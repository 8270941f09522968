-- SUMMARY: Where growth doubles the capacity, no entry is handed out above the load threshold.
import LinearProbing.Proofs.Doubling
import LinearProbing.Proofs.Table.Conservation
import LinearProbing.Proofs.Table.Growth

/-! # The load of a table

A table takes at most one growth step before it hands out an entry, however many of its slots are
occupied: it may have been shrunk until none was empty. If the step doubles the capacity, a full
table ends up at half of its slots, which is enough for every threshold from fifty percent on. So
an insertion leaves a table at most one entry above its threshold.
-/

namespace LinearProbing

universe u

namespace GrowthPolicy

variable {policy : GrowthPolicy} {limit count capacity : Nat}

/-- The threshold is at least half of the slots, and growth at least doubles the capacities below
the limit. -/
structure Doubling (policy : GrowthPolicy) (limit : Nat) : Prop where
  half_le : 50 ≤ policy.maxLoad
  twice_le : ∀ capacity, 0 < capacity → capacity < limit →
    2 * capacity ≤ policy.grownCapacity capacity

/-- The standard policy doubles every capacity that is exact as a float. -/
theorem doubling_standard : standard.Doubling (2 ^ 53) where
  half_le := by decide
  twice_le _ hpos hsmall := (grownCapacity_standard hpos hsmall).ge

/-- One growth step is enough for every number of entries. -/
theorem Doubling.needsGrowth_grownCapacity (h : policy.Doubling limit) (hlimit : capacity < limit)
    (hcount : count ≤ capacity) :
    policy.needsGrowth count (policy.grownCapacity capacity) = false := by
  have hgrown : 100 * count ≤ policy.grownCapacity capacity * 50 := by
    rcases Nat.eq_zero_or_pos capacity with rfl | hpos
    · omega
    · have := h.twice_le capacity hpos hlimit
      omega
  refine needsGrowth_eq_false_iff.2 ⟨Nat.zero_lt_of_lt (policy.lt_grownCapacity capacity), ?_⟩
  calc percent count / policy.grownCapacity capacity
      ≤ 100 * count / policy.grownCapacity capacity := Nat.div_le_div_right (saturate_le _)
    _ ≤ 50 := Nat.div_le_of_le_mul hgrown
    _ ≤ policy.maxLoad := h.half_le

/-- With a lower threshold a full table of one slot still needs growth after it has been doubled. -/
example (ratio : Float) (h : 1 < ratio) :
    needsGrowth ⟨49, ratio, by decide, by decide, h⟩ 1 2 = true := rfl

end GrowthPolicy

variable {α : Type u}

theorem EntryUse.count_result_le (use : EntryUse α) (e : Entry α) :
    (use.result e).count ≤ e.table.count + 1 := by
  cases use with
  | orInsertWith item update =>
    cases e with
    | vacant e => exact Nat.le_refl _
    | occupied e => exact Nat.le_succ _
  | andModify update => cases e <;> exact Nat.le_succ _
  | branch item? update removes =>
    cases e with
    | vacant e =>
      cases item? with
      | none => exact Nat.le_succ _
      | some item => exact Nat.le_refl _
    | occupied e =>
      cases removes with
      | false => exact Nat.le_succ _
      | true => exact (Nat.sub_le _ _).trans (Nat.le_succ _)

namespace Table

variable {t : Table α} {policy : GrowthPolicy} {limit : Nat} {hash : UInt64} {accepts : α → Bool}

/-- The entry is handed out at a load that is not above the threshold, and no use of it leaves the
table more than one entry above. -/
structure LoadBounded (t : Table α) (policy : GrowthPolicy) (e : Entry α) : Prop where
  handed_out : policy.needsGrowth t.count e.table.capacity = false
  used : ∀ use : EntryUse α,
    policy.needsGrowth ((use.result e).count - 1) (use.result e).capacity = false

theorem WellFormed.needsGrowth_entry (h : t.WellFormed) (hsizing : t.sizing = .growing policy)
    (hdoubling : policy.Doubling limit) (hlimit : t.capacity < limit) {e : Entry α}
    (hentry : t.entry hash accepts = .ok e) :
    policy.needsGrowth t.count e.table.capacity = false := by
  by_cases hneeds : t.NeedsRoom policy hash accepts
  · rw [(h.entry_rebuilt hsizing hneeds hentry).capacity_eq]
    exact hdoubling.needsGrowth_grownCapacity hlimit h.count_le
  · rw [h.table_of_entry hsizing hneeds hentry, ← Bool.not_eq_true]
    exact fun hload => hneeds (.inl hload)

theorem WellFormed.count_entry (h : t.WellFormed) {e : Entry α}
    (hentry : t.entry hash accepts = .ok e) : e.table.count = t.count := by
  obtain ⟨t', -, hrehoused, hlocates⟩ := h.entry_eq_ok hentry
  rw [hlocates.table_eq, hrehoused.count_eq h]

theorem WellFormed.loadBounded (h : t.WellFormed) (hsizing : t.sizing = .growing policy)
    (hdoubling : policy.Doubling limit) (hlimit : t.capacity < limit) {e : Entry α}
    (hentry : t.entry hash accepts = .ok e) : LoadBounded t policy e where
  handed_out := h.needsGrowth_entry hsizing hdoubling hlimit hentry
  used use := by
    have hcount := use.count_result_le e
    rw [h.count_entry hentry] at hcount
    rw [use.capacity_result]
    refine GrowthPolicy.needsGrowth_eq_false_of_le
      (h.needsGrowth_entry hsizing hdoubling hlimit hentry) ?_
    omega

/-- In every growing table that operations lead to, an entry is handed out at a load that is not
above the threshold, if the policy doubles the capacity of the table; the standard policy does so
below `2 ^ 53`. -/
theorem Reachable.entry_loadBounded (h : t.Reachable) (hsizing : t.sizing = .growing policy) :
    (∀ limit, policy.Doubling limit → t.capacity < limit → ∀ hash accepts e,
        t.entry hash accepts = .ok e → LoadBounded t policy e) ∧
      GrowthPolicy.standard.Doubling (2 ^ 53) :=
  ⟨fun _ hdoubling hlimit _ _ _ => h.wellFormed.loadBounded hsizing hdoubling hlimit,
    GrowthPolicy.doubling_standard⟩

/-- A full table hands out a vacant entry of twice as many slots. -/
theorem entry_loadBounded_single :
    ∃ e, single.entry 0 (fun _ => false) = .ok e ∧ e.table.capacity = 2 ∧
      LoadBounded single .standard e := by
  obtain ⟨hbounded, hdoubling⟩ := reachable_single.entry_loadBounded sizing_single
  have hcapacity : single.capacity = 1 := by decide +kernel
  have hgrown : GrowthPolicy.standard.grownCapacity single.capacity = 2 := by
    rw [hcapacity, GrowthPolicy.grownCapacity_standard (by decide) (by decide)]
  have hwf := reachable_single.wellFormed
  obtain ⟨e, hentry⟩ := hwf.entry_granted sizing_single (by rw [hgrown]; decide) 0 fun _ => false
  have hneeds : single.NeedsRoom .standard 0 fun _ => false := .inl (by decide +kernel)
  refine ⟨e, hentry, ?_, hbounded _ hdoubling (by rw [hcapacity]; decide) _ _ e hentry⟩
  rw [(hwf.entry_rebuilt sizing_single hneeds hentry).capacity_eq, hgrown]

end Table

end LinearProbing

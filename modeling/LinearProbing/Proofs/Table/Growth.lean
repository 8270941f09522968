-- SUMMARY: One growth step makes room for every entry, and below the load threshold a slot is empty.
import LinearProbing.Proofs.Table.Frame
import LinearProbing.Proofs.Threshold

/-! # Growth steps

A growing table enlarges its array when its load is above the threshold, and would do so a second
time if it still found no slot. The second step is never followed by a failure, because each step
adds a slot; and it is never taken, because a table below the threshold has an empty slot, as long
as the load is computed without saturation.

How many slots a step adds is a matter of speed only: the results hold for every function that takes
the place of the policy's, whatever the product with its ratio comes to.
-/

namespace LinearProbing

universe u

namespace GrowthPolicy

/-- What is known of the capacity that follows another. -/
structure Step (next : Nat → Nat) : Prop where
  zero : next 0 = initialCapacity
  succ_le : ∀ capacity, 0 < capacity → capacity + 1 ≤ next capacity

theorem Step.lt {next : Nat → Nat} (h : Step next) (capacity : Nat) : capacity < next capacity := by
  rcases Nat.eq_zero_or_pos capacity with rfl | hpos
  · rw [h.zero]
    decide
  · exact h.succ_le capacity hpos

theorem step_grownCapacity (policy : GrowthPolicy) : Step policy.grownCapacity where
  zero := if_pos rfl
  succ_le capacity _ := policy.lt_grownCapacity capacity

end GrowthPolicy

namespace Table

variable {α : Type u} {t t' : Table α} {policy : GrowthPolicy} {next : Nat → Nat} {hash : UInt64}
  {accepts : α → Bool}

/-- The entry for a hash and a predicate in a table that moves to `next capacity` slots: first if
`overloaded` says so, and once more if there is still no empty slot for a new entry. -/
def entryWith (t : Table α) (overloaded : Nat → Nat → Bool) (next : Nat → Nat) (hash : UInt64)
    (accepts : α → Bool) : Except Fault (Entry α) := do
  let t ← if overloaded t.count t.capacity then t.grow (next t.capacity) else pure t
  match t.locate hash accepts with
  | .ok entry => pure entry
  | .error _ =>
    let t ← t.grow (next t.capacity)
    match t.locate hash accepts with
    | .ok entry => pure entry
    | .error _ => throw (.stillFull t.capacity)

theorem entry_eq_entryWith (hsizing : t.sizing = .growing policy) (hash : UInt64)
    (accepts : α → Bool) :
    t.entry hash accepts = t.entryWith policy.needsGrowth policy.grownCapacity hash accepts := by
  unfold entry
  rw [hsizing]
  rfl

/-- The entry comes from one probe of a table that has an empty slot. -/
structure ProbedOnce (probed : Table α) (hash : UInt64) (accepts : α → Bool)
    (result : Except Fault (Entry α)) : Prop where
  empty : ∃ i, probed.slots.get i = none
  probe_ne_full : probed.slots.probe hash accepts ≠ .full
  result_eq : ∃ e, probed.locate hash accepts = .ok e ∧ result = .ok e ∧ e.table = probed

/-- Asking for an entry never finds the table still full after a growth step. If the load is computed
without saturation, the table grows exactly if it is above the threshold, by one step, and a slot is
empty when it is probed. -/
structure GrowsOnce (t : Table α) (policy : GrowthPolicy) (next : Nat → Nat) (hash : UInt64)
    (accepts : α → Bool) (result : Except Fault (Entry α)) : Prop where
  ne_stillFull : ∀ slots, result ≠ .error (.stillFull slots)
  stays : 100 * t.count < 2 ^ 64 → policy.needsGrowth t.count t.capacity = false →
    ProbedOnce t hash accepts result
  grows : policy.needsGrowth t.count t.capacity = true →
    (∃ t', t.grow (next t.capacity) = .ok t' ∧ t'.capacity = next t.capacity ∧
        ProbedOnce t' hash accepts result) ∨
      (capacityBound ≤ next t.capacity ∧ result = .error (.capacityTooLarge (next t.capacity)))

theorem probe_ne_full_of_locate {e : Entry α} (h : t.locate hash accepts = .ok e) :
    t.slots.probe hash accepts ≠ .full := by
  intro hprobe
  rw [locate_of_full hprobe] at h
  cases h

theorem WellFormed.exists_empty (h : t.WellFormed) (hroom : t.count < t.capacity) :
    ∃ i, t.slots.get i = none := by
  rw [h.count_eq] at hroom
  exact Slots.exists_empty_of_length_lt hroom

/-- A table with room is probed once. -/
theorem WellFormed.probedOnce (h : t.WellFormed) (hroom : t.count < t.capacity)
    {result : Except Fault (Entry α)}
    (hresult : ∀ e, t.locate hash accepts = .ok e → result = .ok e) :
    ProbedOnce t hash accepts result := by
  obtain ⟨e, hlocate, hlocates⟩ := h.exists_locate hroom hash accepts
  exact ⟨h.exists_empty hroom, probe_ne_full_of_locate hlocate,
    e, hlocate, hresult e hlocate, hlocates.table_eq⟩

/-- A growth step makes room, unless its capacity is too large. -/
theorem WellFormed.grow_next_cases (h : t.WellFormed) (hnext : GrowthPolicy.Step next) :
    (∃ t', t.grow (next t.capacity) = .ok t' ∧ t'.capacity = next t.capacity ∧ t'.WellFormed ∧
        t'.count < t'.capacity) ∨
      (capacityBound ≤ next t.capacity ∧
        t.grow (next t.capacity) = .error (.capacityTooLarge (next t.capacity))) := by
  have hmore := hnext.lt t.capacity
  have hle := h.count_le
  rcases h.grow_cases (next t.capacity) with
    ⟨t', hgrow, hrehoused, hcapacity⟩ | ⟨hfew, -⟩ | ⟨-, hlarge, hgrow⟩
  · have hcount := hrehoused.count_eq h
    exact .inl ⟨t', hgrow, hcapacity, hrehoused.wellFormed, by omega⟩
  · omega
  · exact .inr ⟨hlarge, hgrow⟩

/-- The result of a growth step and a probe, as a table that grows asks for it. -/
theorem WellFormed.entryWith_of_overloaded (h : t.WellFormed) {overloaded : Nat → Nat → Bool}
    (hnext : GrowthPolicy.Step next) (hneeds : overloaded t.count t.capacity = true) (hash : UInt64)
    (accepts : α → Bool) :
    (∃ t', t.grow (next t.capacity) = .ok t' ∧ t'.capacity = next t.capacity ∧
        ProbedOnce t' hash accepts (t.entryWith overloaded next hash accepts)) ∨
      (capacityBound ≤ next t.capacity ∧
        t.entryWith overloaded next hash accepts =
          .error (.capacityTooLarge (next t.capacity))) := by
  rcases h.grow_next_cases hnext with ⟨t', hgrow, hcapacity, hwf, hroom⟩ | ⟨hlarge, hgrow⟩
  · refine .inl ⟨t', hgrow, hcapacity, hwf.probedOnce hroom ?_⟩
    intro e hlocate
    simp only [entryWith, hneeds, if_true, bind, Except.bind, hgrow, hlocate, pure, Except.pure]
  · refine .inr ⟨hlarge, ?_⟩
    simp only [entryWith, hneeds, if_true, bind, Except.bind, hgrow]

/-- Without a growth step in front, a table is probed, and once more after a growth step if it turns
out to be full. -/
theorem WellFormed.entryWith_of_not_overloaded (h : t.WellFormed)
    {overloaded : Nat → Nat → Bool} (hnext : GrowthPolicy.Step next)
    (hneeds : overloaded t.count t.capacity = false) (hash : UInt64) (accepts : α → Bool) :
    (∃ e, t.entryWith overloaded next hash accepts = .ok e) ∨
      t.entryWith overloaded next hash accepts = .error (.capacityTooLarge (next t.capacity)) := by
  cases hlocate : t.locate hash accepts with
  | ok e =>
    refine .inl ⟨e, ?_⟩
    simp only [entryWith, hneeds, Bool.false_eq_true, if_false, bind, Except.bind, hlocate, pure,
      Except.pure]
  | error error =>
    rcases h.grow_next_cases hnext with ⟨t', hgrow, -, hwf, hroom⟩ | ⟨-, hgrow⟩
    · obtain ⟨e, hlocate', -⟩ := hwf.exists_locate hroom hash accepts
      refine .inl ⟨e, ?_⟩
      simp only [entryWith, hneeds, Bool.false_eq_true, if_false, bind, Except.bind, hlocate, hgrow,
        hlocate', pure, Except.pure]
    · refine .inr ?_
      simp only [entryWith, hneeds, Bool.false_eq_true, if_false, bind, Except.bind, hlocate, hgrow,
        pure, Except.pure]

theorem WellFormed.entryWith_ne_stillFull (h : t.WellFormed) {overloaded : Nat → Nat → Bool}
    (hnext : GrowthPolicy.Step next) (slots : Nat) :
    t.entryWith overloaded next hash accepts ≠ .error (.stillFull slots) := by
  intro hfull
  cases hneeds : overloaded t.count t.capacity with
  | true =>
    rcases h.entryWith_of_overloaded hnext hneeds hash accepts with
      ⟨t', -, -, -, -, e, -, hok, -⟩ | ⟨-, herror⟩
    · rw [hfull] at hok
      cases hok
    · rw [hfull] at herror
      cases herror
  | false =>
    rcases h.entryWith_of_not_overloaded hnext hneeds hash accepts with
      ⟨e, hok⟩ | herror
    · rw [hfull] at hok
      cases hok
    · rw [hfull] at herror
      cases herror

theorem WellFormed.growsOnce (h : t.WellFormed) (policy : GrowthPolicy)
    (hnext : GrowthPolicy.Step next) (hash : UInt64) (accepts : α → Bool) :
    GrowsOnce t policy next hash accepts (t.entryWith policy.needsGrowth next hash accepts) where
  ne_stillFull := h.entryWith_ne_stillFull hnext
  stays hword hneeds := by
    have hroom : t.count < t.capacity := by
      refine GrowthPolicy.lt_of_needsGrowth_eq_false hneeds ?_ h.count_le
      unfold largestCount
      omega
    refine h.probedOnce hroom ?_
    intro e hlocate
    simp only [entryWith, hneeds, Bool.false_eq_true, if_false, bind, Except.bind, hlocate, pure,
      Except.pure]
  grows hneeds := h.entryWith_of_overloaded hnext hneeds hash accepts

/-- In every table that operations lead to, one growth step is enough, whatever the capacity that
follows another is computed to be; and an entry of a growing table is asked for in this way, with the
capacity that its policy computes. -/
theorem Reachable.entry_growsOnce (h : t.Reachable) (hsizing : t.sizing = .growing policy)
    (hash : UInt64) (accepts : α → Bool) :
    (∀ next, GrowthPolicy.Step next →
        GrowsOnce t policy next hash accepts (t.entryWith policy.needsGrowth next hash accepts)) ∧
      GrowthPolicy.Step policy.grownCapacity ∧
      GrowsOnce t policy policy.grownCapacity hash accepts (t.entry hash accepts) := by
  have hgrows (next : Nat → Nat) (hnext : GrowthPolicy.Step next) :
      GrowsOnce t policy next hash accepts (t.entryWith policy.needsGrowth next hash accepts) :=
    h.wellFormed.growsOnce policy hnext hash accepts
  refine ⟨hgrows, policy.step_grownCapacity, ?_⟩
  rw [entry_eq_entryWith hsizing]
  exact hgrows policy.grownCapacity policy.step_grownCapacity

/-- A table of one slot that holds one entry. -/
def single : Table Nat :=
  Op.after (.fresh Nat (.growing .standard) 1)
    (.entry 0 (fun _ => false) (.branch (some 0) id false))

theorem reachable_single : single.Reachable :=
  .step (.start (.ofCapacity (rfl : Table.ofCapacity _ .standard 1 = _))) _

theorem sizing_single : single.sizing = .growing .standard :=
  ((wellFormed_fresh (.growing .standard) 1).frame_after _).1

/-- A full table, with the least steps that there are. -/
theorem entry_growsOnce_single :
    single.count = single.capacity ∧
      GrowsOnce single .standard (fun capacity => if capacity = 0 then 7 else capacity + 1) 0
        (fun _ => false)
        (single.entryWith GrowthPolicy.standard.needsGrowth
          (fun capacity => if capacity = 0 then 7 else capacity + 1) 0 fun _ => false) := by
  refine ⟨by decide +kernel, ?_⟩
  obtain ⟨hgrows, -⟩ := reachable_single.entry_growsOnce sizing_single 0 fun _ => false
  refine hgrows _ ⟨rfl, ?_⟩
  intro capacity hpos
  rw [if_neg (Nat.ne_of_gt hpos)]

end Table

end LinearProbing

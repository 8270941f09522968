-- SUMMARY: The exact conditions under which a growing table refuses an operation.
import LinearProbing.Proofs.Table.Growth

/-! # Refused operations

An operation on a growing table ends in a fault only if the table would need too many slots for it,
or if it is to move to fewer slots than it has entries. `Op.Refused` lists the conditions, and
`Op.outcome` is what an operation comes to with the fault that may end it.
-/

namespace LinearProbing.Table

universe u

variable {α : Type u} {t : Table α} {policy : GrowthPolicy}

/-- What an operation makes of a table, or why it is abandoned. An operation without effect leaves
the table as it is. -/
def Op.outcome (t : Table α) : Op α → Except Fault (Table α)
  | .entry hash accepts use => (t.entry hash accepts).map use.result
  | .tryEntry hash accepts use => .ok ((t.locate hash accepts).toOption.elim t use.result)
  | .modify hash accepts update => .ok ((t.modify? hash accepts update).elim t (·.2))
  | .remove hash accepts => .ok ((t.remove? hash accepts).elim t (·.2))
  | .visit script => .ok (t.visited (t.traversal.visit script).2)
  | .clear => .ok t.clear
  | .drain => .ok t.drain.2
  | .grow capacity => t.grow capacity
  | .reserve additional => t.reserve additional
  | .shrinkToFit => t.shrinkToFit
  | .retain select state => (t.retain select state).map (·.2)

theorem Op.after_eq_outcome (op : Op α) (t : Table α) :
    op.after t = (op.outcome t).toOption.getD t := by
  unfold Op.after
  cases op with
  | entry hash accepts use => rw [result?, outcome]; cases t.entry hash accepts <;> rfl
  | tryEntry hash accepts use => rw [result?, outcome]; cases t.locate hash accepts <;> rfl
  | modify hash accepts update => rw [result?, outcome]; cases t.modify? hash accepts update <;> rfl
  | remove hash accepts => rw [result?, outcome]; cases t.remove? hash accepts <;> rfl
  | retain select state => rw [result?, outcome]; cases t.retain select state <;> rfl
  | visit script | clear | drain | grow capacity | reserve additional | shrinkToFit => rfl

/-! ## Conditions -/

/-- The load demands a growth step, and the step leads to too many slots. -/
structure Outgrown (t : Table α) (policy : GrowthPolicy) : Prop where
  needsGrowth : policy.needsGrowth t.count t.capacity = true
  too_large : capacityBound ≤ policy.grownCapacity t.capacity

/-- More slots are required for so many additional entries, and they are too many. -/
structure Unreservable (t : Table α) (policy : GrowthPolicy) (additional : Nat) : Prop where
  more : t.capacity < policy.capacityFor (saturate (t.count + additional))
  too_large : capacityBound ≤ policy.capacityFor (saturate (t.count + additional))

/-- The condition under which a growing table refuses an operation. -/
def Op.Refused (policy : GrowthPolicy) (t : Table α) : Op α → Prop
  | .entry _ _ _ => t.Outgrown policy
  | .grow capacity => capacity < t.count ∨ capacityBound ≤ capacity
  | .reserve additional => t.Unreservable policy additional
  | _ => False

/-- A growing table that operations lead to, and whose load is computed without saturation. -/
structure Grows (t : Table α) (policy : GrowthPolicy) : Prop where
  reachable : t.Reachable
  sizing_eq : t.sizing = .growing policy
  count_word : 100 * t.count < 2 ^ 64

theorem isOk_map {ε β γ : Type*} (f : β → γ) (result : Except ε β) :
    (result.map f).isOk = result.isOk := by
  cases result <;> rfl

theorem fails_iff_false {ε β : Type*} {result : Except ε β} (h : result.isOk = true) :
    result.isOk = false ↔ False :=
  iff_of_false (by rw [h]; exact Bool.false_ne_true.symm) id

theorem WellFormed.grow_fails_iff (h : t.WellFormed) (capacity : Nat) :
    (t.grow capacity).isOk = false ↔ capacity < t.count ∨ capacityBound ≤ capacity := by
  rcases h.grow_cases capacity with ⟨t', hgrow, -⟩ | ⟨hfew, hgrow⟩ | ⟨-, hlarge, hgrow⟩
  · have hbelow := lt_bound_of_grow hgrow
    have hroom : ¬capacity < t.count := by
      intro hfew
      rw [grow, if_pos hfew] at hgrow
      cases hgrow
    rw [hgrow]
    refine iff_of_false Bool.false_ne_true.symm ?_
    rintro (hfew | hlarge)
    · exact hroom hfew
    · exact Nat.not_le_of_lt hbelow hlarge
  · rw [hgrow]
    exact iff_of_true rfl (.inl hfew)
  · rw [hgrow]
    exact iff_of_true rfl (.inr hlarge)

theorem WellFormed.reserve_fails_iff (h : t.WellFormed) (hsizing : t.sizing = .growing policy)
    (additional : Nat) :
    (t.reserve additional).isOk = false ↔ t.Unreservable policy additional := by
  rw [reserve, hsizing]
  simp only
  split
  · next hmore =>
    rw [h.grow_fails_iff]
    refine ⟨?_, fun hlacks => .inr hlacks.too_large⟩
    rintro (hfew | hlarge)
    · exact absurd (h.count_le.trans hmore.le) (Nat.not_le_of_lt hfew)
    · exact ⟨hmore, hlarge⟩
  · next henough => exact iff_of_false Bool.false_ne_true.symm fun hlacks => henough hlacks.more

theorem Grows.entry_fails_iff (h : t.Grows policy) (hash : UInt64) (accepts : α → Bool) :
    (t.entry hash accepts).isOk = false ↔ t.Outgrown policy := by
  obtain ⟨-, -, -, hstays, hgrows⟩ := h.reachable.entry_growsOnce h.sizing_eq hash accepts
  cases hneeds : policy.needsGrowth t.count t.capacity with
  | false =>
    obtain ⟨-, -, e, -, hentry, -⟩ := hstays h.count_word hneeds
    rw [hentry]
    refine iff_of_false Bool.false_ne_true.symm ?_
    intro houtgrown
    rw [houtgrown.needsGrowth] at hneeds
    cases hneeds
  | true =>
    rcases hgrows hneeds with ⟨t', hgrow, -, -, -, e, -, hentry, -⟩ | ⟨hlarge, hentry⟩
    · have hbelow := lt_bound_of_grow hgrow
      rw [hentry]
      exact iff_of_false Bool.false_ne_true.symm fun houtgrown =>
        Nat.not_le_of_lt hbelow houtgrown.too_large
    · rw [hentry]
      exact iff_of_true rfl ⟨hneeds, hlarge⟩

theorem WellFormed.shrinkToFit_isOk (h : t.WellFormed) : t.shrinkToFit.isOk = true := by
  obtain ⟨t', hshrink, -⟩ := h.shrinkToFit_spec
  rw [hshrink]
  rfl

theorem retain_isOk {σ : Type*} (t : Table α) (select : σ → α → σ × Option α) (state : σ) :
    (t.retain select state).isOk = true := by
  obtain ⟨t', hretain, -⟩ := t.retain_spec select state
  rw [hretain]
  rfl

/-- A growing table refuses an operation exactly under its condition. -/
theorem Grows.outcome_fails_iff (h : t.Grows policy) (op : Op α) :
    (op.outcome t).isOk = false ↔ op.Refused policy t := by
  have hwf := h.reachable.wellFormed
  cases op with
  | entry hash accepts use =>
    rw [Op.outcome, isOk_map]
    exact h.entry_fails_iff hash accepts
  | grow capacity => exact hwf.grow_fails_iff capacity
  | reserve additional => exact hwf.reserve_fails_iff h.sizing_eq additional
  | shrinkToFit => exact fails_iff_false hwf.shrinkToFit_isOk
  | retain select state =>
    rw [Op.outcome, isOk_map]
    exact fails_iff_false (t.retain_isOk select state)
  | tryEntry hash accepts use | modify hash accepts update | remove hash accepts | visit script
  | clear | drain => exact fails_iff_false rfl

end LinearProbing.Table

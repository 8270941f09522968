-- SUMMARY: Moving a table to another array: when it succeeds, and that no entry is lost or added.
import LinearProbing.Proofs.Table.WellFormed
import LinearProbing.Table.Resize

/-! # Rebuilt tables

A rebuild succeeds whenever there are as many slots as entries, and its result is well-formed, also
when that leaves no slot empty. So growing can only be refused for the capacity it asks for.
-/

namespace LinearProbing

universe u v

/-- A larger capacity follows every capacity. -/
theorem GrowthPolicy.lt_grownCapacity (policy : GrowthPolicy) (capacity : Nat) :
    capacity < policy.grownCapacity capacity := by
  unfold grownCapacity
  split
  · next hzero => rw [hzero]; decide
  · exact Nat.le_max_right _ _

namespace Table

variable {α : Type u} {t t' : Table α}

/-- The same entries in an array of possibly another size. -/
structure Rehoused (t t' : Table α) : Prop where
  wellFormed : t'.WellFormed
  sizing_eq : t'.sizing = t.sizing
  cells_perm : t'.slots.cells.Perm t.slots.cells

theorem WellFormed.rehoused (h : t.WellFormed) : Rehoused t t := ⟨h, rfl, List.Perm.refl _⟩

theorem Rehoused.count_eq (h : Rehoused t t') (ht : t.WellFormed) : t'.count = t.count := by
  rw [h.wellFormed.count_eq, ht.count_eq, h.cells_perm.length_eq]

theorem rebuild_spec (t : Table α) {capacity : Nat} {cells : List (Cell α)}
    (hroom : cells.length ≤ capacity) :
    ∃ t', t.rebuild capacity cells = .ok t' ∧ t'.WellFormed ∧ t'.sizing = t.sizing ∧
      t'.capacity = capacity ∧ t'.slots.cells.Perm cells := by
  obtain ⟨slots, hplace⟩ :=
    (Slots.empty α capacity).exists_placeAll? cells (by simpa using hroom)
  have hsettled := Slots.settled_empty.placeAll? hplace
  have hperm := Slots.cells_placeAll?_empty hplace
  refine ⟨{ t with capacity, slots, count := cells.length }, ?_, ⟨?_, hsettled⟩, rfl, rfl, hperm⟩
  · rw [rebuild, hplace]
  · exact hperm.length_eq.symm

/-- Growing moves all entries, unless there are too few slots for them or too many for an array. -/
theorem WellFormed.grow_cases (h : t.WellFormed) (capacity : Nat) :
    (∃ t', t.grow capacity = .ok t' ∧ Rehoused t t' ∧ t'.capacity = capacity) ∨
      (capacity < t.count ∧ t.grow capacity = .error (.doesNotFit t.count capacity)) ∨
      (t.count ≤ capacity ∧ capacityBound ≤ capacity ∧
        t.grow capacity = .error (.capacityTooLarge capacity)) := by
  unfold grow
  split
  · next hfew => exact .inr (.inl ⟨hfew, rfl⟩)
  · next hroom =>
    split
    · next hlarge => exact .inr (.inr ⟨Nat.le_of_not_lt hroom, hlarge, rfl⟩)
    · have hlength : t.slots.cells.length ≤ capacity := by
        rw [← h.count_eq]
        exact Nat.le_of_not_lt hroom
      obtain ⟨t', hrebuild, hwf, hsizing, hcapacity, hcells⟩ := t.rebuild_spec hlength
      exact .inl ⟨t', hrebuild, ⟨hwf, hsizing, hcells⟩, hcapacity⟩

theorem WellFormed.grow_eq_ok (h : t.WellFormed) {capacity : Nat}
    (hgrow : t.grow capacity = .ok t') : Rehoused t t' ∧ t'.capacity = capacity := by
  rcases h.grow_cases capacity with ⟨t₁, hok, hspec⟩ | ⟨-, herror⟩ | ⟨-, -, herror⟩
  · rw [hgrow] at hok
    cases hok
    exact hspec
  · rw [hgrow] at herror
    cases herror
  · rw [hgrow] at herror
    cases herror

theorem WellFormed.reserve_cases (h : t.WellFormed) (additional : Nat) :
    (∃ t', t.reserve additional = .ok t' ∧ Rehoused t t') ∨
      ∃ capacity, t.reserve additional = .error (.capacityTooLarge capacity) := by
  unfold reserve
  split
  · exact .inl ⟨t, rfl, h.rehoused⟩
  · next policy _ =>
    simp only
    split
    · next hmore =>
      rcases h.grow_cases (policy.capacityFor (saturate (t.count + additional))) with
        ⟨t', hgrow, hrehoused, -⟩ | ⟨hfew, -⟩ | ⟨-, -, hgrow⟩
      · exact .inl ⟨t', hgrow, hrehoused⟩
      · exact absurd (h.count_le.trans hmore.le) (Nat.not_le_of_lt hfew)
      · exact .inr ⟨_, hgrow⟩
    · exact .inl ⟨t, rfl, h.rehoused⟩

theorem WellFormed.reserve_eq_ok (h : t.WellFormed) {additional : Nat}
    (hreserve : t.reserve additional = .ok t') : Rehoused t t' := by
  rcases h.reserve_cases additional with ⟨t₁, hok, hrehoused⟩ | ⟨_, herror⟩
  · rw [hreserve] at hok
    cases hok
    exact hrehoused
  · rw [hreserve] at herror
    cases herror

theorem WellFormed.shrinkToFit_spec (h : t.WellFormed) :
    ∃ t', t.shrinkToFit = .ok t' ∧ Rehoused t t' ∧ t'.capacity = t.count := by
  unfold shrinkToFit
  split
  · next hfull => exact ⟨t, rfl, h.rehoused, hfull⟩
  · obtain ⟨t', hrebuild, hwf, hsizing, hcapacity, hcells⟩ := t.rebuild_spec h.count_eq.ge
    exact ⟨t', hrebuild, ⟨hwf, hsizing, hcells⟩, hcapacity⟩

theorem WellFormed.shrinkToFit_eq_ok (h : t.WellFormed) (hshrink : t.shrinkToFit = .ok t') :
    Rehoused t t' ∧ t'.capacity = t.count := by
  obtain ⟨t₁, hok, hspec⟩ := h.shrinkToFit_spec
  rw [hshrink] at hok
  cases hok
  exact hspec

/-! ## Retaining -/

section Retain

variable {σ : Type v}

theorem length_sift_le (visit : σ → α → σ × Option α) (state : σ) (cells : List (Cell α)) :
    (sift visit state cells).2.length ≤ cells.length := by
  induction cells generalizing state with
  | nil => exact Nat.le_refl _
  | cons cell cells ih =>
    unfold sift
    simp only
    split
    · exact Nat.succ_le_succ (ih _)
    · exact Nat.le_succ_of_le (ih _)

/-- Retaining places the entries that the visit keeps in an array of the same size. -/
theorem retain_spec (t : Table α) (visit : σ → α → σ × Option α) (state : σ) :
    ∃ t', t.retain visit state = .ok ((sift visit state t.slots.cells).1, t') ∧ t'.WellFormed ∧
      t'.sizing = t.sizing ∧ t'.capacity = t.capacity ∧
      t'.slots.cells.Perm (sift visit state t.slots.cells).2 := by
  have hroom : (sift visit state t.slots.cells).2.length ≤ t.capacity :=
    (length_sift_le visit state t.slots.cells).trans t.slots.length_cells_le
  obtain ⟨t', hrebuild, hwf, hsizing, hcapacity, hcells⟩ := t.rebuild_spec hroom
  refine ⟨t', ?_, hwf, hsizing, hcapacity, hcells⟩
  simp only [retain, hrebuild]

end Retain

end Table

end LinearProbing

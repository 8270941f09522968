-- SUMMARY: Where a probe ends, and that placement finds the first empty slot from home on.
import LinearProbing.Proofs.Slots.Layout
import LinearProbing.Slots.Placement
import LinearProbing.Slots.Probe

/-! # Where a search ends

A probe ends at the first slot from home on that is empty or holds a match. Placement looks for the
first empty slot in another way, by two scans along the array, and finds the same one.
-/

namespace LinearProbing

universe u

variable {α : Type u} {n : Nat}

namespace Probe

/-- The number of slots that a probe of at most `steps` slots from `start` on has passed by. -/
def passed (start : Fin n) (steps : Nat) : Probe α n → Nat
  | .found i _ => Cyclic.distance start i
  | .vacant i => Cyclic.distance start i
  | .full => steps

/-- The probe from the next slot on passes by at most one slot fewer. -/
theorem passed_le (probe : Probe α n) (start : Fin n) (steps : Nat) :
    probe.passed start (steps + 1) ≤ probe.passed (Cyclic.next start) steps + 1 := by
  have hstep (i : Fin n) :
      Cyclic.distance start i ≤ Cyclic.distance (Cyclic.next start) i + 1 := by
    by_cases h : start = i
    · simp [h]
    · exact Nat.le_of_eq (Cyclic.distance_next h).symm
  cases probe with
  | found i cell => exact hstep i
  | vacant i => exact hstep i
  | full => exact Nat.le_refl _

end Probe

namespace Slots

/-! ## Probes -/

/-- The slot holds an entry that a lookup passes by. -/
def PassedBy (s : Slots α n) (hash : UInt64) (accepts : α → Bool) (q : Fin n) : Prop :=
  ∃ cell, s.get q = some cell ∧ ¬Matches hash accepts cell

theorem PassedBy.isSome {s : Slots α n} {hash : UInt64} {accepts : α → Bool} {q : Fin n}
    (h : s.PassedBy hash accepts q) : (s.get q).isSome := by
  obtain ⟨cell, hq, -⟩ := h
  rw [hq]
  rfl

theorem passedBy_of_probeFrom {s : Slots α n} {hash : UInt64} {accepts : α → Bool} {steps : Nat}
    {start q : Fin n}
    (hq : Cyclic.distance start q < (s.probeFrom hash accepts steps start).passed start steps) :
    s.PassedBy hash accepts q := by
  induction steps generalizing start with
  | zero => exact absurd hq (Nat.not_lt_zero _)
  | succ steps ih =>
    rw [probeFrom] at hq
    cases hstart : s.get start with
    | none =>
      rw [hstart] at hq
      exact absurd hq (by simp [Probe.passed])
    | some cell =>
      simp only [hstart] at hq
      split at hq
      · exact absurd hq (by simp [Probe.passed])
      · rename_i hm
        by_cases hqs : start = q
        · exact hqs ▸ ⟨cell, hstart, hm⟩
        · have hnext := Cyclic.distance_next hqs
          have hle := Probe.passed_le
            (s.probeFrom hash accepts steps (Cyclic.next start)) start steps
          have hrest : Cyclic.distance (Cyclic.next start) q <
              (s.probeFrom hash accepts steps (Cyclic.next start)).passed (Cyclic.next start) steps := by
            omega
          exact ih hrest

theorem passedBy_of_probe {s : Slots α n} {hash : UInt64} {accepts : α → Bool} {q : Fin n}
    (hq : Cyclic.distance (home hash q.pos) q <
      (s.probe hash accepts).passed (home hash q.pos) n) : s.PassedBy hash accepts q := by
  rw [probe, dif_pos q.pos] at hq
  exact passedBy_of_probeFrom hq

/-- The match that a probe finds is the first one. -/
theorem passedBy_of_probe_found {s : Slots α n} {hash : UInt64} {accepts : α → Bool} {i : Fin n}
    {cell : Cell α} (h : s.probe hash accepts = .found i cell) {q : Fin n}
    (hq : OnWay hash q i) : s.PassedBy hash accepts q := by
  apply passedBy_of_probe
  rw [h]
  exact hq

theorem passedBy_of_probe_vacant {s : Slots α n} {hash : UInt64} {accepts : α → Bool} {i : Fin n}
    (h : s.probe hash accepts = .vacant i) {q : Fin n} (hq : OnWay hash q i) :
    s.PassedBy hash accepts q := by
  apply passedBy_of_probe
  rw [h]
  exact hq

theorem passedBy_of_probe_full {s : Slots α n} {hash : UInt64} {accepts : α → Bool}
    (h : s.probe hash accepts = .full) (q : Fin n) : s.PassedBy hash accepts q := by
  apply passedBy_of_probe
  rw [h]
  exact Cyclic.distance_lt _ _

theorem firstEmpty_of_probe {s : Slots α n} {hash : UInt64} {accepts : α → Bool} {i : Fin n}
    (h : s.probe hash accepts = .vacant i) : s.FirstEmpty (home hash i.pos) i := by
  refine ⟨probe_vacant h, ?_⟩
  intro q hq
  exact (passedBy_of_probe_vacant h hq).isSome

/-- A probe that ends at an empty slot has not missed a match: no way to an entry passes an empty
slot. -/
theorem Reachable.not_matches_of_vacant {s : Slots α n} (hs : s.Reachable) {hash : UInt64}
    {accepts : α → Bool} {i j : Fin n} {cell : Cell α} (h : s.probe hash accepts = .vacant i)
    (hj : s.get j = some cell) : ¬Matches hash accepts cell := by
  intro hm
  have hij : i ≠ j := ne_of_isSome (probe_vacant h) (Option.isSome_of_eq_some hj)
  rcases Nat.lt_or_ge (Cyclic.distance (home hash j.pos) j)
    (Cyclic.distance (home hash j.pos) i) with hlt | hge
  · obtain ⟨cell', hj', hm'⟩ := passedBy_of_probe_vacant h hlt
    rw [hj] at hj'
    cases hj'
    exact hm' hm
  · have hlt := Nat.lt_of_le_of_ne hge fun e => hij (Cyclic.distance_right_inj.1 e)
    rw [← hm.1] at hlt
    exact ne_of_isSome (probe_vacant h) (hs hj hlt).1 rfl

theorem not_matches_of_full {s : Slots α n} {hash : UInt64} {accepts : α → Bool} {j : Fin n}
    {cell : Cell α} (h : s.probe hash accepts = .full) (hj : s.get j = some cell) :
    ¬Matches hash accepts cell := by
  obtain ⟨cell', hj', hm⟩ := passedBy_of_probe_full h j
  rw [hj] at hj'
  cases hj'
  exact hm

/-! ## Scans -/

theorem first?_eq_some {s : Slots α n} {p : Option (Cell α) → Bool} {start stop : Nat} {i : Fin n}
    (h : s.first? p start stop = some i) :
    start ≤ i.val ∧ i.val < stop ∧ p (s.get i) ∧
      ∀ j : Fin n, start ≤ j.val → j.val < i.val → ¬p (s.get j) := by
  fun_induction first? s p start stop with
  | case1 start hlt hp =>
    cases h
    refine ⟨Nat.le_refl _, hlt.1, hp, ?_⟩
    intro j hj hj'
    exact absurd hj' (Nat.not_lt.2 hj)
  | case2 start hlt hp ih =>
    obtain ⟨hi, hstop, hpi, hbefore⟩ := ih h
    refine ⟨Nat.le_of_succ_le hi, hstop, hpi, ?_⟩
    intro j hj hj'
    rcases Nat.lt_or_eq_of_le hj with hj | hj
    · exact hbefore j hj hj'
    · have : j = ⟨start, hlt.2⟩ := Fin.ext hj.symm
      exact this ▸ hp
  | case3 => cases h

theorem first?_eq_none {s : Slots α n} {p : Option (Cell α) → Bool} {start stop : Nat}
    (h : s.first? p start stop = none) (j : Fin n) (hstart : start ≤ j.val)
    (hstop : j.val < stop) : ¬p (s.get j) := by
  fun_induction first? s p start stop with
  | case1 => cases h
  | case2 start hlt hp ih =>
    rcases Nat.lt_or_eq_of_le hstart with hj | hj
    · exact ih h hj
    · have : j = ⟨start, hlt.2⟩ := Fin.ext hj.symm
      exact this ▸ hp
  | case3 start hge => exact absurd ⟨Nat.lt_of_le_of_lt hstart hstop, by omega⟩ hge

theorem last?_eq_some {s : Slots α n} {p : Option (Cell α) → Bool} {start stop : Nat} {i : Fin n}
    (h : s.last? p start stop = some i) :
    start ≤ i.val ∧ i.val < stop ∧ p (s.get i) ∧
      ∀ j : Fin n, i.val < j.val → j.val < stop → ¬p (s.get j) := by
  fun_induction last? s p start stop with
  | case1 => cases h
  | case2 last hle hlt hp =>
    cases h
    refine ⟨hle, Nat.lt_succ_self last, hp, ?_⟩
    intro j hj hj'
    exact absurd (Nat.lt_of_lt_of_le hj (Nat.le_of_lt_succ hj')) (Nat.lt_irrefl last)
  | case3 last hle hlt hp ih =>
    obtain ⟨hi, hstop, hpi, hafter⟩ := ih h
    refine ⟨hi, Nat.lt_succ_of_lt hstop, hpi, ?_⟩
    intro j hj hj'
    rcases Nat.lt_or_eq_of_le (Nat.le_of_lt_succ hj') with hj' | hj'
    · exact hafter j hj hj'
    · have : j = ⟨last, hlt⟩ := Fin.ext hj'
      exact this ▸ hp
  | case4 last hle hge ih =>
    obtain ⟨hi, hstop, hpi, hafter⟩ := ih h
    refine ⟨hi, Nat.lt_succ_of_lt hstop, hpi, ?_⟩
    intro j hj hj'
    exact hafter j hj (Nat.lt_of_lt_of_le j.isLt (Nat.le_of_not_lt hge))
  | case5 => cases h

theorem last?_eq_none {s : Slots α n} {p : Option (Cell α) → Bool} {start stop : Nat}
    (h : s.last? p start stop = none) (j : Fin n) (hstart : start ≤ j.val)
    (hstop : j.val < stop) : ¬p (s.get j) := by
  fun_induction last? s p start stop with
  | case1 => exact absurd hstop (Nat.not_lt_zero _)
  | case2 => cases h
  | case3 last hle hlt hp ih =>
    rcases Nat.lt_or_eq_of_le (Nat.le_of_lt_succ hstop) with hj | hj
    · exact ih h hj
    · have : j = ⟨last, hlt⟩ := Fin.ext hj
      exact this ▸ hp
  | case4 last hle hge ih => exact ih h (Nat.lt_of_lt_of_le j.isLt (Nat.le_of_not_lt hge))
  | case5 last hgt => exact absurd (hstart.trans (Nat.le_of_lt_succ hstop)) hgt

/-! ## Placement -/

theorem firstEmpty_of_vacancy? {s : Slots α n} {hash : UInt64} {i : Fin n}
    (h : s.vacancy? hash = some i) : s.FirstEmpty (home hash i.pos) i := by
  have hhome : (home hash i.pos).val = scale hash n := rfl
  rw [vacancy?] at h
  cases hback : s.first? Option.isNone (scale hash n) n with
  | some j =>
    rw [hback] at h
    cases h
    obtain ⟨hle, -, hempty, hbefore⟩ := first?_eq_some hback
    refine ⟨Option.isNone_iff_eq_none.1 hempty, ?_⟩
    intro q hq
    have hrange : scale hash n ≤ q.val ∧ q.val < i.val := by
      unfold Cyclic.distance at hq
      split at hq <;> split at hq <;> omega
    simpa [Option.isSome_iff_ne_none] using hbefore q hrange.1 hrange.2
  | none =>
    simp only [hback] at h
    have hfront : s.first? Option.isNone 0 (scale hash n) = some i := by simpa using h
    obtain ⟨-, hlt, hempty, hbefore⟩ := first?_eq_some hfront
    refine ⟨Option.isNone_iff_eq_none.1 hempty, ?_⟩
    intro q hq
    rcases Nat.lt_or_ge q.val (scale hash n) with hq' | hq'
    · have hlt' : q.val < i.val := by
        unfold Cyclic.distance at hq
        split at hq <;> split at hq <;> omega
      simpa [Option.isSome_iff_ne_none] using hbefore q (Nat.zero_le _) hlt'
    · simpa [Option.isSome_iff_ne_none] using first?_eq_none hback q hq' q.isLt

theorem isSome_of_vacancy?_eq_none {s : Slots α n} {hash : UInt64} (h : s.vacancy? hash = none)
    (q : Fin n) : (s.get q).isSome := by
  rw [vacancy?] at h
  cases hback : s.first? Option.isNone (scale hash n) n with
  | some j =>
    rw [hback] at h
    cases h
  | none =>
    simp only [hback] at h
    have hfront : s.first? Option.isNone 0 (scale hash n) = none := by simpa using h
    rcases Nat.lt_or_ge q.val (scale hash n) with hq | hq
    · simpa [Option.isSome_iff_ne_none] using first?_eq_none hfront q (Nat.zero_le _) hq
    · simpa [Option.isSome_iff_ne_none] using first?_eq_none hback q hq q.isLt

theorem place?_eq_some {s t : Slots α n} {cell : Cell α} (h : s.place? cell = some t) :
    ∃ i, s.FirstEmpty (home cell.hash i.pos) i ∧ t = s.put i (some cell) := by
  obtain ⟨i, hi, rfl⟩ := Option.map_eq_some_iff.1 h
  exact ⟨i, firstEmpty_of_vacancy? hi, rfl⟩

theorem place?_of_firstEmpty {s : Slots α n} {cell : Cell α} {i : Fin n}
    (h : s.FirstEmpty (home cell.hash i.pos) i) : s.place? cell = some (s.put i (some cell)) := by
  cases hv : s.vacancy? cell.hash with
  | none => exact absurd rfl (ne_of_isSome h.1 (isSome_of_vacancy?_eq_none hv i))
  | some j =>
    obtain rfl := (firstEmpty_of_vacancy? hv).unique h
    rw [place?, hv, Option.map_some]

theorem cells_place? {s t : Slots α n} {cell : Cell α} (h : s.place? cell = some t) :
    t.cells.Perm (cell :: s.cells) := by
  obtain ⟨i, hi, rfl⟩ := place?_eq_some h
  have hs : s.cells.Perm (s.others i) := by simpa [hi.1] using cells_perm_others s i
  exact (cells_put_perm s i (some cell)).trans (hs.symm.cons cell)

theorem exists_place? {s : Slots α n} (cell : Cell α) (h : s.cells.length < n) :
    ∃ t, s.place? cell = some t := by
  cases hv : s.vacancy? cell.hash with
  | some i => exact ⟨s.put i (some cell), by rw [place?, hv, Option.map_some]⟩
  | none =>
    obtain ⟨i, hi⟩ := exists_empty_of_length_lt h
    exact absurd rfl (ne_of_isSome hi (isSome_of_vacancy?_eq_none hv i))

theorem Settled.place? {s t : Slots α n} {cell : Cell α} (hs : s.Settled)
    (h : s.place? cell = some t) : t.Settled := by
  obtain ⟨i, hi, rfl⟩ := place?_eq_some h
  exact hs.put hi

/-- Placing entries one after the other succeeds as long as there are slots for them, whatever the
array holds already. -/
theorem exists_placeAll? (s : Slots α n) (cells : List (Cell α))
    (hroom : cells.length + s.cells.length ≤ n) : ∃ t, s.placeAll? cells = some t := by
  induction cells generalizing s with
  | nil => exact ⟨s, rfl⟩
  | cons cell cells ih =>
    rw [List.length_cons] at hroom
    obtain ⟨s', hplace⟩ := exists_place? (s := s) cell (by omega)
    have hlength := (cells_place? hplace).length_eq
    rw [List.length_cons] at hlength
    obtain ⟨t, ht⟩ := ih s' (by omega)
    refine ⟨t, ?_⟩
    rw [placeAll?, List.foldlM_cons, hplace]
    exact ht

theorem placeAll?_cons {s t : Slots α n} {cell : Cell α} {cells : List (Cell α)}
    (h : s.placeAll? (cell :: cells) = some t) :
    ∃ s', s.place? cell = some s' ∧ s'.placeAll? cells = some t := by
  rw [placeAll?, List.foldlM_cons] at h
  exact Option.bind_eq_some_iff.1 h

theorem placeAll?_concat (s : Slots α n) (cells : List (Cell α)) (cell : Cell α) :
    s.placeAll? (cells ++ [cell]) = (s.placeAll? cells).bind fun s' => s'.place? cell := by
  rw [placeAll?, List.foldlM_append]
  congr 1
  funext s'
  simp

theorem cells_placeAll? {s t : Slots α n} {cells : List (Cell α)}
    (h : s.placeAll? cells = some t) : t.cells.Perm (cells ++ s.cells) := by
  induction cells generalizing s with
  | nil =>
    cases h
    exact .refl _
  | cons cell cells ih =>
    obtain ⟨s', hplace, hrest⟩ := placeAll?_cons h
    calc t.cells.Perm (cells ++ s'.cells) := ih hrest
      List.Perm _ (cells ++ cell :: s.cells) := (cells_place? hplace).append_left cells
      List.Perm _ (cell :: (cells ++ s.cells)) := List.perm_middle

theorem cells_placeAll?_empty {s : Slots α n} {cells : List (Cell α)}
    (h : (empty α n).placeAll? cells = some s) : s.cells.Perm cells := by
  simpa using cells_placeAll? h

/-- Placing entries one after the other keeps a layout settled. -/
theorem Settled.placeAll? {s t : Slots α n} {cells : List (Cell α)} (hs : s.Settled)
    (h : s.placeAll? cells = some t) : t.Settled := by
  induction cells generalizing s with
  | nil =>
    cases h
    exact hs
  | cons cell cells ih =>
    obtain ⟨s', hplace, hrest⟩ := placeAll?_cons h
    exact ih (hs.place? hplace) hrest

/-! ## Probes and placement -/

/-- The empty slot at which a probe ends is the one in which placement puts an entry. -/
theorem vacancy?_of_probe_vacant {s : Slots α n} {hash : UInt64} {accepts : α → Bool} {i : Fin n}
    (h : s.probe hash accepts = .vacant i) : s.vacancy? hash = some i := by
  cases hv : s.vacancy? hash with
  | none => exact absurd rfl (ne_of_isSome (probe_vacant h) (isSome_of_vacancy?_eq_none hv i))
  | some j => rw [(firstEmpty_of_vacancy? hv).unique (firstEmpty_of_probe h)]

/-- A probe that has passed by every slot has met no empty one. -/
theorem vacancy?_of_probe_full {s : Slots α n} {hash : UInt64} {accepts : α → Bool}
    (h : s.probe hash accepts = .full) : s.vacancy? hash = none := by
  cases hv : s.vacancy? hash with
  | none => rfl
  | some j =>
    have hj : s.get j = none := (firstEmpty_of_vacancy? hv).1
    exact absurd rfl (ne_of_isSome hj (passedBy_of_probe_full h j).isSome)

theorem probe_of_vacancy?_eq_none {s : Slots α n} {hash : UInt64} (h : s.vacancy? hash = none)
    (accepts : α → Bool) :
    (∃ i cell, s.probe hash accepts = .found i cell) ∨ s.probe hash accepts = .full := by
  cases hp : s.probe hash accepts with
  | found i cell => exact .inl ⟨i, cell, rfl⟩
  | vacant i =>
    rw [vacancy?_of_probe_vacant hp] at h
    cases h
  | full => exact .inr rfl

/-- A probe that accepts nothing ends where placement puts an entry, or finds the array full. -/
theorem probe_of_vacancy? (s : Slots α n) (hash : UInt64) :
    s.probe hash (fun _ => false) = (s.vacancy? hash).elim .full .vacant := by
  cases hp : s.probe hash fun _ => false with
  | found i cell => cases (probe_found hp).2.2
  | vacant i => rw [vacancy?_of_probe_vacant hp, Option.elim]
  | full => rw [vacancy?_of_probe_full hp, Option.elim]

end Slots

end LinearProbing

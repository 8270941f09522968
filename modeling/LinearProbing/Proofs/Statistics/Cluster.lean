-- SUMMARY: The longest cluster is the longest run of occupied slots on the ring.
import LinearProbing.Proofs.Ring
import LinearProbing.Proofs.Slots.Search
import LinearProbing.Statistics.Cluster

/-! # Clusters and occupied slots

The longest cluster depends only on which slots are occupied. It is the greatest length of a run on
the ring, where a run may pass the end of the array but holds no slot twice: counting starts behind
an empty slot, so no run that it meets has begun before.
-/

namespace LinearProbing.Slots

universe u v

variable {α : Type u} {β : Type v} {n : Nat} {s : Slots α n} {t : Slots β n}

theorem first?_congr {p : Option (Cell α) → Bool} {q : Option (Cell β) → Bool}
    (h : ∀ i, p (s.get i) = q (t.get i)) (start stop : Nat) :
    s.first? p start stop = t.first? q start stop := by
  fun_induction first? s p start stop with
  | case1 start hlt hp =>
    rw [first?, dif_pos hlt, if_pos (by rw [← h]; exact hp)]
  | case2 start hlt hp ih =>
    rw [ih]
    symm
    rw [first?, dif_pos hlt, if_neg (by rw [← h]; exact hp)]
  | case3 start hge => rw [first?, dif_neg hge]

theorem longestRun_congr (h : ∀ i, (s.get i).isSome = (t.get i).isSome) (steps : Nat) (i : Fin n)
    (run longest : Nat) : s.longestRun steps i run longest = t.longestRun steps i run longest := by
  induction steps generalizing i run longest with
  | zero => rfl
  | succ steps ih => simp only [longestRun, h, ih]

theorem longestCluster_congr (h : ∀ i, (s.get i).isSome = (t.get i).isSome) :
    s.longestCluster = t.longestCluster := by
  have hnone (i : Fin n) : (s.get i).isNone = (t.get i).isNone := by
    rw [← Option.not_isSome, ← Option.not_isSome, h]
  simp only [longestCluster, first?_congr hnone, longestRun_congr h]

/-! ## Runs -/

/-- The slots that a walk of `length` steps from `start` on visits are occupied, and none is visited
twice. -/
structure IsRun (s : Slots α n) (start : Fin n) (length : Nat) : Prop where
  length_le : length ≤ n
  isSome : ∀ steps < length, (s.get (Cyclic.next^[steps] start)).isSome

/-- A run is not longer than the number of occupied slots. -/
theorem IsRun.length_le_card {start : Fin n} {length : Nat} (h : s.IsRun start length) :
    length ≤ s.occupied.card := by
  rw [← Finset.card_range length]
  refine Finset.card_le_card_of_injOn (fun steps => Cyclic.next^[steps] start) ?_ ?_
  · intro steps hsteps
    exact mem_occupied.2 (h.isSome steps (Finset.mem_range.1 hsteps))
  · intro steps hsteps steps' hsteps' heq
    have hlt := Nat.lt_of_lt_of_le (Finset.mem_range.1 hsteps) h.length_le
    have hlt' := Nat.lt_of_lt_of_le (Finset.mem_range.1 hsteps') h.length_le
    have hdist : Cyclic.distance start (Cyclic.next^[steps] start) =
        Cyclic.distance start (Cyclic.next^[steps'] start) := congrArg _ heq
    rwa [Cyclic.distance_iterate_next hlt, Cyclic.distance_iterate_next hlt'] at hdist

/-- A walk over occupied slots does not get to an empty one. -/
theorem length_le_distance {start gap : Fin n} {length : Nat}
    (h : ∀ steps < length, (s.get (Cyclic.next^[steps] start)).isSome) (hgap : s.get gap = none) :
    length ≤ Cyclic.distance start gap := by
  apply Nat.le_of_not_lt
  intro hlt
  have hsome := h _ hlt
  rw [Cyclic.iterate_next_distance] at hsome
  exact ne_of_isSome hgap hsome rfl

/-! ## What the count comes to -/

theorem le_longestRun (s : Slots α n) (steps : Nat) (i : Fin n) (run longest : Nat) :
    longest ≤ s.longestRun steps i run longest := by
  induction steps generalizing i run longest with
  | zero => exact Nat.le_refl _
  | succ steps ih =>
    rw [longestRun]
    split
    · exact (Nat.le_max_left ..).trans (ih ..)
    · exact ih ..

/-- The run in progress is counted on over the occupied slots that come next. -/
theorem add_le_longestRun {steps : Nat} {i : Fin n} {run longest length : Nat}
    (h : ∀ k < length, (s.get (Cyclic.next^[k] i)).isSome) (hlength : length ≤ steps)
    (hrun : run ≤ longest) : run + length ≤ s.longestRun steps i run longest := by
  induction length generalizing steps i run longest with
  | zero => exact hrun.trans (s.le_longestRun ..)
  | succ length ih =>
    obtain ⟨steps, rfl⟩ := Nat.exists_eq_succ_of_ne_zero (Nat.ne_of_gt (Nat.zero_lt_of_lt hlength))
    have hnext : ∀ k < length, (s.get (Cyclic.next^[k] (Cyclic.next i))).isSome := by
      intro k hk
      rw [← Function.iterate_succ_apply]
      exact h (k + 1) (Nat.succ_lt_succ hk)
    have hi : (s.get i).isSome := h 0 (Nat.succ_pos length)
    rw [longestRun, if_pos hi]
    have := ih hnext (Nat.le_of_succ_le_succ hlength) (Nat.le_max_right longest (run + 1))
    omega

/-- After some slots the count is what it is from the next slot on, with another run in progress. -/
theorem exists_longestRun_add (s : Slots α n) (skipped steps : Nat) (i : Fin n) {run longest : Nat}
    (hrun : run ≤ longest) : ∃ run' longest', run' ≤ longest' ∧
      s.longestRun (skipped + steps) i run longest =
        s.longestRun steps (Cyclic.next^[skipped] i) run' longest' := by
  induction skipped generalizing i run longest with
  | zero => exact ⟨run, longest, hrun, by rw [Nat.zero_add]; rfl⟩
  | succ skipped ih =>
    rw [Nat.succ_add, longestRun]
    split
    · exact ih (Cyclic.next i) (Nat.le_max_right ..)
    · exact ih (Cyclic.next i) (Nat.zero_le longest)

/-- No run among the slots that are counted is longer than the result. -/
theorem le_longestRun_of_isSome {steps skipped length : Nat} {i : Fin n}
    (h : ∀ k < length, (s.get (Cyclic.next^[k] (Cyclic.next^[skipped] i))).isSome)
    (hsteps : skipped + length ≤ steps) : length ≤ s.longestRun steps i 0 0 := by
  obtain ⟨rest, rfl⟩ := Nat.exists_eq_add_of_le (Nat.le_of_add_right_le hsteps)
  obtain ⟨run, longest, hrun, heq⟩ := s.exists_longestRun_add skipped rest i (Nat.le_refl 0)
  rw [heq]
  exact (Nat.le_add_left ..).trans (add_le_longestRun h (by omega) hrun)

/-- The result is the length of a walk over occupied slots, if the run in progress has just been
walked and the longest one so far has been, too. -/
theorem exists_walk_longestRun (steps : Nat) {i : Fin n} {run longest : Nat}
    (hrun : ∃ start, Cyclic.next^[run] start = i ∧
      ∀ k < run, (s.get (Cyclic.next^[k] start)).isSome)
    (hlongest : ∃ start, ∀ k < longest, (s.get (Cyclic.next^[k] start)).isSome) :
    ∃ start, ∀ k < s.longestRun steps i run longest, (s.get (Cyclic.next^[k] start)).isSome := by
  induction steps generalizing i run longest with
  | zero => exact hlongest
  | succ steps ih =>
    rw [longestRun]
    split
    · next hi =>
      obtain ⟨start, hend, hsome⟩ := hrun
      have hlonger : ∀ k < run + 1, (s.get (Cyclic.next^[k] start)).isSome := by
        intro k hk
        rcases Nat.lt_succ_iff_lt_or_eq.1 hk with hk | rfl
        · exact hsome k hk
        · rwa [hend]
      refine ih ⟨start, ?_, hlonger⟩ ?_
      · rw [Function.iterate_succ_apply', hend]
      · rcases Nat.le_total longest (run + 1) with hle | hle
        · rw [Nat.max_eq_right hle]
          exact ⟨start, hlonger⟩
        · rwa [Nat.max_eq_left hle]
    · exact ih ⟨Cyclic.next i, rfl, fun k hk => absurd hk (Nat.not_lt_zero k)⟩ hlongest

/-! ## The longest cluster -/

/-- No run is longer than the longest cluster. -/
theorem IsRun.length_le_longestCluster {start : Fin n} {length : Nat} (h : s.IsRun start length) :
    length ≤ s.longestCluster := by
  rw [longestCluster]
  split
  · exact h.length_le
  · next gap hgap =>
    obtain ⟨-, -, hempty, -⟩ := first?_eq_some hgap
    have hnone : s.get gap = none := Option.isNone_iff_eq_none.1 hempty
    have hstart : Cyclic.next^[Cyclic.distance (Cyclic.next gap) start] (Cyclic.next gap) = start :=
      Cyclic.iterate_next_distance ..
    have hroom : Cyclic.distance (Cyclic.next gap) start + length ≤ n := by
      have hbefore := length_le_distance h.isSome hnone
      have hlap := Cyclic.distance_next_add_lt start gap
      omega
    refine le_longestRun_of_isSome ?_ hroom
    rw [hstart]
    exact h.isSome

/-- The longest cluster is a run. -/
theorem exists_isRun_longestCluster (s : Slots α n) (hn : 0 < n) :
    ∃ start, s.IsRun start s.longestCluster := by
  rw [longestCluster]
  split
  · next hfull =>
    refine ⟨⟨0, hn⟩, Nat.le_refl n, fun steps _ => ?_⟩
    generalize Cyclic.next^[steps] ⟨0, hn⟩ = i
    simpa [Option.isSome_iff_ne_none] using first?_eq_none hfull i (Nat.zero_le _) i.isLt
  · next gap hgap =>
    obtain ⟨-, -, hempty, -⟩ := first?_eq_some hgap
    have hnone : s.get gap = none := Option.isNone_iff_eq_none.1 hempty
    have hnothing : ∀ k < 0, (s.get (Cyclic.next^[k] (Cyclic.next gap))).isSome :=
      fun k hk => absurd hk (Nat.not_lt_zero k)
    obtain ⟨start, hsome⟩ := exists_walk_longestRun n
      ⟨Cyclic.next gap, rfl, hnothing⟩
      ⟨Cyclic.next gap, hnothing⟩
    have hle := length_le_distance hsome hnone
    exact ⟨start, hle.trans (Nat.le_of_lt (Cyclic.distance_lt start gap)), hsome⟩

end LinearProbing.Slots

-- SUMMARY: In a settled layout, no entry is moved twice and the scan ends on its second lap.
import LinearProbing.Proofs.Slots.Rounds

/-! # The first lap of a scan

In a full array the scan goes past the slot that it started behind, over slots that it has already
filled or left. In a settled layout it moves nothing there: an entry is moved over the hole only if
it arrived later than the entry that the hole was made of, so the ranks of the holes rise, and all
entries behind the scan that have the hole on their way would have to rank both below and above it.
So the second lap ends at the hole at the latest.
-/

namespace LinearProbing.Gap

universe u

variable {α : Type u} {n : Nat}

/-- How many of these rounds move the entry of slot `p`. -/
def timesMoved : List (Gap α n) → Fin n → Nat
  | [], _ => 0
  | g :: rounds, p => (if g.moves ∧ p = g.scan then 1 else 0) + timesMoved rounds (g.follow p)

/-! ## The invariant -/

/-- The entry in slot `p` was no closer to home before, in a slot that ranks no higher than the
hole. -/
def Earlier (s : Slots α n) (rank : Fin n → Nat) (hole p : Fin n) (cell : Cell α) : Prop :=
  ∃ origin, s.get origin = some cell ∧
    Cyclic.distance (home cell.hash p.pos) p ≤ Cyclic.distance (home cell.hash p.pos) origin ∧
      rank origin ≤ rank hole

/-- The gap after `k` rounds of a scan that started behind slot `i`. The slots more than `k` steps
from there are as they were. An entry in one of the others is earlier than the hole, or it has been
left in its slot since the hole was last moved. -/
structure Lap (s : Slots α n) (rank : Fin n → Nat) (i : Fin n) (k : Nat) (g : Gap α n) : Prop where
  scan : k + 1 < n → Cyclic.distance i g.scan = k + 1
  hole : Cyclic.distance i g.hole ≤ k
  ahead : ∀ p, k < Cyclic.distance i p → g.slots.get p = s.get p
  behind : ∀ p cell, Cyclic.distance i p ≤ k → g.slots.get p = some cell →
    Earlier s rank g.hole p cell ∨
      s.get p = some cell ∧ Cyclic.distance g.scan g.hole < Cyclic.distance p g.hole

variable {s last : Slots α n} {rank : Fin n → Nat} {g g' : Gap α n} {rounds : List (Gap α n)}
  {i p : Fin n} {cell : Cell α} {k : Nat}

theorem lap_ofTaken (s : Slots α n) (rank : Fin n → Nat) (i : Fin n) :
    Lap s rank i 0 (ofTaken s i) where
  scan h := by
    simp only [ofTaken]
    rw [Cyclic.distance_next_right (by rw [Cyclic.distance_self]; exact h), Cyclic.distance_self]
  hole := by simp [ofTaken]
  ahead p hp := by
    apply Slots.get_put_ne
    rintro rfl
    rw [Cyclic.distance_self] at hp
    exact Nat.lt_irrefl _ hp
  behind p cell hp hcell := by
    obtain rfl := Cyclic.eq_of_distance_eq_zero (Nat.le_zero.1 hp)
    cases (ofTaken s i).hole_empty.symm.trans hcell

/-- The slot that is scanned is the only one that the next round is the first to reach. -/
theorem Lap.distance_le (h : Lap s rank i k g) (hp : Cyclic.distance i p ≤ k + 1)
    (hne : p ≠ g.scan) : Cyclic.distance i p ≤ k := by
  refine Nat.le_of_lt_succ (Nat.lt_of_le_of_ne hp ?_)
  intro heq
  have hlt : k + 1 < n := heq.symm.trans_lt (Cyclic.distance_lt i p)
  exact hne (Cyclic.distance_right_inj.1 (heq.trans (h.scan hlt).symm))

theorem Lap.distance_next (h : Lap s rank i k g) (hlt : k + 1 + 1 < n) :
    Cyclic.distance i (Cyclic.next g.scan) = k + 1 + 1 := by
  have hscan := h.scan (Nat.lt_of_succ_lt hlt)
  rw [Cyclic.distance_next_right (by omega), hscan]

/-- Only an entry that the scan meets for the first time passes the hole. -/
theorem Lap.lt_of_passes (h : Lap s rank i k g) (hs : s.Supported fun q p => rank q < rank p)
    (hscan : g.slots.get g.scan = some cell) (hpasses : g.Passes cell.hash) :
    k < Cyclic.distance i g.scan := by
  apply Nat.lt_of_not_le
  intro hle
  rcases h.behind g.scan cell hle hscan with ⟨origin, horigin, hcloser, hrank⟩ | ⟨-, hirrefl⟩
  · have hway : Slots.OnWay cell.hash g.hole origin := Nat.lt_of_lt_of_le hpasses hcloser
    exact absurd (hs horigin hway).2 (Nat.not_lt.2 hrank)
  · exact Nat.lt_irrefl _ hirrefl

theorem Lap.move (h : Lap s rank i k g) (hs : s.Supported fun q p => rank q < rank p)
    (hscan : g.slots.get g.scan = some cell) (hpasses : g.Passes cell.hash) :
    Lap s rank i (k + 1) (g.move cell hscan) := by
  have hfresh := h.lt_of_passes hs hscan hpasses
  have hlt := Cyclic.distance_lt i g.scan
  have hk := h.scan (by omega)
  have hheld : s.get g.scan = some cell := (h.ahead _ hfresh).symm.trans hscan
  refine ⟨h.distance_next, hk.le, ?_, ?_⟩
  · intro p hp
    have hph : p ≠ g.hole := by
      rintro rfl
      exact absurd h.hole (by omega)
    have hps : p ≠ g.scan := by
      rintro rfl
      omega
    rw [get_move, if_neg hph, if_neg hps, h.ahead p (by omega)]
  · intro p other hp hother
    left
    rw [get_move] at hother
    split_ifs at hother with hph hps
    · subst hph
      cases hother
      exact ⟨g.scan, hheld, Nat.le_of_lt hpasses, Nat.le_refl _⟩
    · have hhole : rank g.hole < rank g.scan := (hs hheld hpasses).2
      rcases h.behind p other (h.distance_le hp hps) hother with
        ⟨origin, horigin, hcloser, hrank⟩ | ⟨hstill, hpassed⟩
      · exact ⟨origin, horigin, hcloser, hrank.trans hhole.le⟩
      · -- an entry that was left behind the hole is on the way of the one that is moved over it
        have hway : Slots.OnWay cell.hash p g.scan :=
          Cyclic.distance_lt_of_passes hpasses hph (scan_ne_hole hscan) hps hpassed.le
        exact ⟨p, hstill, Nat.le_refl _, (hs hheld hway).2.le⟩

theorem Lap.skip (h : Lap s rank i k g) (hscan : g.slots.get g.scan = some cell) :
    Lap s rank i (k + 1) g.skip := by
  have hnext := Cyclic.distance_next (scan_ne_hole hscan)
  refine ⟨h.distance_next, h.hole.trans (Nat.le_succ k), ?_, ?_⟩
  · intro p hp
    exact h.ahead p (Nat.lt_of_succ_lt hp)
  · intro p other hp hother
    simp only [Gap.skip] at hother ⊢
    by_cases hps : p = g.scan
    · subst hps
      rcases Nat.lt_or_ge k (Cyclic.distance i g.scan) with hfresh | hle
      · exact .inr ⟨(h.ahead _ hfresh).symm.trans hother, by omega⟩
      · refine (h.behind _ other hle hother).imp_right ?_
        rintro ⟨-, hirrefl⟩
        exact absurd hirrefl (Nat.lt_irrefl _)
    · refine (h.behind p other (h.distance_le hp hps) hother).imp_right ?_
      rintro ⟨hstill, hpassed⟩
      exact ⟨hstill, by omega⟩

theorem Lap.round (h : Lap s rank i k g) (hs : s.Supported fun q p => rank q < rank p)
    (hround : Round g g') : Lap s rank i (k + 1) g' := by
  cases hround with
  | move cell hscan hpasses => exact h.move hs hscan hpasses
  | skip cell hscan hstays => exact h.skip hscan

/-! ## Moves -/

theorem Lap.lt_of_moves (h : Lap s rank i k g) (hs : s.Supported fun q p => rank q < rank p)
    (hmoves : g.moves) : k < Cyclic.distance i g.scan := by
  obtain ⟨cell, hscan, hpasses⟩ := (Option.any_eq_true _ _).1 hmoves
  exact h.lt_of_passes hs hscan (of_decide_eq_true hpasses)

/-- What the scan has passed is not moved any more. -/
theorem RunsTo.timesMoved_eq_zero (hruns : g.RunsTo rounds last) (h : Lap s rank i k g)
    (hs : s.Supported fun q p => rank q < rank p) (hp : Cyclic.distance i p ≤ k) :
    timesMoved rounds p = 0 := by
  induction hruns generalizing k with
  | stop ended => rfl
  | @round g next rounds last goes rest ih =>
    have hstill : ¬(g.moves ∧ p = g.scan) := by
      rintro ⟨hmoves, rfl⟩
      exact absurd hp (Nat.not_le.2 (h.lt_of_moves hs hmoves))
    rw [timesMoved, if_neg hstill, follow, if_neg hstill, Nat.zero_add]
    exact ih (h.round hs (round_of_step goes)) (hp.trans (Nat.le_succ k))

theorem RunsTo.timesMoved_le_one (hruns : g.RunsTo rounds last) (h : Lap s rank i k g)
    (hs : s.Supported fun q p => rank q < rank p) (p : Fin n) : timesMoved rounds p ≤ 1 := by
  induction hruns generalizing k p with
  | stop ended => exact Nat.zero_le _
  | @round g next rounds last goes rest ih =>
    have hlap := h.round hs (round_of_step goes)
    by_cases hmoved : g.moves ∧ p = g.scan
    · -- it goes to the hole, where the scan has been
      have hrest := rest.timesMoved_eq_zero hlap hs (h.hole.trans (Nat.le_succ k))
      rw [timesMoved, if_pos hmoved, follow, if_pos hmoved, hrest]
    · rw [timesMoved, if_neg hmoved, follow, if_neg hmoved, Nat.zero_add]
      exact ih hlap p

/-! ## The number of rounds -/

/-- After the first lap the scan comes closer to the hole with each round. -/
theorem RunsTo.length_le_distance (hruns : g.RunsTo rounds last) (h : Lap s rank i k g)
    (hs : s.Supported fun q p => rank q < rank p) (hk : n ≤ k + 1) :
    rounds.length ≤ Cyclic.distance g.scan g.hole := by
  induction hruns generalizing k with
  | stop ended => exact Nat.zero_le _
  | @round g next rounds last goes rest ih =>
    have hround := round_of_step goes
    have hrest := ih (h.round hs hround) (hk.trans (Nat.le_succ _))
    cases hround with
    | move cell hscan hpasses =>
      have hfresh := h.lt_of_passes hs hscan hpasses
      have hlt := Cyclic.distance_lt i g.scan
      omega
    | skip cell hscan hstays =>
      have hnext := Cyclic.distance_next (scan_ne_hole hscan)
      simp only [Gap.skip] at hrest
      rw [List.length_cons]
      omega

theorem RunsTo.length_add_le (hruns : g.RunsTo rounds last) (h : Lap s rank i k g)
    (hs : s.Supported fun q p => rank q < rank p) (hk : k + 1 ≤ n) :
    rounds.length + k + 2 ≤ 2 * n := by
  induction hruns generalizing k with
  | stop ended =>
    rw [List.length_nil]
    omega
  | @round g next rounds last goes rest ih =>
    rcases Nat.lt_or_eq_of_le hk with hlt | heq
    · have hrest := ih (h.round hs (round_of_step goes)) hlt
      rw [List.length_cons]
      omega
    · have hlap := (RunsTo.round goes rest).length_le_distance h hs heq.ge
      have hlt := Cyclic.distance_lt g.scan g.hole
      omega

/-- The scan behind any slot of a settled array moves no entry twice, and goes round less than
twice. -/
theorem RunsTo.lt_two_laps (hruns : (ofTaken s i).RunsTo rounds last) (hs : s.Settled) :
    rounds.length < 2 * n ∧ ∀ p, timesMoved rounds p ≤ 1 := by
  obtain ⟨rank, hrank⟩ := hs
  have hlap := lap_ofTaken s rank i
  have hlength := hruns.length_add_le hlap hrank i.pos
  exact ⟨by omega, hruns.timesMoved_le_one hlap hrank⟩

end LinearProbing.Gap

-- SUMMARY: Vacating a slot shifts entries back: none is lost, and none gets further from home.
import LinearProbing.Proofs.Slots.Rounds

/-! # Shifting entries back

In a reachable layout, the entry of any slot can be taken out. The rounds of the scan move each of
the others along its way towards home or not at all, and the layout stays reachable. The scan ends
at the first empty slot, so nothing changes outside the run of occupied slots that it started in.

All of that is also true of full arrays, among them those that insertions cannot produce.
-/

namespace LinearProbing

universe u

variable {α : Type u} {n : Nat}

namespace Gap

/-! ## The slots behind an empty one -/

variable {g g' : Gap α n} {rounds : List (Gap α n)} {s last : Slots α n} {start e p i : Fin n}

/-- The scan behind `start` has not gone past the empty slot `e`: the hole is before it, and from `e`
on nothing has changed. -/
structure Before (s : Slots α n) (start e : Fin n) (g : Gap α n) : Prop where
  hole : Cyclic.distance start g.hole < Cyclic.distance start e
  scan : Cyclic.distance start g.scan ≤ Cyclic.distance start e
  same : ∀ q, Cyclic.distance start e ≤ Cyclic.distance start q → g.slots.get q = s.get q

/-- The scan has yet to reach `e` when it meets an entry. -/
theorem Before.scan_lt (h : Before s start e g) (he : s.get e = none) (hround : Round g g') :
    Cyclic.distance start g.scan < Cyclic.distance start e := by
  refine Nat.lt_of_le_of_ne h.scan ?_
  intro heq
  have hscan := hround.isSome_scan
  rw [h.same _ heq.ge, Cyclic.distance_right_inj.1 heq, he] at hscan
  cases hscan

theorem Before.round (h : Before s start e g) (he : s.get e = none) (hround : Round g g') :
    Before s start e g' := by
  have hlt := Cyclic.distance_lt start e
  have hscan' := h.scan_lt he hround
  cases hround with
  | move cell hscan hpasses =>
    refine ⟨hscan', ?_, ?_⟩
    · simp only [Gap.move]
      rw [Cyclic.distance_next_right (by omega)]
      exact hscan'
    · intro q hq
      have hqh : q ≠ g.hole := by
        rintro rfl
        exact absurd h.hole (Nat.not_lt.2 hq)
      have hqs : q ≠ g.scan := by
        rintro rfl
        exact absurd hscan' (Nat.not_lt.2 hq)
      rw [get_move, if_neg hqh, if_neg hqs, h.same q hq]
  | skip cell hscan hstays =>
    refine ⟨h.hole, ?_, h.same⟩
    simp only [Gap.skip]
    rw [Cyclic.distance_next_right (by omega)]
    exact hscan'

/-- Entries from `e` on are not moved. -/
theorem Before.follow_eq (h : Before s start e g) (he : s.get e = none) (hround : Round g g')
    (hp : Cyclic.distance start e ≤ Cyclic.distance start p) : g.follow p = p := by
  have hscan := h.scan_lt he hround
  apply follow_of_ne
  rintro rfl
  omega

theorem RunsTo.unchanged (hruns : g.RunsTo rounds last) (h : Before s start e g)
    (he : s.get e = none) (hp : Cyclic.distance start e ≤ Cyclic.distance start p) :
    last.get p = s.get p ∧ destination rounds p = p := by
  induction hruns with
  | stop ended =>
    obtain ⟨-, rfl⟩ := eq_of_step ended
    exact ⟨h.same p hp, rfl⟩
  | round goes rest ih =>
    have hround := round_of_step goes
    rw [destination_cons, h.follow_eq he hround hp]
    exact ih (h.round he hround)

theorem before_ofTaken (hi : (s.get i).isSome) (he : s.get e = none) :
    Before s i e (ofTaken s i) := by
  have hne : i ≠ e := (Slots.ne_of_isSome he hi).symm
  have hpos : 0 < Cyclic.distance i e :=
    Nat.pos_of_ne_zero fun h => hne (Cyclic.eq_of_distance_eq_zero h)
  have hlt := Cyclic.distance_lt i e
  refine ⟨by simpa [ofTaken] using hpos, ?_, ?_⟩
  · simp only [ofTaken]
    rw [Cyclic.distance_next_right (by rw [Cyclic.distance_self]; omega), Cyclic.distance_self]
    exact hpos
  · intro q hq
    apply Slots.get_put_ne
    rintro rfl
    rw [Cyclic.distance_self] at hq
    omega

end Gap

namespace Slots

/-! ## Vacating a slot -/

/-- All slots on the walk from `p` to `q` are occupied, both of them included. -/
def OccupiedFrom (s : Slots α n) (p q : Fin n) : Prop :=
  ∀ j, Cyclic.distance p j ≤ Cyclic.distance p q → (s.get j).isSome

/-- Two positions are in one run of occupied slots: all slots on one of the two walks between them
are occupied. -/
def SameRun (s : Slots α n) (p q : Fin n) : Prop := s.OccupiedFrom p q ∨ s.OccupiedFrom q p

/-- Slot `i` of an array, which held `cell`, has been vacated; the entry of another slot `p` is now
in slot `dest p`. -/
structure ShiftsBack (s : Slots α n) (i : Fin n) (cell : Cell α) (last : Slots α n)
    (dest : Fin n → Fin n) : Prop where
  contents : (cell :: last.cells).Perm s.cells
  reachable : last.Reachable
  kept : ∀ p other, p ≠ i → s.get p = some other → last.get (dest p) = some other
  apart : ∀ p q, p ≠ i → q ≠ i → (s.get p).isSome → (s.get q).isSome → dest p = dest q → p = q
  closer : ∀ p other, p ≠ i → s.get p = some other →
    Cyclic.distance (home other.hash p.pos) (dest p) ≤ Cyclic.distance (home other.hash p.pos) p
  outside : ∀ p, ¬s.SameRun i p → dest p = p ∧ last.get p = s.get p

/-- Whatever slot is vacated, the entry it held comes out and the others are shifted back. -/
theorem Reachable.vacate_shiftsBack {s : Slots α n} (hs : s.Reachable) {i : Fin n} {cell : Cell α}
    (hi : s.get i = some cell) :
    ∃ rounds last, (Gap.ofTaken s i).RunsTo rounds last ∧ s.vacate? i = some (cell, last) ∧
      s.ShiftsBack i cell last (Gap.destination rounds) := by
  obtain ⟨rounds, hruns⟩ := Gap.exists_runsTo (Gap.ofTaken s i)
  have hget (p : Fin n) (hp : p ≠ i) : (Gap.ofTaken s i).slots.get p = s.get p :=
    get_put_ne _ _ hp.symm
  refine ⟨rounds, (Gap.ofTaken s i).close, hruns, by rw [vacate?, hi, Option.map_some], ?_⟩
  refine
    { contents := Gap.cons_cells_close_perm hi
      reachable := Gap.reachable_close hs i
      kept := ?_
      apart := ?_
      closer := ?_
      outside := ?_ }
  · intro p other hp hother
    exact hruns.get_destination ((hget p hp).trans hother)
  · intro p q hp hq hps hqs heq
    rw [← hget p hp] at hps
    rw [← hget q hq] at hqs
    exact hruns.destination_inj hps hqs heq
  · intro p other hp hother
    exact hruns.distance_destination_le ((hget p hp).trans hother)
  · intro p hp
    -- the walk from the vacated slot to `p` passes an empty slot
    have hgap : ¬s.OccupiedFrom i p := fun h => hp (.inl h)
    unfold OccupiedFrom at hgap
    push Not at hgap
    obtain ⟨e, hep, he⟩ := hgap
    have he' : s.get e = none := by simpa using he
    obtain ⟨hsame, hto⟩ :=
      hruns.unchanged (Gap.before_ofTaken (Option.isSome_of_eq_some hi) he') he' hep
    exact ⟨hto, hsame⟩

/-- A full array in which every entry has walked all the way round to the slot before its home. -/
def ring : Slots Nat 4 := #v[some ⟨0, 0⟩, some ⟨1, 1⟩, some ⟨2, 2⟩, some ⟨3, 3⟩]

/-- No entry of this array is at home, so no insertions lead to it. -/
theorem vacate_shiftsBack_ring : ring.displacements = [3, 3, 3, 3] ∧
    ∃ rounds last, (Gap.ofTaken ring 0).RunsTo rounds last ∧
      ring.vacate? 0 = some (⟨0, 0⟩, last) ∧
      ring.ShiftsBack 0 ⟨0, 0⟩ last (Gap.destination rounds) := by
  have hfull : ∀ q, (ring.get q).isSome := by decide +kernel
  refine ⟨by decide +kernel, Reachable.vacate_shiftsBack ?_ rfl⟩
  intro p cell _ q _
  exact ⟨hfull q, trivial⟩

end Slots

end LinearProbing

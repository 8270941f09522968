-- SUMMARY: The rounds of the scan that closes a gap, and where each entry is after them.
import LinearProbing.Proofs.Slots.Closing

/-! # The rounds of a scan

Closing a gap takes one round for each entry that the scan meets, and a round moves at most that
entry. `Gap.RunsTo` relates a gap to the rounds of its scan and to the array at the end, and
`Gap.destination` follows the entry of one slot through these rounds.
-/

namespace LinearProbing.Gap

universe u

variable {α : Type u} {n : Nat}

/-! ## One round -/

variable {g g' : Gap α n} {last : Slots α n} {p q : Fin n} {cell : Cell α}

theorem Round.isSome_scan (h : Round g g') : (g.slots.get g.scan).isSome := by
  cases h with
  | move cell hscan hpasses => exact Option.isSome_of_eq_some hscan
  | skip cell hscan hstays => exact Option.isSome_of_eq_some hscan

/-- Whether the round that starts here moves the scanned entry. -/
def moves (g : Gap α n) : Bool :=
  (g.slots.get g.scan).any fun cell => decide (g.Passes cell.hash)

theorem moves_eq_decide (h : g.slots.get g.scan = some cell) :
    g.moves = decide (g.Passes cell.hash) := by
  rw [moves, h, Option.any_some]

/-- Where the entry of slot `p` is after the round. -/
def follow (g : Gap α n) (p : Fin n) : Fin n := if g.moves ∧ p = g.scan then g.hole else p

theorem follow_of_moves (h : g.moves) : g.follow g.scan = g.hole := if_pos ⟨h, rfl⟩

theorem follow_of_ne (h : p ≠ g.scan) : g.follow p = p := if_neg fun hp => h hp.2

theorem follow_of_stays (h : ¬g.moves) : g.follow p = p := if_neg fun hp => h hp.1

/-- A round takes each entry where `follow` says. -/
theorem Round.get_follow (h : Round g g') (hp : g.slots.get p = some cell) :
    g'.slots.get (g.follow p) = some cell := by
  cases h with
  | move moved hscan hpasses =>
    have hmoves : g.moves := by simpa [moves_eq_decide hscan] using hpasses
    rw [get_move]
    by_cases hps : p = g.scan
    · subst hps
      cases hscan.symm.trans hp
      rw [follow_of_moves hmoves, if_pos rfl]
    · have hph : p ≠ g.hole :=
        (Slots.ne_of_isSome g.hole_empty (Option.isSome_of_eq_some hp)).symm
      rw [follow_of_ne hps, if_neg hph, if_neg hps, hp]
  | skip stayed hscan hstays =>
    rw [follow_of_stays (by simpa [moves_eq_decide hscan] using hstays)]
    exact hp

/-- Only an entry that has the hole on its way is moved. -/
theorem distance_follow_le (hp : g.slots.get p = some cell) :
    Cyclic.distance (home cell.hash p.pos) (g.follow p) ≤
      Cyclic.distance (home cell.hash p.pos) p := by
  by_cases hmoved : g.moves ∧ p = g.scan
  · obtain ⟨hmoves, rfl⟩ := hmoved
    rw [follow_of_moves hmoves]
    rw [moves_eq_decide hp] at hmoves
    exact Nat.le_of_lt (of_decide_eq_true hmoves)
  · rw [follow, if_neg hmoved]

/-- Two entries are not moved to one slot, as the hole is empty. -/
theorem follow_inj (hp : (g.slots.get p).isSome) (hq : (g.slots.get q).isSome)
    (h : g.follow p = g.follow q) : p = q := by
  have hph := Slots.ne_of_isSome g.hole_empty hp
  have hqh := Slots.ne_of_isSome g.hole_empty hq
  unfold follow at h
  split_ifs at h with hpm hqm hqm
  · exact hpm.2.trans hqm.2.symm
  · exact absurd h hqh
  · exact absurd h.symm hph
  · exact h

/-! ## All rounds -/

/-- The scan that starts here goes through these rounds and leaves this array. -/
inductive RunsTo : Gap α n → List (Gap α n) → Slots α n → Prop
  | stop {g : Gap α n} {last : Slots α n} (ended : g.step = .inl last) : RunsTo g [] last
  | round {g next : Gap α n} {rounds : List (Gap α n)} {last : Slots α n}
      (goes : g.step = .inr next) (rest : RunsTo next rounds last) : RunsTo g (g :: rounds) last

variable {rounds : List (Gap α n)}

/-- Every scan has finitely many rounds. -/
theorem exists_runsTo (g : Gap α n) : ∃ rounds, g.RunsTo rounds g.close := by
  fun_induction close g with
  | case1 g slots hstep => exact ⟨[], .stop hstep⟩
  | case2 g next hstep ih =>
    obtain ⟨rounds, hrounds⟩ := ih
    exact ⟨g :: rounds, .round hstep hrounds⟩

theorem RunsTo.eq_close (h : g.RunsTo rounds last) : last = g.close := by
  induction h with
  | stop ended =>
    rw [close]
    split
    · rename_i hstep
      cases ended.symm.trans hstep
      rfl
    · rename_i hstep
      cases ended.symm.trans hstep
  | round goes rest ih =>
    rw [close]
    split
    · rename_i hstep
      cases goes.symm.trans hstep
    · rename_i hstep
      cases goes.symm.trans hstep
      exact ih

/-- Where the entry of slot `p` is after these rounds. -/
def destination (rounds : List (Gap α n)) (p : Fin n) : Fin n :=
  rounds.foldl (fun p g => g.follow p) p

@[simp] theorem destination_nil (p : Fin n) : destination ([] : List (Gap α n)) p = p := rfl

@[simp] theorem destination_cons (g : Gap α n) (rounds : List (Gap α n)) (p : Fin n) :
    destination (g :: rounds) p = destination rounds (g.follow p) := rfl

theorem RunsTo.get_destination (h : g.RunsTo rounds last) (hp : g.slots.get p = some cell) :
    last.get (destination rounds p) = some cell := by
  induction h generalizing p with
  | stop ended =>
    obtain ⟨-, rfl⟩ := eq_of_step ended
    exact hp
  | round goes rest ih => exact ih ((round_of_step goes).get_follow hp)

theorem RunsTo.distance_destination_le (h : g.RunsTo rounds last)
    (hp : g.slots.get p = some cell) :
    Cyclic.distance (home cell.hash p.pos) (destination rounds p) ≤
      Cyclic.distance (home cell.hash p.pos) p := by
  induction h generalizing p with
  | stop ended => exact Nat.le_refl _
  | round goes rest ih =>
    exact (ih ((round_of_step goes).get_follow hp)).trans (distance_follow_le hp)

theorem RunsTo.destination_inj (h : g.RunsTo rounds last) (hp : (g.slots.get p).isSome)
    (hq : (g.slots.get q).isSome) (heq : destination rounds p = destination rounds q) : p = q := by
  induction h generalizing p q with
  | stop ended => exact heq
  | round goes rest ih =>
    obtain ⟨cell, hp'⟩ := Option.isSome_iff_exists.1 hp
    obtain ⟨other, hq'⟩ := Option.isSome_iff_exists.1 hq
    have hround := round_of_step goes
    exact follow_inj hp hq (ih (Option.isSome_of_eq_some (hround.get_follow hp'))
      (Option.isSome_of_eq_some (hround.get_follow hq')) heq)

end LinearProbing.Gap

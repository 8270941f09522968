-- SUMMARY: Closing a gap keeps the layout of the remaining entries and loses none of them.
import LinearProbing.Proofs.Slots.Layout

/-! # What closing a gap preserves

The invariant of the scan is `Gap.Supported`: the only empty slot on the way of an entry is the
hole, and only on the way of an entry that the scan has yet to reach. A move relabels two slots, and
a skip or the end of the scan changes nothing, so the entries that remain are supported up to a
relabelling of the slots. That carries over both reachable and settled layouts.
-/

namespace LinearProbing

universe u

namespace Gap

variable {α : Type u} {n : Nat}

/-! ## Rounds -/

/-- What a round can do with the scanned entry. -/
inductive Round (g : Gap α n) : Gap α n → Prop
  | move (cell : Cell α) (scanned : g.slots.get g.scan = some cell)
      (passes : g.Passes cell.hash) : Round g (g.move cell scanned)
  | skip (cell : Cell α) (scanned : g.slots.get g.scan = some cell)
      (stays : ¬g.Passes cell.hash) : Round g g.skip

theorem round_of_step {g g' : Gap α n} (h : g.step = .inr g') : Round g g' := by
  unfold step at h
  split at h
  · cases h
  · rename_i cell hscan
    cases h
    split
    · exact .move cell hscan ‹_›
    · exact .skip cell hscan ‹_›

theorem eq_of_step {g : Gap α n} {last : Slots α n} (h : g.step = .inl last) :
    g.slots.get g.scan = none ∧ last = g.slots := by
  unfold step at h
  split at h
  · rename_i hscan
    cases h
    exact ⟨hscan, rfl⟩
  · cases h

/-- What moves and skips preserve still holds when the scan ends at an empty slot. -/
theorem close_induction {P : Gap α n → Prop}
    (hmove : ∀ g cell (h : g.slots.get g.scan = some cell), P g → g.Passes cell.hash →
      P (g.move cell h))
    (hskip : ∀ g cell, g.slots.get g.scan = some cell → P g → ¬g.Passes cell.hash → P g.skip)
    (g : Gap α n) (hg : P g) :
    ∃ last : Gap α n, P last ∧ last.slots.get last.scan = none ∧ g.close = last.slots := by
  fun_induction close g with
  | case1 g slots hstep =>
    obtain ⟨hscan, rfl⟩ := eq_of_step hstep
    exact ⟨g, hg, hscan, rfl⟩
  | case2 g next hstep ih =>
    apply ih
    cases round_of_step hstep with
    | move cell hscan hpasses => exact hmove g cell hscan hg hpasses
    | skip cell hscan hstays => exact hskip g cell hscan hg hstays

theorem get_move (g : Gap α n) (cell : Cell α) (h : g.slots.get g.scan = some cell) (p : Fin n) :
    (g.move cell h).slots.get p =
      if p = g.hole then some cell else if p = g.scan then none else g.slots.get p := by
  simp only [move, Slots.get_put, eq_comm]

/-! ## Layout -/

/-- Each slot on the way of an entry is occupied and related to its slot, or it is the hole, and the
scan has not reached the entry. -/
def Supported (g : Gap α n) (R : Fin n → Fin n → Prop) : Prop :=
  ∀ ⦃p cell⦄, g.slots.get p = some cell → ∀ ⦃q⦄, Slots.OnWay cell.hash q p →
    q = g.hole ∧ Cyclic.distance p g.hole ≤ Cyclic.distance g.scan g.hole ∨
      (g.slots.get q).isSome ∧ R q p

theorem supported_ofTaken {s : Slots α n} {R : Fin n → Fin n → Prop} (h : s.Supported R)
    (i : Fin n) : (ofTaken s i).Supported R := by
  intro p cell hp q hq
  simp only [ofTaken] at hp ⊢
  have hip : i ≠ p := Slots.ne_of_isSome (Slots.get_put_self ..) (Option.isSome_of_eq_some hp)
  rw [Slots.get_put_ne _ _ hip] at hp
  by_cases hiq : i = q
  · exact .inl ⟨hiq.symm, Cyclic.distance_le_distance_next _ _⟩
  · rw [Slots.get_put_ne _ _ hiq]
    exact .inr (h hp hq)

/-- An entry that the scan has not reached and whose way passes the hole has the scanned slot on its
way, which is not the hole. -/
theorem onWay_scan {g : Gap α n} {p : Fin n} {cell : Cell α} (hp : g.slots.get p = some cell)
    (hhole : Slots.OnWay cell.hash g.hole p)
    (hahead : Cyclic.distance p g.hole ≤ Cyclic.distance g.scan g.hole) (hscan : g.scan ≠ p) :
    g.scan ≠ g.hole ∧ Slots.OnWay cell.hash g.scan p := by
  have hph : g.hole ≠ p := Slots.ne_of_isSome g.hole_empty (Option.isSome_of_eq_some hp)
  have hsh : g.scan ≠ g.hole := by
    intro e
    rw [e, Cyclic.distance_self] at hahead
    exact hph (Cyclic.eq_of_distance_eq_zero (Nat.le_zero.1 hahead)).symm
  exact ⟨hsh, Cyclic.distance_lt_of_passes hhole hsh hph.symm hscan hahead⟩

/-- After a move the old hole stands for the slot that was scanned. -/
theorem Supported.move {g : Gap α n} {R : Fin n → Fin n → Prop} (hg : g.Supported R)
    {cell : Cell α} (h : g.slots.get g.scan = some cell) (hpass : g.Passes cell.hash) :
    (g.move cell h).Supported fun q p =>
      R (if q = g.hole then g.scan else q) (if p = g.hole then g.scan else p) := by
  intro p other hp q hq
  rw [get_move] at hp
  by_cases hqs : q = g.scan
  · exact .inl ⟨hqs, Cyclic.distance_le_distance_next _ _⟩
  rw [get_move]
  right
  by_cases hph : p = g.hole
  · -- the moved entry: its way to the hole is the first part of its way to the scanned slot
    rw [if_pos hph] at hp
    cases hp
    subst hph
    have hqh : q ≠ g.hole := Slots.OnWay.ne hq
    rcases hg h (Nat.lt_trans hq hpass) with ⟨rfl, -⟩ | hR
    · exact absurd rfl hqh
    · simpa [hqh, hqs] using hR
  · rw [if_neg hph] at hp
    split_ifs at hp with hps
    rcases hg hp hq with ⟨rfl, hahead⟩ | ⟨hsome, hR⟩
    · -- the way of this entry passes the hole and therefore the scanned slot
      obtain ⟨hsh, hway⟩ := onWay_scan hp hq hahead (Ne.symm hps)
      rcases hg hp hway with ⟨e, -⟩ | ⟨-, hR⟩
      · exact absurd e hsh
      · simpa [hph] using hR
    · have hqh : q ≠ g.hole := (Slots.ne_of_isSome g.hole_empty hsome).symm
      simpa [hqh, hqs, hph] using ⟨hsome, hR⟩

theorem Supported.skip {g : Gap α n} {R : Fin n → Fin n → Prop} (hg : g.Supported R)
    {cell : Cell α} (h : g.slots.get g.scan = some cell) (hstay : ¬g.Passes cell.hash) :
    g.skip.Supported R := by
  intro p other hp q hq
  simp only [Gap.skip] at hp ⊢
  rcases hg hp hq with ⟨rfl, hahead⟩ | hR
  · left
    have hps : p ≠ g.scan := by
      rintro rfl
      rw [h] at hp
      cases hp
      exact hstay hq
    have hlt : Cyclic.distance p g.hole < Cyclic.distance g.scan g.hole :=
      Nat.lt_of_le_of_ne hahead fun e => hps (Cyclic.distance_left_inj.1 e)
    have hnext := Cyclic.distance_next (scan_ne_hole h)
    exact ⟨rfl, by omega⟩
  · exact .inr hR

/-- At the end of the scan the hole is on nobody's way. -/
theorem Supported.slots {g : Gap α n} {R : Fin n → Fin n → Prop} (hg : g.Supported R)
    (hend : g.slots.get g.scan = none) : g.slots.Supported R := by
  intro p cell hp q hq
  rcases hg hp hq with ⟨rfl, hahead⟩ | hR
  · have hps : g.scan ≠ p := Slots.ne_of_isSome hend (Option.isSome_of_eq_some hp)
    obtain ⟨hsh, hway⟩ := onWay_scan hp hq hahead hps
    rcases hg hp hway with ⟨e, -⟩ | ⟨hsome, -⟩
    · exact absurd e hsh
    · exact absurd rfl (Slots.ne_of_isSome hend hsome)
  · exact hR

/-- The entries that remain are supported up to a relabelling of the slots. -/
theorem exists_supported_close {s : Slots α n} {R : Fin n → Fin n → Prop} (h : s.Supported R)
    (i : Fin n) :
    ∃ label : Fin n → Fin n, (ofTaken s i).close.Supported fun q p => R (label q) (label p) := by
  obtain ⟨last, ⟨label, hlast⟩, hend, hclose⟩ := close_induction
    (P := fun g => ∃ label : Fin n → Fin n, g.Supported fun q p => R (label q) (label p))
    (fun g cell hscan ⟨label, hg⟩ hpass =>
      ⟨fun p => label (if p = g.hole then g.scan else p), hg.move hscan hpass⟩)
    (fun g cell hscan ⟨label, hg⟩ hstay => ⟨label, hg.skip hscan hstay⟩)
    (ofTaken s i) ⟨id, supported_ofTaken h i⟩
  exact ⟨label, hclose ▸ hlast.slots hend⟩

theorem reachable_close {s : Slots α n} (h : s.Reachable) (i : Fin n) :
    (ofTaken s i).close.Reachable := by
  obtain ⟨_, hclose⟩ := exists_supported_close h i
  exact hclose

theorem settled_close {s : Slots α n} (h : s.Settled) (i : Fin n) :
    (ofTaken s i).close.Settled := by
  obtain ⟨rank, hrank⟩ := h
  obtain ⟨label, hclose⟩ := exists_supported_close hrank i
  exact ⟨fun p => rank (label p), hclose⟩

/-! ## Contents -/

theorem cells_move_perm (g : Gap α n) (cell : Cell α) (h : g.slots.get g.scan = some cell) :
    (g.move cell h).slots.cells.Perm g.slots.cells :=
  Slots.cells_move_perm g.hole_empty h

theorem cells_close_perm (g : Gap α n) : g.close.cells.Perm g.slots.cells := by
  obtain ⟨last, hlast, -, hclose⟩ := close_induction
    (P := fun g' : Gap α n => g'.slots.cells.Perm g.slots.cells)
    (fun g' cell hscan hg' _ => (cells_move_perm g' cell hscan).trans hg')
    (fun _ _ _ hg' _ => hg')
    g (List.Perm.refl _)
  exact hclose ▸ hlast

/-- Exactly the taken cell is gone. -/
theorem cons_cells_close_perm {s : Slots α n} {i : Fin n} {cell : Cell α}
    (h : s.get i = some cell) : (cell :: (ofTaken s i).close.cells).Perm s.cells := by
  have hothers : (ofTaken s i).close.cells.Perm (s.others i) :=
    (cells_close_perm _).trans (by simpa [ofTaken] using Slots.cells_put_perm s i none)
  exact (hothers.cons cell).trans (by simpa [h] using (Slots.cells_perm_others s i).symm)

end Gap

end LinearProbing

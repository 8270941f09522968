-- SUMMARY: Which orders of arrival lead to a layout: those in which every entry comes after the entries on its way.
import LinearProbing.Proofs.Slots.Search

/-! # Layouts and orders of arrival

Entries that are placed one after the other stand in slots that depend on the order in which they
came. An entry passes only entries that were there before it. This already determines the layout:
an order of arrival leads to it if and only if every entry comes after those on its way.
-/

namespace LinearProbing

universe u

variable {α : Type u} {n : Nat} {arrivals : List (Cell α)} {cell earlier later : Cell α}

/-- One entry comes somewhere before another one. -/
def Precedes (arrivals : List (Cell α)) (earlier later : Cell α) : Prop :=
  [earlier, later].Sublist arrivals

theorem Precedes.concat (h : Precedes arrivals earlier later) (cell : Cell α) :
    Precedes (arrivals ++ [cell]) earlier later :=
  h.trans (List.sublist_append_left ..)

theorem precedes_concat_self (h : earlier ∈ arrivals) (cell : Cell α) :
    Precedes (arrivals ++ [cell]) earlier cell :=
  (List.singleton_sublist.2 h).append (.refl [cell])

/-- Only the arrival that comes last is new to the order. -/
theorem precedes_concat_iff : Precedes (arrivals ++ [cell]) earlier later ↔
    Precedes arrivals earlier later ∨ earlier ∈ arrivals ∧ later = cell := by
  constructor
  · intro h
    obtain ⟨front, back, hsplit, hfront, hback⟩ := List.sublist_append_iff.1 h
    rcases List.sublist_singleton.1 hback with rfl | rfl
    · rw [List.append_nil] at hsplit
      subst hsplit
      exact .inl hfront
    · have hsplit' : [earlier] ++ [later] = front ++ [cell] := hsplit
      obtain ⟨rfl, hlater⟩ := List.append_inj' hsplit' rfl
      exact .inr ⟨List.singleton_sublist.1 hfront, List.head_eq_of_cons_eq hlater⟩
  · rintro (h | ⟨h, rfl⟩)
    · exact h.concat cell
    · exact precedes_concat_self h later

namespace Slots

variable {s t : Slots α n}

/-- Every entry comes, in this order of arrival, after the entries on its way. -/
def ArrivesIn (s : Slots α n) (arrivals : List (Cell α)) : Prop :=
  s.Supported fun q p => ∀ ⦃earlier later⦄, s.get q = some earlier → s.get p = some later →
    Precedes arrivals earlier later

/-! ## What placement leads to -/

/-- The step lemma: the entry that is placed has passed entries that were there before. -/
theorem ArrivesIn.place? (hs : s.ArrivesIn arrivals) (hcells : s.cells.Perm arrivals)
    (h : s.place? cell = some t) : t.ArrivesIn (arrivals ++ [cell]) := by
  obtain ⟨i, hi, rfl⟩ := place?_eq_some h
  refine hs.put hi ?_ ?_
  · intro q p hq hp hR earlier later hearlier hlater
    rw [get_put_ne _ _ hq.symm] at hearlier
    rw [get_put_ne _ _ hp.symm] at hlater
    exact (hR hearlier hlater).concat cell
  · intro q hq earlier later hearlier hlater
    rw [get_put_ne _ _ hq.symm] at hearlier
    rw [get_put_self] at hlater
    cases hlater
    exact precedes_concat_self (hcells.mem_iff.1 (mem_cells.2 ⟨q, hearlier⟩)) cell

/-- The run lemma: entries that are placed in an empty array arrive in that order. -/
theorem arrivesIn_of_placeAll? (h : (empty α n).placeAll? arrivals = some s) :
    s.ArrivesIn arrivals := by
  induction arrivals using List.reverseRecOn generalizing s with
  | nil =>
    cases h
    intro p cell hp
    simp at hp
  | append_singleton arrivals cell ih =>
    rw [placeAll?_concat] at h
    obtain ⟨s', hcells, hlast⟩ := Option.bind_eq_some_iff.1 h
    exact (ih hcells).place? (cells_placeAll?_empty hcells) hlast

/-! ## What leads to a layout -/

/-- The last arrival is on nobody's way, so without it the others are as they were before it came. -/
theorem ArrivesIn.put_none (hs : s.ArrivesIn (arrivals ++ [cell]))
    (hcells : s.cells.Perm (arrivals ++ [cell])) (hnew : cell ∉ arrivals) {i : Fin n}
    (hi : s.get i = some cell) :
    (s.put i none).ArrivesIn arrivals ∧ (s.put i none).cells.Perm arrivals ∧
      (s.put i none).FirstEmpty (home cell.hash i.pos) i := by
  have hperm : (s.put i none).cells.Perm arrivals := by
    have hwith : (cell :: (s.put i none).cells).Perm (cell :: arrivals) := by
      calc (cell :: (s.put i none).cells).Perm s.cells := (cells_perm_put_none hi).symm
        List.Perm _ (arrivals ++ [cell]) := hcells
        List.Perm _ (cell :: arrivals) := List.perm_append_singleton ..
    exact hwith.cons_inv
  have hway : ∀ ⦃p other⦄, s.get p = some other → ¬OnWay other.hash i p := by
    intro p other hp hway
    rcases precedes_concat_iff.1 ((hs hp hway).2 hi hp) with hbefore | ⟨hmem, -⟩
    · exact hnew (hbefore.subset List.mem_cons_self)
    · exact hnew hmem
  obtain ⟨hrest, hfirst⟩ := Supported.put_none hs hi hway
  refine ⟨hrest.mono ?_, hperm, hfirst⟩
  intro q p hR earlier later hq hp
  have hmem : later ∈ arrivals := hperm.mem_iff.1 (mem_cells.2 ⟨p, hp⟩)
  have hiq : i ≠ q := ne_of_isSome (get_put_self ..) (Option.isSome_of_eq_some hq)
  have hip : i ≠ p := ne_of_isSome (get_put_self ..) (Option.isSome_of_eq_some hp)
  rw [get_put_ne _ _ hiq] at hq
  rw [get_put_ne _ _ hip] at hp
  rcases precedes_concat_iff.1 (hR hq hp) with hbefore | ⟨-, rfl⟩
  · exact hbefore
  · exact absurd hmem hnew

/-- Entries that are placed in an order in which they can have come to their slots do so. -/
theorem ArrivesIn.placeAll? (hs : s.ArrivesIn arrivals) (hcells : s.cells.Perm arrivals)
    (hdistinct : arrivals.Nodup) : (empty α n).placeAll? arrivals = some s := by
  induction arrivals using List.reverseRecOn generalizing s with
  | nil =>
    rw [eq_empty_of_cells_eq_nil hcells.eq_nil]
    rfl
  | append_singleton arrivals cell ih =>
    obtain ⟨hrest, hnew⟩ : arrivals.Nodup ∧ cell ∉ arrivals := by
      have hcons := (List.perm_append_singleton cell arrivals).nodup_iff.1 hdistinct
      exact ⟨(List.nodup_cons.1 hcons).2, (List.nodup_cons.1 hcons).1⟩
    have hmem : cell ∈ s.cells := hcells.mem_iff.2 (by simp)
    obtain ⟨i, hi⟩ := mem_cells.1 hmem
    obtain ⟨hs', hcells', hfirst⟩ := hs.put_none hcells hnew hi
    rw [placeAll?_concat, ih hs' hcells' hrest, Option.bind_some, place?_of_firstEmpty hfirst,
      put_put, put_of_get hi]

/-- An order of arrival leads to a layout if and only if every entry comes after those on its
way. -/
theorem placeAll?_eq_some_iff (hdistinct : arrivals.Nodup) :
    (empty α n).placeAll? arrivals = some s ↔ s.cells.Perm arrivals ∧ s.ArrivesIn arrivals := by
  constructor
  · intro h
    exact ⟨cells_placeAll?_empty h, arrivesIn_of_placeAll? h⟩
  · rintro ⟨hcells, hs⟩
    exact hs.placeAll? hcells hdistinct

end Slots

end LinearProbing

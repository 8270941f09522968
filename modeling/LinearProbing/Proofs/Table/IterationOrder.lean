-- SUMMARY: In which order a filled table lists its items: the order of arrival shows where entries stand in each other's way.
import LinearProbing.Proofs.Slots.Precedence
import LinearProbing.Proofs.Table.History
import LinearProbing.Proofs.Table.Insertion
import LinearProbing.Proofs.Table.Keyed

/-! # The order of iteration

A table lists its items in slot order. Two bounded tables that are filled with the same entries have
the same slots occupied, in whatever order the entries came. Which entry stands in which of these
slots depends on the order, so the hashes and the number of slots do not determine the listing: of
two entries with the same home the one that came first is nearer to it. The listings are the same
if and only if every entry of the one table came, in the other order as well, after the entries on
its way.
-/

namespace LinearProbing

universe u

variable {α : Type u} {n : Nat} {arrivals arrivals' : List (Cell α)}

namespace Slots

/-- Lists without gaps determine what they were made of, if the gaps are in the same places. -/
theorem eq_of_filterMap_eq {ι β : Type*} {f g : ι → Option β} {positions : List ι}
    (hgaps : ∀ i ∈ positions, (f i).isSome = (g i).isSome)
    (h : positions.filterMap f = positions.filterMap g) : ∀ i ∈ positions, f i = g i := by
  induction positions with
  | nil => simp
  | cons i positions ih =>
    have hi := hgaps i List.mem_cons_self
    have hrest := fun j hj => hgaps j (List.mem_cons_of_mem i hj)
    rw [List.filterMap_cons, List.filterMap_cons] at h
    rw [List.forall_mem_cons]
    cases hf : f i with
    | none =>
      rw [hf] at hi h
      have hg : g i = none := by simpa using hi.symm
      rw [hg] at h
      exact ⟨hg.symm, ih hrest h⟩
    | some b =>
      rw [hf] at hi h
      obtain ⟨b', hg⟩ := Option.isSome_iff_exists.1 hi.symm
      rw [hg] at h ⊢
      obtain ⟨rfl, htail⟩ := List.cons.inj h
      exact ⟨rfl, ih hrest htail⟩

/-- Arrays with the same slots occupied by the same entries are equal if they list the same items,
as the items tell the entries apart. -/
theorem eq_of_map_item_cells {s s' : Slots α n} (hoccupied : s.occupied = s'.occupied)
    (hperm : s.cells.Perm s'.cells) (hdistinct : (s.cells.map (·.item)).Nodup)
    (hitems : s.cells.map (·.item) = s'.cells.map (·.item)) : s = s' := by
  rw [cells_eq_filterMap, cells_eq_filterMap, List.map_filterMap, List.map_filterMap] at hitems
  have hgaps : ∀ i ∈ List.finRange n,
      ((s.get i).map (·.item)).isSome = ((s'.get i).map (·.item)).isSome := by
    intro i _
    rw [Option.isSome_map, Option.isSome_map, isSome_eq_of_occupied hoccupied]
  apply ext_get
  intro i
  have hitem := eq_of_filterMap_eq hgaps hitems i (List.mem_finRange i)
  cases hi : s.get i with
  | none =>
    rw [hi] at hitem
    exact (Option.map_eq_none_iff.1 hitem.symm).symm
  | some cell =>
    rw [hi] at hitem
    obtain ⟨cell', hi', hsame⟩ := Option.map_eq_some_iff.1 hitem.symm
    have hmem : cell ∈ s.cells := mem_cells.2 ⟨i, hi⟩
    have hmem' : cell' ∈ s.cells := hperm.mem_iff.2 (mem_cells.2 ⟨i, hi'⟩)
    rw [hi', List.inj_on_of_nodup_map hdistinct hmem' hmem hsame]

end Slots

namespace Table

/-- A bounded table of `n` slots that the entries have filled, one after the other. -/
structure FilledFrom (n : Nat) (arrivals : List (Cell α)) (t : Table α) : Prop where
  storeAll_eq : (ofBound α n).storeAll arrivals = .ok t
  wellFormed : t.WellFormed
  cells_perm : t.slots.cells.Perm arrivals

theorem exists_filledFrom (hroom : arrivals.length ≤ n) :
    ∃ slots, (Slots.empty α n).placeAll? arrivals = some slots ∧
      FilledFrom n arrivals (.mk .bounded n slots arrivals.length) := by
  obtain ⟨slots, hplace⟩ :=
    (Slots.empty α n).exists_placeAll? arrivals (by simpa using hroom)
  have hperm := Slots.cells_placeAll?_empty hplace
  have hstore : (ofBound α n).storeAll arrivals =
      .ok (.mk .bounded n slots (0 + arrivals.length)) := by
    have hall : (ofBound α n).slots.placeAll? arrivals = some slots := hplace
    rw [storeAll_eq, hall]
    rfl
  rw [Nat.zero_add] at hstore
  exact ⟨slots, hplace, hstore,
    { count_eq := hperm.length_eq.symm, settled := Slots.settled_empty.placeAll? hplace }, hperm⟩

/-- Tables that are filled with the same entries in two orders have the same layout and list the
same items. They list them in the same order if and only if every entry of the first table comes, in
the second order as well, after the entries on its way. -/
theorem toList_eq_iff_arrivesIn (hperm : arrivals.Perm arrivals')
    (hdistinct : (arrivals.map (·.item)).Nodup) (hroom : arrivals.length ≤ n) :
    ∃ t t', FilledFrom n arrivals t ∧ FilledFrom n arrivals' t' ∧ SameLayout t t' ∧
      t.toList.Perm t'.toList ∧ (t.toList = t'.toList ↔ t.slots.ArrivesIn arrivals') := by
  obtain ⟨s, hplace, hfilled⟩ := exists_filledFrom hroom
  obtain ⟨s', hplace', hfilled'⟩ := exists_filledFrom (n := n) (hperm.length_eq ▸ hroom)
  have hcells : s.cells.Perm s'.cells :=
    hfilled.cells_perm.trans (hperm.trans hfilled'.cells_perm.symm)
  have hlayout := hfilled.wellFormed.sameLayout hfilled'.wellFormed rfl (hcells.map _)
  have hoccupied : s.occupied = s'.occupied := Finset.map_injective _ hlayout.occupied
  have hitems : (s.cells.map (·.item)).Nodup :=
    (hfilled.cells_perm.map _).nodup_iff.2 hdistinct
  have hcells' : arrivals'.Nodup := hperm.nodup_iff.1 hdistinct.of_map
  refine ⟨_, _, hfilled, hfilled', hlayout, ?_, ?_⟩
  · rw [hfilled.wellFormed.toList_eq_items, hfilled'.wellFormed.toList_eq_items]
    exact hcells.map _
  · rw [hfilled.wellFormed.toList_eq_items, hfilled'.wellFormed.toList_eq_items]
    constructor
    · intro hlist
      obtain rfl : s = s' := Slots.eq_of_map_item_cells hoccupied hcells hitems hlist
      exact Slots.arrivesIn_of_placeAll? hplace'
    · intro harrives
      have hsame := (Slots.placeAll?_eq_some_iff hcells').2
        ⟨hfilled.cells_perm.trans hperm, harrives⟩
      rw [hplace'] at hsame
      cases hsame
      rfl

/-- Three entries of which the first two have the same home. -/
theorem toList_eq_iff_arrivesIn_three :
    ∃ t t', FilledFrom 5 [⟨0, 1⟩, ⟨5, 2⟩, ⟨2, 3⟩] t ∧
      FilledFrom 5 [⟨2, 3⟩, ⟨0, 1⟩, ⟨5, 2⟩] t' ∧ SameLayout t t' ∧ t.toList.Perm t'.toList ∧
        (t.toList = t'.toList ↔ t.slots.ArrivesIn [⟨2, 3⟩, ⟨0, 1⟩, ⟨5, 2⟩]) :=
  toList_eq_iff_arrivesIn (by decide) (by decide) (by decide)

/-- Two entries with the same home are listed in the order in which they came. -/
theorem toList_of_sameHome :
    List.Perm [Cell.mk 0 1, ⟨4, 2⟩] [⟨4, 2⟩, ⟨0, 1⟩] ∧
      ((ofBound Nat 4).storeAll [⟨0, 1⟩, ⟨4, 2⟩]).map toList = .ok [1, 2] ∧
      ((ofBound Nat 4).storeAll [⟨4, 2⟩, ⟨0, 1⟩]).map toList = .ok [2, 1] := by
  decide +kernel

end Table

end LinearProbing

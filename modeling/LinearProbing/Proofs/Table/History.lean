-- SUMMARY: The occupied slots and the total distance from home do not depend on a table's history.
import LinearProbing.Proofs.Slots.Arrivals
import LinearProbing.Proofs.Statistics.Cluster
import LinearProbing.Proofs.Statistics.Histogram
import LinearProbing.Proofs.Table.Run
import LinearProbing.Statistics.Summary

/-! # Independence of history

Every table that operations lead to is settled, so its entries could have arrived one after the
other, and the order of arrivals does not matter. Two tables of one capacity whose entries have the
same homes therefore agree on which slots are occupied, however they came about. In which of these
slots an entry stands may differ.
-/

namespace LinearProbing

universe u v

namespace Slots

variable {α : Type u} {β : Type v} {n : Nat}

theorem length_displacements (s : Slots α n) : s.displacements.length = s.cells.length := by
  rw [displacements, cells_eq_filterMap, List.length_filterMap_eq_countP,
    List.length_filterMap_eq_countP]
  apply List.countP_congr
  intro i _
  simp [displacement?]

theorem length_displacements_congr {s : Slots α n} {t : Slots β n}
    (h : s.occupied = t.occupied) : s.displacements.length = t.displacements.length := by
  rw [length_displacements, length_displacements, ← card_occupied, ← card_occupied, h]

theorem longestCluster_of_occupied {s : Slots α n} {t : Slots β n}
    (h : s.occupied = t.occupied) : s.longestCluster = t.longestCluster :=
  longestCluster_congr (isSome_eq_of_occupied h)

end Slots

namespace Table

variable {α : Type u} {β : Type v}

/-- Tables with the same slots occupied and the same total distance from home. -/
structure SameLayout (t : Table α) (t' : Table β) : Prop where
  occupied : t.slots.occupied.map Fin.valEmbedding = t'.slots.occupied.map Fin.valEmbedding
  totalDisplacement : t.slots.totalDisplacement = t'.slots.totalDisplacement
  weight : (Histogram.ofSlots t.slots).weight = (Histogram.ofSlots t'.slots).weight
  meanProbe : ∀ slotBytes slotBytes',
    (Summary.ofTable t slotBytes).meanProbe = (Summary.ofTable t' slotBytes').meanProbe
  longestCluster : t.slots.longestCluster = t'.slots.longestCluster

theorem WellFormed.sameLayout {t : Table α} {t' : Table β} (h : t.WellFormed)
    (h' : t'.WellFormed) (hcapacity : t.capacity = t'.capacity)
    (hhomes : t.slots.homes.Perm t'.slots.homes) : SameLayout t t' := by
  obtain ⟨sizing', capacity', slots', count'⟩ := t'
  subst hcapacity
  obtain ⟨hoccupied, htotal⟩ := h.settled.eq_of_homes_perm h'.settled hhomes
  exact
    { occupied := by rw [hoccupied]
      totalDisplacement := htotal
      weight := by rw [Histogram.weight_ofSlots, Histogram.weight_ofSlots, htotal]
      meanProbe := by
        intro slotBytes slotBytes'
        simp only [Summary.ofTable, htotal, Slots.length_displacements_congr hoccupied]
      longestCluster := Slots.longestCluster_of_occupied hoccupied }

/-- Tables that any operations lead to have the same layout if they have the same capacity and their
entries have the same homes. -/
theorem Reachable.sameLayout_of_homes_perm {t : Table α} {t' : Table β} (h : t.Reachable)
    (h' : t'.Reachable) (hcapacity : t.capacity = t'.capacity)
    (hhomes : t.slots.homes.Perm t'.slots.homes) :
    SameLayout t t' ∧ (Histogram.ofSlots t.slots).weight = t.slots.totalDisplacement :=
  ⟨h.wellFormed.sameLayout h'.wellFormed hcapacity hhomes, Histogram.weight_ofSlots t.slots⟩

/-- Two full tables whose entries have changed places. -/
theorem sameLayout_pair :
    (pair 0 2).slots.toList ≠ (pair 2 0).slots.toList ∧ SameLayout (pair 0 2) (pair 2 0) :=
  ⟨by decide +kernel,
    (Reachable.sameLayout_of_homes_perm (reachable_pair 0 2) (reachable_pair 2 0)
      (by decide +kernel) (by decide +kernel)).1⟩

end Table

end LinearProbing

-- SUMMARY: The histogram and the summary of a table agree with its entries and with each other.
import LinearProbing.Proofs.Statistics.Cluster
import LinearProbing.Proofs.Table.Conservation
import LinearProbing.Proofs.Table.History

/-! # Statistics agree

That a histogram counts every entry is a fact about counting. How its bins and the longest cluster
compare is a fact about layouts: the whole way of an entry is occupied, so an entry far from home is in
a long cluster, and an entry that comes first in the rank of a settled layout is at home. In a full
table only the rank shows that there is one.
-/

namespace LinearProbing

universe u

variable {α : Type u} {n : Nat}

/-- The greatest of some counts is one of them. -/
theorem foldl_max_mem {counts : List Nat} (h : counts ≠ []) : counts.foldl max 0 ∈ counts := by
  obtain ⟨count, rest, rfl⟩ := List.exists_cons_of_ne_nil h
  apply List.max?_mem
  rw [List.max?_cons', List.foldl_cons, Nat.zero_max]

namespace Slots

variable {s : Slots α n}

theorem mem_displacements {distance : Nat} : distance ∈ s.displacements ↔
    ∃ i cell, s.get i = some cell ∧ Cyclic.distance (home cell.hash i.pos) i = distance := by
  simp [displacements, displacement?]

/-- Some entry of a settled layout is at home: one of the least rank has nothing on its way. -/
theorem Settled.zero_mem_displacements (h : s.Settled) (hne : s.occupied.Nonempty) :
    0 ∈ s.displacements := by
  obtain ⟨rank, hrank⟩ := h
  obtain ⟨i, hi, hmin⟩ := s.occupied.exists_min_image rank hne
  obtain ⟨cell, hcell⟩ := Option.isSome_iff_exists.1 (mem_occupied.1 hi)
  refine mem_displacements.2 ⟨i, cell, hcell, ?_⟩
  by_contra hfar
  have hway : OnWay cell.hash (home cell.hash i.pos) i := by
    rw [OnWay, Cyclic.distance_self]
    exact Nat.pos_of_ne_zero hfar
  obtain ⟨hsome, hlt⟩ := hrank hcell hway
  exact Nat.not_le.2 hlt (hmin _ (mem_occupied.2 hsome))

/-- An entry and the slots on its way are a run. -/
theorem Reachable.isRun {i : Fin n} {cell : Cell α} (h : s.Reachable) (hi : s.get i = some cell) :
    s.IsRun (home cell.hash i.pos) (Cyclic.distance (home cell.hash i.pos) i + 1) where
  length_le := Cyclic.distance_lt _ _
  isSome _ hsteps := h.isSome_iterate_next hi (Nat.le_of_lt_succ hsteps)

theorem Reachable.lt_longestCluster (h : s.Reachable) {distance : Nat}
    (hmem : distance ∈ s.displacements) : distance < s.longestCluster := by
  obtain ⟨i, cell, hi, rfl⟩ := mem_displacements.1 hmem
  exact (h.isRun hi).length_le_longestCluster

theorem longestCluster_le_card (s : Slots α n) : s.longestCluster ≤ s.occupied.card := by
  rcases Nat.eq_zero_or_pos n with rfl | hn
  · unfold longestCluster
    split
    · exact Nat.zero_le _
    · next gap _ => exact gap.elim0
  · obtain ⟨start, hrun⟩ := s.exists_isRun_longestCluster hn
    exact hrun.length_le_card

end Slots

namespace Table

variable {t : Table α}

/-- A histogram and a summary that fit a table of `count` entries and each other. -/
structure Consistent (histogram : Histogram) (summary : Summary) (count : Nat) : Prop where
  total_eq : histogram.total = count
  longestCluster_le : summary.longestCluster ≤ count
  of_empty : count = 0 →
    histogram.bins = #[] ∧ summary.longestProbe = 0 ∧ summary.longestCluster = 0
  size_eq : count ≠ 0 → histogram.bins.size = summary.longestProbe + 1
  /-- The last bin is needed, and some entry is at home. -/
  last_pos : count ≠ 0 → ∃ entries ∈ histogram.bins.back?, 0 < entries
  first_pos : count ≠ 0 → ∃ entries ∈ histogram.bins[0]?, 0 < entries
  longestProbe_lt : count ≠ 0 → summary.longestProbe < summary.longestCluster

theorem WellFormed.length_displacements (h : t.WellFormed) :
    t.slots.displacements.length = t.count := by
  rw [Slots.length_displacements, h.count_eq]

theorem WellFormed.displacements_eq_nil_iff (h : t.WellFormed) :
    t.slots.displacements = [] ↔ t.count = 0 := by
  rw [← h.length_displacements, List.length_eq_zero_iff]

theorem WellFormed.consistent (h : t.WellFormed) (slotBytes : Nat) :
    Consistent (Histogram.ofSlots t.slots) (Summary.ofTable t slotBytes) t.count := by
  have hne (hcount : t.count ≠ 0) : t.slots.displacements ≠ [] :=
    fun hnil => hcount (h.displacements_eq_nil_iff.1 hnil)
  have hlongest (hcount : t.count ≠ 0) :
      (Summary.ofTable t slotBytes).longestProbe ∈ t.slots.displacements :=
    foldl_max_mem (hne hcount)
  have hcluster : t.slots.longestCluster ≤ t.count := by
    rw [h.count_eq_card]
    exact t.slots.longestCluster_le_card
  refine
    { total_eq := ?_
      longestCluster_le := hcluster
      of_empty := ?_
      size_eq := fun hcount => Histogram.size_ofDistances (hne hcount)
      last_pos := ?_
      first_pos := ?_
      longestProbe_lt := fun hcount => h.reachable.lt_longestCluster (hlongest hcount) }
  · rw [Histogram.ofSlots, Histogram.total_ofDistances, h.length_displacements]
  · intro hcount
    have hnil := h.displacements_eq_nil_iff.2 hcount
    refine ⟨?_, ?_, ?_⟩
    · rw [Histogram.ofSlots, hnil]
      rfl
    · simp only [Summary.ofTable, hnil]
      rfl
    · exact Nat.eq_zero_of_le_zero (hcount ▸ hcluster)
  · intro hcount
    have hsize : (Histogram.ofSlots t.slots).bins.size - 1 =
        (Summary.ofTable t slotBytes).longestProbe := by
      rw [Histogram.ofSlots, Histogram.size_ofDistances (hne hcount)]
      rfl
    rw [Array.back?_eq_getElem?, hsize]
    exact Histogram.exists_bin_pos (hlongest hcount)
  · intro hcount
    refine Histogram.exists_bin_pos (h.settled.zero_mem_displacements ?_)
    rw [← Finset.card_pos, ← h.count_eq_card]
    exact Nat.pos_of_ne_zero hcount

/-- The statistics of every table that operations lead to are consistent. -/
theorem Reachable.statistics_consistent (h : t.Reachable) (slotBytes : Nat) :
    Consistent (Histogram.ofSlots t.slots) (Summary.ofTable t slotBytes) t.count :=
  h.wellFormed.consistent slotBytes

/-- The third of three entries is two slots from home, past the end of the array. -/
theorem statistics_consistent_wrapped :
    Consistent (Histogram.ofSlots wrapped.slots) (Summary.ofTable wrapped 16) 3 ∧
      (Histogram.ofSlots wrapped.slots).bins = #[1, 1, 1] := by
  have hcount : wrapped.count = 3 := by decide +kernel
  refine ⟨?_, by decide +kernel⟩
  rw [← hcount]
  exact reachable_wrapped.statistics_consistent 16

end Table

end LinearProbing

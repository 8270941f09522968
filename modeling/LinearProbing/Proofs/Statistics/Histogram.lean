-- SUMMARY: The bins of a histogram are counts, and their weighted sum is the total distance.
import LinearProbing.Statistics.Histogram
import Mathlib.Algebra.BigOperators.Fin
import Mathlib.Algebra.BigOperators.Group.Finset.Basic
import Mathlib.Algebra.GroupWithZero.Nat
import Mathlib.Tactic.SplitIfs

/-! # Histograms

Bin `d` holds the number of distances equal to `d`, and there is a bin for each of them. So the bins,
weighted by their distance, add up to the total distance.
-/

namespace LinearProbing

theorem total_eq_sum (counts : List Nat) : total counts = counts.sum := by
  induction counts with
  | nil => rfl
  | cons count rest ih => rw [total_cons, List.sum_cons, ih]

namespace Histogram

/-- The distances of all entries counted, added up bin by bin. -/
def weight (h : Histogram) : Nat := ∑ n ∈ Finset.range h.bins.size, n * h.bins.getD n 0

theorem getD_modify {bins : Array Nat} {distance : Nat} (h : distance < bins.size) (n : Nat) :
    (bins.modify distance (· + 1)).getD n 0 =
      bins.getD n 0 + if n = distance then 1 else 0 := by
  simp only [Array.getD_eq_getD_getElem?, Array.getElem?_modify]
  by_cases hn : distance = n
  · subst hn
    rw [if_pos rfl, if_pos rfl, Array.getElem?_eq_getElem h, Option.map_some, Option.getD_some,
      Option.getD_some]
  · rw [if_neg hn, if_neg (Ne.symm hn), Nat.add_zero]

theorem getD_append_zeros (bins : Array Nat) (count n : Nat) :
    (bins ++ Array.replicate count 0).getD n 0 = bins.getD n 0 := by
  simp only [Array.getD_eq_getD_getElem?, Array.getElem?_append, Array.getElem?_replicate]
  split_ifs with hn
  · rfl
  · rw [Array.getElem?_eq_none (Nat.le_of_not_lt hn)]
    rfl
  · rw [Array.getElem?_eq_none (Nat.le_of_not_lt hn)]

theorem getD_add (h : Histogram) (distance n : Nat) :
    (h.add distance).bins.getD n 0 = h.bins.getD n 0 + if n = distance then 1 else 0 := by
  have hsize : distance < (h.bins ++ Array.replicate (distance + 1 - h.bins.size) 0).size := by
    simp only [Array.size_append, Array.size_replicate]
    omega
  rw [add, getD_modify hsize, getD_append_zeros]

/-- Each bin counts the distances equal to its number. -/
theorem getD_ofDistances (distances : List Nat) (n : Nat) :
    (ofDistances distances).bins.getD n 0 = distances.count n := by
  have hfold (h : Histogram) :
      (distances.foldl add h).bins.getD n 0 = h.bins.getD n 0 + distances.count n := by
    induction distances generalizing h with
    | nil => rfl
    | cons distance distances ih =>
      rw [List.foldl_cons, ih, getD_add, List.count_cons]
      simp only [beq_iff_eq, eq_comm (a := distance)]
      omega
  rw [ofDistances, hfold]
  simp

theorem lt_size_of_mem {distances : List Nat} {distance : Nat} (h : distance ∈ distances) :
    distance < (ofDistances distances).bins.size := by
  apply Nat.lt_of_not_le
  intro hsize
  have hcount := getD_ofDistances distances distance
  rw [Array.getD_eq_getD_getElem?, Array.getElem?_eq_none hsize] at hcount
  exact (List.count_pos_iff.2 h).ne hcount

/-- A bin of a distance that occurs is not zero. -/
theorem exists_bin_pos {distances : List Nat} {distance : Nat} (h : distance ∈ distances) :
    ∃ entries ∈ (ofDistances distances).bins[distance]?, 0 < entries := by
  have hsize := lt_size_of_mem h
  have hcount := getD_ofDistances distances distance
  rw [Array.getD_eq_getD_getElem?, Array.getElem?_eq_getElem hsize, Option.getD_some] at hcount
  refine ⟨_, Array.getElem?_eq_getElem hsize, ?_⟩
  rw [hcount]
  exact List.count_pos_iff.2 h

/-! ## The number of bins and the number of entries -/

theorem size_add (h : Histogram) (distance : Nat) :
    (h.add distance).bins.size = max h.bins.size (distance + 1) := by
  simp only [add, Array.size_modify, Array.size_append, Array.size_replicate]
  omega

/-- There is a bin for the largest distance, and none beyond it. -/
theorem size_ofDistances {distances : List Nat} (h : distances ≠ []) :
    (ofDistances distances).bins.size = distances.foldl max 0 + 1 := by
  have hfold (distances : List Nat) (h : Histogram) (largest : Nat)
      (hsize : h.bins.size = largest + 1) :
      (distances.foldl add h).bins.size = distances.foldl max largest + 1 := by
    induction distances generalizing h largest with
    | nil => exact hsize
    | cons distance distances ih =>
      rw [List.foldl_cons, List.foldl_cons]
      refine ih _ _ ?_
      rw [size_add, hsize, Nat.add_max_add_right]
  obtain ⟨distance, rest, rfl⟩ := List.exists_cons_of_ne_nil h
  rw [ofDistances, List.foldl_cons, List.foldl_cons]
  refine hfold rest _ _ ?_
  rw [size_add]
  rfl

theorem total_eq_sum_getD (h : Histogram) :
    h.total = ∑ n ∈ Finset.range h.bins.size, h.bins.getD n 0 := by
  obtain ⟨⟨counts⟩⟩ := h
  rw [total, total_eq_sum, Finset.sum_range, ← Fin.sum_univ_getElem]
  apply Finset.sum_congr rfl
  intro n _
  rw [Array.getD_eq_getD_getElem?, Array.getElem?_eq_getElem n.isLt]
  rfl

/-- Every distance is counted in one bin. -/
theorem total_ofDistances (distances : List Nat) :
    (ofDistances distances).total = distances.length := by
  have hmem : ∀ distance ∈ (distances : Multiset Nat),
      distance ∈ Finset.range (ofDistances distances).bins.size := by
    intro distance hmem
    exact Finset.mem_range.2 (lt_size_of_mem (Multiset.mem_coe.1 hmem))
  rw [total_eq_sum_getD, ← Multiset.coe_card, ← Multiset.sum_count_eq_card hmem]
  apply Finset.sum_congr rfl
  intro n _
  rw [getD_ofDistances, Multiset.coe_count]

theorem weight_ofDistances (distances : List Nat) :
    (ofDistances distances).weight = LinearProbing.total distances := by
  have hsubset : distances.toFinset ⊆ Finset.range (ofDistances distances).bins.size := by
    intro distance hmem
    exact Finset.mem_range.2 (lt_size_of_mem (List.mem_toFinset.1 hmem))
  rw [total_eq_sum, Finset.sum_list_count_of_subset distances _ hsubset, weight]
  apply Finset.sum_congr rfl
  intro n _
  rw [getD_ofDistances, Nat.mul_comm]
  rfl

/-- The bins, weighted by their distance, add up to the steps from home of all entries. -/
theorem weight_ofSlots {α : Type*} {n : Nat} (s : Slots α n) :
    (ofSlots s).weight = s.totalDisplacement :=
  weight_ofDistances s.displacements

end Histogram

end LinearProbing

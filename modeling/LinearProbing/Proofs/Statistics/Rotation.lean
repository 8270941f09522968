-- SUMMARY: The longest cluster is the greatest length of a run on the ring, wherever the ring is cut.
import LinearProbing.Proofs.Statistics.Cluster
import Mathlib.Data.List.Rotate
import Mathlib.Order.Bounds.Basic

/-! # Clusters on a ring that is cut elsewhere

The slots form a ring, and the array is that ring cut open at one place. A run is a matter of the
ring: an array that is rotated has runs of the same lengths, from other positions on. So the longest
cluster, as the greatest length of a run, does not depend on where the ring is cut.
-/

namespace LinearProbing.Slots

universe u

variable {α : Type u} {n : Nat} {s t : Slots α n} {length : Nat}

/-- Some `length` slots in a row on the ring are occupied, none of them counted twice. -/
def HasRun (s : Slots α n) (length : Nat) : Prop :=
  length ≤ n ∧ ∃ start, ∀ steps < length,
    ∃ i : Fin n, i.val = (start + steps) % n ∧ (s.get i).isSome

theorem IsRun.hasRun {start : Fin n} (h : s.IsRun start length) : s.HasRun length := by
  refine ⟨h.length_le, start, ?_⟩
  intro steps hsteps
  exact ⟨Cyclic.next^[steps] start, Cyclic.val_iterate_next start steps, h.isSome steps hsteps⟩

theorem HasRun.exists_isRun (h : s.HasRun length) (hn : 0 < n) :
    ∃ start, s.IsRun start length := by
  obtain ⟨hle, start, hrun⟩ := h
  refine ⟨⟨start % n, Nat.mod_lt _ hn⟩, hle, ?_⟩
  intro steps hsteps
  obtain ⟨i, hi, hsome⟩ := hrun steps hsteps
  have hwalk : Cyclic.next^[steps] ⟨start % n, Nat.mod_lt _ hn⟩ = i := by
    apply Fin.ext
    rw [Cyclic.val_iterate_next, hi, Nat.mod_add_mod]
  rwa [hwalk]

theorem hasRun_zero (s : Slots α n) : s.HasRun 0 :=
  ⟨Nat.zero_le n, 0, fun steps hsteps => absurd hsteps (Nat.not_lt_zero steps)⟩

theorem hasRun_one {i : Fin n} (hi : (s.get i).isSome) : s.HasRun 1 := by
  refine ⟨i.pos, i, ?_⟩
  intro steps hsteps
  obtain rfl := Nat.lt_one_iff.1 hsteps
  exact ⟨i, (Nat.mod_eq_of_lt i.isLt).symm, hi⟩

/-- A run of all slots leaves none empty. -/
theorem hasRun_size_iff : s.HasRun n ↔ ∀ i, (s.get i).isSome := by
  constructor
  · intro h i
    obtain ⟨start, hrun⟩ := h.exists_isRun i.pos
    have hsome := hrun.isSome _ (Cyclic.distance_lt start i)
    rwa [Cyclic.iterate_next_distance] at hsome
  · intro h
    refine ⟨Nat.le_refl n, 0, ?_⟩
    intro steps hsteps
    exact ⟨⟨steps, hsteps⟩, by rw [Nat.zero_add, Nat.mod_eq_of_lt hsteps], h _⟩

/-! ## The greatest length -/

theorem longestCluster_of_noSlots (s : Slots α 0) : s.longestCluster = 0 := by
  have hnone : s.first? Option.isNone 0 0 = none := by
    rw [first?, dif_neg fun h => Nat.not_lt_zero 0 h.1]
  rw [longestCluster, hnone]

theorem isGreatest_longestCluster (s : Slots α n) :
    IsGreatest {length | s.HasRun length} s.longestCluster := by
  rcases Nat.eq_zero_or_pos n with rfl | hn
  · rw [longestCluster_of_noSlots]
    exact ⟨s.hasRun_zero, fun length h => h.1⟩
  · obtain ⟨start, hrun⟩ := s.exists_isRun_longestCluster hn
    refine ⟨hrun.hasRun, ?_⟩
    intro length h
    obtain ⟨start, hrun⟩ := h.exists_isRun hn
    exact hrun.length_le_longestCluster

theorem longestCluster_eq_size_iff : s.longestCluster = n ↔ ∀ i, (s.get i).isSome := by
  have hgreatest := s.isGreatest_longestCluster
  rw [← hasRun_size_iff]
  constructor
  · intro h
    have hrun : s.HasRun s.longestCluster := hgreatest.1
    rwa [h] at hrun
  · intro h
    exact Nat.le_antisymm hgreatest.1.1 (hgreatest.2 h)

theorem longestCluster_eq_zero_iff : s.longestCluster = 0 ↔ ∀ i, s.get i = none := by
  have hgreatest := s.isGreatest_longestCluster
  constructor
  · intro h i
    by_contra hi
    have hone : 1 ≤ s.longestCluster :=
      hgreatest.2 (hasRun_one (Option.isSome_iff_ne_none.2 hi))
    omega
  · intro h
    by_contra hne
    obtain ⟨-, start, hrun⟩ := hgreatest.1
    obtain ⟨i, -, hi⟩ := hrun 0 (Nat.pos_of_ne_zero hne)
    rw [h i] at hi
    cases hi

/-! ## Rotations -/

theorem get_of_rotate {shift : Nat} (h : s.toList.rotate shift = t.toList) {i j : Fin n}
    (hij : j.val = (i.val + shift) % n) : t.get i = s.get j := by
  have ht : t.toList[i.val]? = some (t.get i) := by simp [get_eq_getElem]
  have hs : (s.toList.rotate shift)[i.val]? = some (s.get j) := by
    simp [List.getElem_rotate, get_eq_getElem, hij]
  rw [h, ht] at hs
  exact Option.some.inj hs

/-- A run of the rotated array starts further on in the other. -/
theorem HasRun.of_isRotated (h : t.HasRun length) (hrotated : s.toList.IsRotated t.toList) :
    s.HasRun length := by
  obtain ⟨shift, hshift⟩ := hrotated
  obtain ⟨hle, start, hrun⟩ := h
  refine ⟨hle, start + shift, ?_⟩
  intro steps hsteps
  obtain ⟨i, hi, hsome⟩ := hrun steps hsteps
  refine ⟨⟨(i.val + shift) % n, Nat.mod_lt _ i.pos⟩, ?_, ?_⟩
  · show (i.val + shift) % n = (start + shift + steps) % n
    rw [hi, Nat.mod_add_mod, Nat.add_right_comm]
  · rwa [← get_of_rotate hshift rfl]

theorem longestCluster_of_isRotated (h : s.toList.IsRotated t.toList) :
    t.longestCluster = s.longestCluster := by
  have hlengths : {length | t.HasRun length} = {length | s.HasRun length} := by
    ext length
    exact ⟨fun hrun => hrun.of_isRotated h, fun hrun => hrun.of_isRotated h.symm⟩
  have hgreatest := t.isGreatest_longestCluster
  rw [hlengths] at hgreatest
  exact hgreatest.unique s.isGreatest_longestCluster

/-- The longest cluster is the greatest length of a run: all slots if none is empty, nothing if all
are, and the same for every array that is the ring cut elsewhere. -/
theorem longestCluster_greatestRun (s : Slots α n) :
    IsGreatest {length | s.HasRun length} s.longestCluster ∧
      (s.longestCluster = n ↔ ∀ i, (s.get i).isSome) ∧
      (s.longestCluster = 0 ↔ ∀ i, s.get i = none) ∧
      ∀ t : Slots α n, s.toList.IsRotated t.toList → t.longestCluster = s.longestCluster :=
  ⟨s.isGreatest_longestCluster, longestCluster_eq_size_iff, longestCluster_eq_zero_iff,
    fun _ h => longestCluster_of_isRotated h⟩

/-- Three occupied slots in a row, behind `gaps` empty ones at the front. -/
def threeOfFive (gaps : Nat) : Slots Nat 5 :=
  Vector.ofFn fun i => if gaps ≤ i.val ∧ i.val < gaps + 3 ∨ i.val + 5 < gaps + 3 then
    some { hash := 0, item := 0 } else none

/-- The run passes the end of one array and stands in one piece in the other. -/
theorem longestCluster_greatestRun_wrapped :
    (threeOfFive 3).toList.IsRotated (threeOfFive 0).toList ∧
      (threeOfFive 3).longestCluster = 3 ∧
      (threeOfFive 0).longestCluster = (threeOfFive 3).longestCluster :=
  have hrotated : (threeOfFive 3).toList.IsRotated (threeOfFive 0).toList :=
    ⟨3, by decide +kernel⟩
  ⟨hrotated, by decide +kernel,
    (longestCluster_greatestRun (threeOfFive 3)).2.2.2 (threeOfFive 0) hrotated⟩

end LinearProbing.Slots

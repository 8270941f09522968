-- SUMMARY: Consecutive hashes in a table with as many slots: every entry is at home unless 59 divides their number.
import LinearProbing.Proofs.Compression
import LinearProbing.Proofs.Slots.Arrivals
import LinearProbing.Proofs.Statistics.Histogram
import LinearProbing.Proofs.Table.Insertion
import Mathlib.Algebra.BigOperators.Intervals
import Mathlib.Data.Nat.Prime.Basic
import Mathlib.Tactic.NormNum.Prime

/-! # Consecutive hashes

The multiplier is 59 less than `2 ^ 64`, so the homes of consecutive hashes are 59 slots apart, as
long as the products stay in range. If 59 does not divide the number of slots, as many hashes as
slots have a home each. Otherwise every 59th slot is the home of 59 hashes. The order in which entries
arrive does not matter for where they settle, so let the entries of one home arrive one after the
other, and the homes in ring order: each entry then takes the next slot, and those of one home are
`0, 1, …, 58` steps away.
-/

namespace LinearProbing

universe u

variable {α : Type u} {n top : Nat}

/-- A function that sends the numbers below `n` to different numbers below `n` permutes them. -/
theorem perm_range_of_injOn {f : Nat → Nat} (hlt : ∀ k < n, f k < n)
    (hinj : ∀ j < n, ∀ k < n, f j = f k → j = k) :
    ((List.range n).map f).Perm (List.range n) := by
  have hnodup : ((List.range n).map f).Nodup := by
    refine List.nodup_range.map_on ?_
    intro j hj k hk
    exact hinj j (List.mem_range.1 hj) k (List.mem_range.1 hk)
  have hsubset : (List.range n).map f ⊆ List.range n := by
    intro value hvalue
    obtain ⟨k, hk, rfl⟩ := List.mem_map.1 hvalue
    exact List.mem_range.2 (hlt k (List.mem_range.1 hk))
  exact (hnodup.subperm hsubset).perm_of_length_le (by simp)

/-! ## Homes that are 59 slots apart -/

/-- The remainders of the first `n` numbers from `top` down, in steps of 59. -/
def descent (top n : Nat) : List Nat := (List.range n).map fun k => (top - 59 * k) % n

/-- The homes of `n` entries that arrive one after the other, `width` of them at each home. -/
def batches (width : Nat) (first : Fin n) : List Nat :=
  (List.range n).map fun turn => (Cyclic.next^[turn - turn % width] first).val

theorem perm_descent_of_coprime (hcoprime : Nat.Coprime n 59) (htop : 59 * (n - 1) ≤ top) :
    (descent top n).Perm (List.range n) := by
  refine perm_range_of_injOn (fun k hk => Nat.mod_lt _ (Nat.zero_lt_of_lt hk)) ?_
  intro j hj k hk hjk
  have hshift : top - 59 * j + (59 * j + 59 * k) ≡ top - 59 * k + (59 * j + 59 * k) [MOD n] :=
    Nat.ModEq.add_right _ hjk
  have hcancel : top + 59 * k ≡ top + 59 * j [MOD n] := by
    rwa [show top - 59 * j + (59 * j + 59 * k) = top + 59 * k by omega,
      show top - 59 * k + (59 * j + 59 * k) = top + 59 * j by omega] at hshift
  have hkj : k ≡ j [MOD n] :=
    Nat.ModEq.cancel_left_of_coprime hcoprime (Nat.ModEq.add_left_cancel' top hcancel)
  exact (hkj.eq_of_lt_of_lt hk hj).symm

theorem perm_batches_one (first : Fin n) : (batches 1 first).Perm (List.range n) := by
  refine perm_range_of_injOn (fun turn _ => Fin.isLt _) ?_
  intro j hj k hk hjk
  rw [Nat.mod_one, Nat.mod_one] at hjk
  rw [← Cyclic.distance_iterate_next (a := first) hj, ← Cyclic.distance_iterate_next (a := first) hk]
  exact congrArg _ (Fin.ext hjk)

/-- A descent of 59 laps passes each of its homes once a lap. This is the place in the descent that
comes at the given turn if it is rearranged home by home, with the last home of a lap first. -/
def regroup (homes turn : Nat) : Nat := (homes - 1 - turn / 59) + homes * (turn % 59)

theorem regroup_lt {homes turn : Nat} (h : turn < 59 * homes) : regroup homes turn < 59 * homes := by
  have hlap : homes * (turn % 59) ≤ homes * 58 := Nat.mul_le_mul_left homes (by omega)
  unfold regroup
  omega

theorem perm_regroup (homes : Nat) :
    ((List.range (59 * homes)).map (regroup homes)).Perm (List.range (59 * homes)) := by
  refine perm_range_of_injOn (fun _ => regroup_lt) ?_
  intro j hj k hk hjk
  have hpos : 0 < homes := by omega
  have hlap (turn : Nat) : regroup homes turn / homes = turn % 59 := by
    rw [regroup, Nat.add_mul_div_left _ _ hpos, Nat.div_eq_of_lt (by omega), Nat.zero_add]
  have hhome (turn : Nat) : regroup homes turn % homes = homes - 1 - turn / 59 := by
    rw [regroup, Nat.add_mul_mod_self_left, Nat.mod_eq_of_lt (by omega)]
  have hmod := hlap j
  have hdiv := hhome j
  rw [hjk, hlap] at hmod
  rw [hjk, hhome] at hdiv
  omega

theorem perm_descent_of_dvd {homes : Nat} (hpos : 0 < 59 * homes)
    (htop : 59 * (59 * homes - 1) ≤ top) :
    ∃ first : Fin (59 * homes), (descent top (59 * homes)).Perm (batches 59 first) := by
  obtain ⟨first, hfirst⟩ : ∃ first : Fin (59 * homes),
      first.val = (top - 59 * (homes - 1)) % (59 * homes) := ⟨⟨_, Nat.mod_lt _ hpos⟩, rfl⟩
  have hgrouped : ((List.range (59 * homes)).map (regroup homes)).map
      (fun k => (top - 59 * k) % (59 * homes)) = batches 59 first := by
    rw [List.map_map]
    apply List.map_congr_left
    intro turn hturn
    -- the places of one home differ by whole laps
    have hlaps : top - 59 * regroup homes turn + 59 * homes * (turn % 59) =
        top - 59 * (homes - 1) + (turn - turn % 59) := by
      have hlt := regroup_lt (List.mem_range.1 hturn)
      rw [List.mem_range] at hturn
      rw [Nat.mul_assoc]
      unfold regroup at hlt ⊢
      omega
    rw [Cyclic.val_iterate_next, hfirst, Nat.mod_add_mod, ← hlaps, Nat.add_mul_mod_self_left]
    rfl
  refine ⟨first, ?_⟩
  rw [← hgrouped]
  exact ((perm_regroup homes).map _).symm

/-! ## The distances -/

theorem arrivals_batches (width : Nat) (first : Fin n) :
    Arrivals (batches width first).reverse
      (Finset.univ.filter fun q => Cyclic.distance first q < n)
      (∑ turn ∈ Finset.range n, turn % width) := by
  have hsteps : ∑ turn ∈ Finset.range n, turn % width =
      ∑ turn ∈ Finset.range n, (turn - (turn - turn % width)) :=
    Finset.sum_congr rfl fun turn _ => (Nat.sub_sub_self (Nat.mod_le turn width)).symm
  rw [hsteps]
  exact Arrivals.inLine first (fun turn => Nat.sub_le turn _) (Nat.le_refl n)

theorem sum_mod (width laps : Nat) :
    ∑ turn ∈ Finset.range (width * laps), turn % width = laps * (width * (width - 1) / 2) := by
  induction laps with
  | zero => simp
  | succ laps ih =>
    have hlap : ∑ turn ∈ Finset.range width, (width * laps + turn) % width =
        width * (width - 1) / 2 := by
      rw [← Finset.sum_range_id]
      apply Finset.sum_congr rfl
      intro turn hturn
      rw [Nat.mul_add_mod, Nat.mod_eq_of_lt (Finset.mem_range.1 hturn)]
    rw [Nat.mul_succ, Finset.sum_range_add, ih, hlap, Nat.succ_mul]

namespace Slots

variable {s : Slots α n}

theorem Settled.totalDisplacement_of_batches (hs : s.Settled) {width : Nat} {first : Fin n}
    (h : s.homes.Perm (batches width first)) :
    s.totalDisplacement = ∑ turn ∈ Finset.range n, turn % width :=
  ((hs.arrivals.perm (h.trans (List.reverse_perm _).symm)).unique (arrivals_batches width first)).2

theorem Settled.totalDisplacement_of_descent (hs : s.Settled)
    (h : s.homes.Perm (descent top n)) (htop : 59 * (n - 1) ≤ top) :
    s.totalDisplacement = if 59 ∣ n then 29 * n else 0 := by
  rcases Nat.eq_zero_or_pos n with rfl | hn
  · exact ((hs.arrivals.perm h).unique .none).2
  · split
    · next hdvd =>
      obtain ⟨homes, rfl⟩ := hdvd
      obtain ⟨first, hbatches⟩ := perm_descent_of_dvd hn htop
      rw [hs.totalDisplacement_of_batches (h.trans hbatches), sum_mod]
      omega
    · next hdvd =>
      have hcoprime : Nat.Coprime n 59 :=
        ((Nat.Prime.coprime_iff_not_dvd (by norm_num)).2 hdvd).symm
      have hbatches := (perm_descent_of_coprime hcoprime htop).trans (perm_batches_one ⟨0, hn⟩).symm
      rw [hs.totalDisplacement_of_batches (h.trans hbatches)]
      simp [Nat.mod_one]

end Slots

/-! ## Consecutive hashes -/

/-- The items under consecutive hashes. -/
def consecutive (start : UInt64) (items : List α) : List (Cell α) :=
  items.mapIdx fun k item => { hash := start + UInt64.ofNat k, item }

theorem scale_consecutive {start : UInt64} {k : Nat}
    (h : 59 * (start.toNat + k) + 83 ≤ 2 ^ 64) (size : Nat) :
    scale (start + UInt64.ofNat k) size = (2 ^ 64 - 83 - 59 * start.toNat - 59 * k) % size := by
  have hhash : (start + UInt64.ofNat k).toNat = start.toNat + k := by
    rw [UInt64.toNat_add, UInt64.toNat_ofNat', Nat.add_mod_mod, Nat.mod_eq_of_lt (by omega)]
  have hmix := Compression.toNat_mix_add (hhash.symm ▸ h)
  rw [hhash] at hmix
  rw [scale]
  congr 1
  omega

theorem homes_consecutive {start : UInt64} {items : List α}
    (h : 59 * (start.toNat + items.length - 1) + 83 ≤ 2 ^ 64) :
    ((consecutive start items).map fun cell => scale cell.hash items.length) =
      descent (2 ^ 64 - 83 - 59 * start.toNat) items.length := by
  apply List.ext_getElem
  · simp [consecutive, descent]
  · intro k hk _
    have hlt : k < items.length := by simpa [consecutive] using hk
    simp only [consecutive, descent, List.getElem_map, List.getElem_mapIdx, List.getElem_range]
    exact scale_consecutive (by omega) items.length

namespace Table

/-- The table holds these entries, one in each slot, so many slots away from home together. -/
structure FilledBy (cells : List (Cell α)) (distance : Nat) (t : Table α) : Prop where
  isFull_eq : t.isFull = true
  capacity_eq : t.capacity = cells.length
  cells_perm : t.slots.cells.Perm cells
  isSome (i : Fin t.capacity) : (t.slots.get i).isSome
  totalDisplacement_eq : t.slots.totalDisplacement = distance
  /-- The same distance, from the bins of the histogram. -/
  weight_eq : (Histogram.ofSlots t.slots).weight = distance

/-- Items under consecutive hashes fill a bounded table that has as many slots. They are all at home
unless 59 divides their number; then they are 29 slots from home on average. -/
theorem addAll_consecutive (start : UInt64) (items : List α)
    (h : 59 * (start.toNat + items.length - 1) + 83 ≤ 2 ^ 64) :
    ∃ t, (ofBound α items.length).addAll (consecutive start items) = .ok t ∧
      t.FilledBy (consecutive start items) (if 59 ∣ items.length then 29 * items.length else 0) := by
  have hfresh : (ofBound α items.length).WellFormed := wellFormed_fresh _ _
  have hlength : (consecutive start items).length = items.length := List.length_mapIdx
  obtain ⟨t, haddAll, hadded⟩ := hfresh.exists_addAll rfl (Nat.le_of_eq hlength)
  have hcapacity : t.capacity = items.length := hadded.capacity_eq
  have hcells : t.slots.cells.Perm (consecutive start items) := by
    simpa [ofBound, fresh] using hadded.cells_perm
  have hcount : t.count = t.capacity := by
    rw [hadded.wellFormed.count_eq, hcells.length_eq, hlength, hcapacity]
  have hhomes : t.slots.homes.Perm (descent (2 ^ 64 - 83 - 59 * start.toNat) t.capacity) := by
    refine (hcells.map _).trans ?_
    rw [hcapacity, homes_consecutive h]
  have htotal : t.slots.totalDisplacement =
      if 59 ∣ items.length then 29 * items.length else 0 := by
    rw [← hcapacity]
    exact hadded.wellFormed.settled.totalDisplacement_of_descent hhomes (by omega)
  exact ⟨t, haddAll,
    { isFull_eq := beq_iff_eq.2 hcount
      capacity_eq := hcapacity.trans hlength.symm
      cells_perm := hcells
      isSome := hadded.wellFormed.count_eq_capacity_iff.1 hcount
      totalDisplacement_eq := htotal
      weight_eq := (Histogram.weight_ofSlots t.slots).trans htotal }⟩

/-- The first 59 hashes have the same home in a table of 59 slots. -/
theorem addAll_consecutive_59 :
    ∃ t, (ofBound Nat 59).addAll (consecutive 0 (List.range 59)) = .ok t ∧
      t.FilledBy (consecutive 0 (List.range 59)) 1711 :=
  addAll_consecutive 0 (List.range 59) (by decide)

end Table

end LinearProbing

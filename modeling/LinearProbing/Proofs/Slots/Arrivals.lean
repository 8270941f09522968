-- SUMMARY: Arrivals that settle in the first free position: the order in which they come does not matter.
import LinearProbing.Proofs.Slots.Layout
import Mathlib.Algebra.BigOperators.Group.Finset.Basic

/-! # Arrivals on the ring

Arrivals with given homes settle one after the other, each in the first free position from its home
on. Two arrivals in a row can change places: if both would take the same position, the later one
takes the next free position in either order. So the positions that are taken in the end, and the
steps that all arrivals have walked together, depend on the homes alone.

A settled slot array is the result of such arrivals, with the homes of its entries.
-/

namespace LinearProbing

universe u v

variable {n : Nat}

/-- Position `i` is the first one from `start` on that is not taken. -/
def FirstFree (taken : Finset (Fin n)) (start i : Fin n) : Prop :=
  i ∉ taken ∧ ∀ q, Cyclic.distance start q < Cyclic.distance start i → q ∈ taken

/-- Arrivals with these homes, the latest first, have taken these positions after walking so many
steps together. -/
inductive Arrivals : List Nat → Finset (Fin n) → Nat → Prop
  | none : Arrivals [] ∅ 0
  | settle {homes : List Nat} {taken : Finset (Fin n)} {steps : Nat} {start i : Fin n}
      (earlier : Arrivals homes taken steps) (free : FirstFree taken start i) :
      Arrivals (start.val :: homes) (insert i taken) (steps + Cyclic.distance start i)

theorem FirstFree.distance_le {taken : Finset (Fin n)} {start i j : Fin n}
    (hi : FirstFree taken start i) (hj : j ∉ taken) :
    Cyclic.distance start i ≤ Cyclic.distance start j := by
  apply Nat.le_of_not_lt
  intro hlt
  exact hj (hi.2 j hlt)

theorem FirstFree.unique {taken : Finset (Fin n)} {start i j : Fin n}
    (hi : FirstFree taken start i) (hj : FirstFree taken start j) : i = j := by
  apply Cyclic.distance_right_inj.1
  exact Nat.le_antisymm (hi.distance_le hj.1) (hj.distance_le hi.1)

/-- If two arrivals would take the same position, the one that comes later takes the next free one,
whichever it is. -/
theorem FirstFree.insert_same {taken : Finset (Fin n)} {a b x y : Fin n}
    (ha : FirstFree taken a x) (hb : FirstFree taken b x) (hy : FirstFree (insert x taken) b y) :
    FirstFree (insert x taken) a y ∧
      Cyclic.distance b x + Cyclic.distance a y = Cyclic.distance a x + Cyclic.distance b y := by
  have hyt : y ∉ taken := fun h => hy.1 (Finset.mem_insert_of_mem h)
  have haxy := Cyclic.distance_add (ha.distance_le hyt)
  have hbxy := Cyclic.distance_add (hb.distance_le hyt)
  refine ⟨⟨hy.1, ?_⟩, by omega⟩
  intro q hq
  rcases Nat.lt_or_ge (Cyclic.distance a q) (Cyclic.distance a x) with hlt | hge
  · exact Finset.mem_insert_of_mem (ha.2 q hlt)
  · -- behind `x` both walks pass the same positions
    have haxq := Cyclic.distance_add hge
    have hbq := Cyclic.distance_triangle b x q
    exact hy.2 q (by omega)

/-- If they would take different positions, neither is in the other's way. -/
theorem FirstFree.of_insert_ne {taken : Finset (Fin n)} {b x y : Fin n} (hx : x ∉ taken)
    (hne : ¬FirstFree taken b x) (hy : FirstFree (insert x taken) b y) : FirstFree taken b y := by
  refine ⟨fun h => hy.1 (Finset.mem_insert_of_mem h), ?_⟩
  intro q hq
  refine (Finset.mem_insert.1 (hy.2 q hq)).resolve_left ?_
  rintro rfl
  refine hne ⟨hx, ?_⟩
  intro p hp
  refine (Finset.mem_insert.1 (hy.2 p (Nat.lt_trans hp hq))).resolve_left ?_
  rintro rfl
  exact Nat.lt_irrefl _ hp

namespace Arrivals

theorem swap {homes : List Nat} {taken : Finset (Fin n)} {steps a b : Nat}
    (h : Arrivals (b :: a :: homes) taken steps) : Arrivals (a :: b :: homes) taken steps := by
  cases h with
  | @settle _ taken₁ steps₁ b y earlier hy =>
    cases earlier with
    | @settle _ taken₀ steps₀ a x earlier hx =>
      by_cases hb : FirstFree taken₀ b x
      · obtain ⟨hay, hsum⟩ := hx.insert_same hb hy
        have := (earlier.settle hb).settle hay
        rwa [Nat.add_assoc, hsum, ← Nat.add_assoc] at this
      · have hby := hy.of_insert_ne hx.1 hb
        have hxy : x ≠ y := by
          rintro rfl
          exact hy.1 (Finset.mem_insert_self _ _)
        have hax : FirstFree (insert y taken₀) a x := by
          refine ⟨?_, ?_⟩
          · intro h
            rcases Finset.mem_insert.1 h with h | h
            · exact hxy h
            · exact hx.1 h
          · intro q hq
            exact Finset.mem_insert_of_mem (hx.2 q hq)
        have := (earlier.settle hby).settle hax
        rwa [Finset.insert_comm, Nat.add_right_comm] at this

/-- The order of the arrivals does not matter. -/
theorem perm {homes homes' : List Nat} {taken : Finset (Fin n)} {steps : Nat}
    (hp : homes.Perm homes') (h : Arrivals homes taken steps) : Arrivals homes' taken steps := by
  induction hp generalizing taken steps with
  | nil => exact h
  | cons _ _ ih =>
    cases h with
    | settle earlier free => exact (ih earlier).settle free
  | swap => exact h.swap
  | trans _ _ ih₁ ih₂ => exact ih₂ (ih₁ h)

theorem unique {homes : List Nat} {taken taken' : Finset (Fin n)} {steps steps' : Nat}
    (h : Arrivals homes taken steps) (h' : Arrivals homes taken' steps') :
    taken = taken' ∧ steps = steps' := by
  induction h generalizing taken' steps' with
  | none =>
    cases h'
    exact ⟨rfl, rfl⟩
  | @settle homes taken steps start i earlier free ih =>
    generalize hstart : start.val :: homes = all at h'
    cases h' with
    | none => cases hstart
    | @settle _ _ _ start' i' earlier' free' =>
      obtain ⟨hval, rfl⟩ := List.cons.inj hstart
      obtain rfl := Fin.ext hval
      obtain ⟨rfl, rfl⟩ := ih earlier'
      obtain rfl := free.unique free'
      exact ⟨rfl, rfl⟩

/-- Arrivals take the positions from `first` on one after the other if no home is ahead of the
position whose turn it is. -/
theorem inLine (first : Fin n) {offset : Nat → Nat} (hoffset : ∀ turn, offset turn ≤ turn)
    {count : Nat} (hcount : count ≤ n) :
    Arrivals ((List.range count).map fun turn => (Cyclic.next^[offset turn] first).val).reverse
      (Finset.univ.filter fun q => Cyclic.distance first q < count)
      (∑ turn ∈ Finset.range count, (turn - offset turn)) := by
  induction count with
  | zero =>
    have hnone : (Finset.univ.filter fun q => Cyclic.distance first q < 0) = ∅ := by simp
    rw [hnone]
    exact .none
  | succ count ih =>
    have hhome := Cyclic.distance_iterate_next (a := first)
      (Nat.lt_of_le_of_lt (hoffset count) hcount)
    have hturn := Cyclic.distance_iterate_next (a := first) hcount
    have hsteps := Cyclic.distance_add (hhome.trans_le ((hoffset count).trans_eq hturn.symm))
    have hfree : FirstFree (Finset.univ.filter fun q => Cyclic.distance first q < count)
        (Cyclic.next^[offset count] first) (Cyclic.next^[count] first) := by
      refine ⟨by simp [hturn], ?_⟩
      intro q hq
      have hvia := Cyclic.distance_triangle first (Cyclic.next^[offset count] first) q
      exact Finset.mem_filter.2 ⟨Finset.mem_univ q, by omega⟩
    have htaken : insert (Cyclic.next^[count] first)
        (Finset.univ.filter fun q => Cyclic.distance first q < count) =
          Finset.univ.filter fun q => Cyclic.distance first q < count + 1 := by
      ext q
      have hq : q = Cyclic.next^[count] first ↔ Cyclic.distance first q = count := by
        rw [← Cyclic.distance_right_inj (a := first), hturn]
      rw [Finset.mem_insert, Finset.mem_filter, Finset.mem_filter, hq]
      simp only [Finset.mem_univ, true_and]
      omega
    have hlast : Cyclic.distance (Cyclic.next^[offset count] first) (Cyclic.next^[count] first) =
        count - offset count := by omega
    rw [List.range_succ, List.map_append, List.map_singleton, List.reverse_concat,
      Finset.sum_range_succ, ← htaken, ← hlast]
    exact (ih (Nat.le_of_succ_le hcount)).settle hfree

end Arrivals

/-! ## Settled layouts as arrivals -/

namespace Slots

variable {α : Type u}

/-- The homes of the entries, in slot order. -/
def homes (s : Slots α n) : List Nat := s.cells.map fun cell => scale cell.hash n

theorem FirstEmpty.firstFree {s : Slots α n} {start i : Fin n} (h : s.FirstEmpty start i) :
    FirstFree s.occupied start i := by
  refine ⟨by simp [h.1], ?_⟩
  intro q hq
  exact mem_occupied.2 (h.2 q hq)

theorem insert_occupied_put {s : Slots α n} {i : Fin n} (h : (s.get i).isSome) :
    insert i (s.put i none).occupied = s.occupied := by
  ext j
  rw [Finset.mem_insert, mem_occupied, mem_occupied, get_put]
  by_cases hij : i = j
  · subst hij
    simp [h]
  · simp [hij, Ne.symm hij]

theorem arrivals_of_occupied_eq_empty {s : Slots α n} (h : s.occupied = ∅) :
    Arrivals s.homes s.occupied s.totalDisplacement := by
  have hnone (i : Fin n) : s.get i = none := by
    have hi : i ∉ s.occupied := by simp [h]
    simpa using hi
  have hcells : s.cells = [] := by
    simpa [h] using (card_occupied s).symm
  have htotal : s.totalDisplacement = 0 := by
    have hdisp : s.displacement? = fun _ => none := by
      funext i
      exact displacement?_of_empty (hnone i)
    simp [totalDisplacement, displacements, hdisp]
  rw [homes, hcells, h, htotal]
  exact .none

/-- The entries of a settled array have arrived one after the other, in some order. -/
theorem Settled.arrivals {s : Slots α n} (hs : s.Settled) :
    Arrivals s.homes s.occupied s.totalDisplacement := by
  generalize hcard : s.occupied.card = count
  induction count generalizing s with
  | zero => exact arrivals_of_occupied_eq_empty (Finset.card_eq_zero.1 hcard)
  | succ count ih =>
    obtain ⟨i, cell, hi, hrest, hfirst⟩ := hs.exists_last (Finset.card_pos.1 (by omega))
    have hinsert : insert i (s.put i none).occupied = s.occupied :=
      insert_occupied_put (by simp [hi])
    have hcells := cells_perm_put_none hi
    have hsteps : (s.put i none).totalDisplacement +
        Cyclic.distance (home cell.hash i.pos) i = s.totalDisplacement := by
      simpa [displacement?_of_occupied hi] using totalDisplacement_put s i none
    have hrest' : (s.put i none).occupied.card = count := by
      have := Finset.card_insert_of_notMem hfirst.firstFree.1
      rw [hinsert] at this
      omega
    have harrive := (ih hrest hrest').settle hfirst.firstFree
    rw [hinsert, hsteps] at harrive
    exact harrive.perm (hcells.map _).symm

/-- Settled arrays whose entries have the same homes have the same slots occupied, and the same
total distance from home. -/
theorem Settled.eq_of_homes_perm {β : Type v} {s : Slots α n} {t : Slots β n} (hs : s.Settled)
    (ht : t.Settled) (h : s.homes.Perm t.homes) :
    s.occupied = t.occupied ∧ s.totalDisplacement = t.totalDisplacement :=
  (hs.arrivals.perm h).unique ht.arrivals

end Slots

end LinearProbing

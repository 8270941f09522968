-- SUMMARY: Layouts without gaps on the way of an entry, and those that insertions alone can produce.
import LinearProbing.Proofs.Ring
import LinearProbing.Proofs.Slots.Contents
import Mathlib.Data.Finset.Max

/-! # Layouts

A lookup finds an entry only if no slot on the way from the entry's home is empty. Such a layout is
called reachable. In a full array every layout is reachable, also one in which no entry is at
home; the layouts that insertions can produce are the settled ones, where the entries can be ranked
so that each comes after those on its way.

Both are cases of `Slots.Supported`, which relates the slots on the way of an entry to its own
slot, by nothing at all or by the rank.
-/

namespace LinearProbing.Slots

universe u v

variable {α : Type u} {n : Nat}

/-- Slot `q` is passed on the way from the home of `hash` to slot `p`. -/
def OnWay (hash : UInt64) (q p : Fin n) : Prop :=
  Cyclic.distance (home hash p.pos) q < Cyclic.distance (home hash p.pos) p

/-- No slot on the way of an entry is empty, and each is related to the slot of the entry. -/
def Supported (s : Slots α n) (R : Fin n → Fin n → Prop) : Prop :=
  ∀ ⦃p cell⦄, s.get p = some cell → ∀ ⦃q⦄, OnWay cell.hash q p → (s.get q).isSome ∧ R q p

/-- No slot on the way of an entry is empty. -/
def Reachable (s : Slots α n) : Prop := s.Supported fun _ _ => True

/-- The entries can be ranked so that each comes after those on its way. -/
def Settled (s : Slots α n) : Prop :=
  ∃ rank : Fin n → Nat, s.Supported fun q p => rank q < rank p

/-- Slot `i` is the first empty slot from `start` on. -/
def FirstEmpty (s : Slots α n) (start i : Fin n) : Prop :=
  s.get i = none ∧
    ∀ q, Cyclic.distance start q < Cyclic.distance start i → (s.get q).isSome

theorem OnWay.ne {hash : UInt64} {q p : Fin n} (h : OnWay hash q p) : q ≠ p := by
  rintro rfl
  exact Nat.lt_irrefl _ h

theorem Supported.mono {s : Slots α n} {R R' : Fin n → Fin n → Prop} (h : s.Supported R)
    (hR : ∀ q p, R q p → R' q p) : s.Supported R' := by
  intro p cell hp q hq
  obtain ⟨hsome, hqp⟩ := h hp hq
  exact ⟨hsome, hR q p hqp⟩

theorem Settled.reachable {s : Slots α n} (h : s.Settled) : s.Reachable := by
  obtain ⟨_, hrank⟩ := h
  apply hrank.mono
  intro q p _
  trivial

theorem settled_empty : (empty α n).Settled := by
  refine ⟨fun _ => 0, ?_⟩
  intro p cell hp
  simp at hp

/-- The layout is a matter of the hashes alone. -/
theorem Supported.congr {β : Type v} {s : Slots α n} {t : Slots β n}
    {R : Fin n → Fin n → Prop} (hs : s.Supported R) (h : s.hashAt? = t.hashAt?) :
    t.Supported R := by
  intro p cell hp q hq
  have hhash : s.hashAt? p = some cell.hash := by rw [h, hashAt?_of_get hp]
  obtain ⟨cell', hp', hcell⟩ := hashAt?_eq_some.1 hhash
  rw [← hcell] at hq
  rw [← isSome_hashAt?, ← h, isSome_hashAt?]
  exact hs hp' hq

theorem Settled.congr {β : Type v} {s : Slots α n} {t : Slots β n} (hs : s.Settled)
    (h : s.hashAt? = t.hashAt?) : t.Settled := by
  obtain ⟨rank, hrank⟩ := hs
  exact ⟨rank, hrank.congr h⟩

/-- Every position that a walk from the home of an entry to its slot visits is occupied. -/
theorem Reachable.isSome_iterate_next {s : Slots α n} (h : s.Reachable) {p : Fin n}
    {cell : Cell α} (hp : s.get p = some cell) {steps : Nat}
    (hsteps : steps ≤ Cyclic.distance (home cell.hash p.pos) p) :
    (s.get (Cyclic.next^[steps] (home cell.hash p.pos))).isSome := by
  have hdist : Cyclic.distance (home cell.hash p.pos)
      (Cyclic.next^[steps] (home cell.hash p.pos)) = steps :=
    Cyclic.distance_iterate_next (Nat.lt_of_le_of_lt hsteps (Cyclic.distance_lt _ _))
  rcases Nat.lt_or_eq_of_le hsteps with hlt | heq
  · exact (h hp (by rw [OnWay, hdist]; exact hlt)).1
  · rw [heq, Cyclic.iterate_next_distance, hp]
    rfl

/-! ## The first empty slot -/

theorem FirstEmpty.distance_le {s : Slots α n} {start i j : Fin n} (hi : s.FirstEmpty start i)
    (hj : s.get j = none) : Cyclic.distance start i ≤ Cyclic.distance start j := by
  apply Nat.le_of_not_lt
  intro hlt
  exact ne_of_isSome hj (hi.2 j hlt) rfl

theorem FirstEmpty.unique {s : Slots α n} {start i j : Fin n} (hi : s.FirstEmpty start i)
    (hj : s.FirstEmpty start j) : i = j := by
  apply Cyclic.distance_right_inj.1
  exact Nat.le_antisymm (hi.distance_le hj.1) (hj.distance_le hi.1)

/-- Filling the first empty slot from its home on keeps the support of the others, whose ways do not
pass an empty slot. -/
theorem Supported.put {s : Slots α n} {R R' : Fin n → Fin n → Prop} (hs : s.Supported R)
    {i : Fin n} {cell : Cell α} (hi : s.FirstEmpty (home cell.hash i.pos) i)
    (hold : ∀ q p, q ≠ i → p ≠ i → R q p → R' q p) (hnew : ∀ q, q ≠ i → R' q i) :
    (s.put i (some cell)).Supported R' := by
  intro p other hp q hq
  by_cases hip : i = p
  · subst hip
    rw [get_put_self] at hp
    cases hp
    rw [get_put_ne _ _ hq.ne.symm]
    exact ⟨hi.2 q hq, hnew q hq.ne⟩
  · rw [get_put_ne _ _ hip] at hp
    obtain ⟨hsome, hR⟩ := hs hp hq
    have hqi : i ≠ q := ne_of_isSome hi.1 hsome
    rw [get_put_ne _ _ hqi]
    exact ⟨hsome, hold q p hqi.symm (Ne.symm hip) hR⟩

theorem Settled.put {s : Slots α n} (hs : s.Settled) {i : Fin n} {cell : Cell α}
    (hi : s.FirstEmpty (home cell.hash i.pos) i) : (s.put i (some cell)).Settled := by
  obtain ⟨rank, hrank⟩ := hs
  -- the new entry comes after all others
  let last := Finset.univ.sup rank + 1
  refine ⟨fun p => if p = i then last else rank p, hrank.put hi ?_ ?_⟩
  · intro q p hq hp hlt
    simpa [hq, hp] using hlt
  · intro q hq
    have hlt : rank q < last := Nat.lt_succ_of_le (Finset.le_sup (Finset.mem_univ q))
    simpa [hq] using hlt

/-! ## The last arrival -/

/-- An entry on nobody's way can be taken out, and its slot is then the first empty one from its home
on. -/
theorem Supported.put_none {s : Slots α n} {R : Fin n → Fin n → Prop} (hs : s.Supported R)
    {i : Fin n} {cell : Cell α} (hi : s.get i = some cell)
    (hway : ∀ ⦃p other⦄, s.get p = some other → ¬OnWay other.hash i p) :
    (s.put i none).Supported R ∧ (s.put i none).FirstEmpty (home cell.hash i.pos) i := by
  refine ⟨?_, get_put_self .., ?_⟩
  · intro p other hp q hq
    have hip : i ≠ p := ne_of_isSome (get_put_self ..) (Option.isSome_of_eq_some hp)
    rw [get_put_ne _ _ hip] at hp
    have hqi : i ≠ q := by
      rintro rfl
      exact hway hp hq
    rw [get_put_ne _ _ hqi]
    exact hs hp hq
  · intro q hq
    have hq' : OnWay cell.hash q i := hq
    rw [get_put_ne _ _ hq'.ne.symm]
    exact (hs hi hq').1

/-- An entry of the highest rank is on nobody's way, and its slot is the first empty one once it is
taken out. -/
theorem Settled.exists_last {s : Slots α n} (hs : s.Settled) (hne : s.occupied.Nonempty) :
    ∃ i cell, s.get i = some cell ∧ (s.put i none).Settled ∧
      (s.put i none).FirstEmpty (home cell.hash i.pos) i := by
  obtain ⟨rank, hrank⟩ := hs
  obtain ⟨i, hi, hmax⟩ := s.occupied.exists_max_image rank hne
  obtain ⟨cell, hcell⟩ := Option.isSome_iff_exists.1 (mem_occupied.1 hi)
  have hway : ∀ ⦃p other⦄, s.get p = some other → ¬OnWay other.hash i p := by
    intro p other hp hway
    have hlt := (hrank hp hway).2
    have hle := hmax p (mem_occupied.2 (Option.isSome_of_eq_some hp))
    omega
  obtain ⟨hrest, hfirst⟩ := hrank.put_none hcell hway
  exact ⟨i, cell, hcell, ⟨rank, hrest⟩, hfirst⟩

end LinearProbing.Slots

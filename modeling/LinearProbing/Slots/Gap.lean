-- SUMMARY: Deletion by closing the gap behind the entry, and why the scan ends on every array.
import LinearProbing.Slots.Basic

/-! # Closing a gap

Taking an entry out of its slot leaves a hole. The slots behind the hole are scanned up to the next
empty one, and an entry that would no longer be found from its home is moved into the hole, which
leaves the hole where the entry was.

A move brings its entry closer to home, and between two moves the scan comes closer to the hole, so
the scan ends on every array.
-/

namespace LinearProbing

universe u

/-- A slot array with a hole and the position scanned next. -/
structure Gap (α : Type u) (n : Nat) where
  slots : Slots α n
  hole : Fin n
  scan : Fin n
  hole_empty : slots.get hole = none

namespace Slots

variable {α : Type u} {n : Nat}

/-! ## The sum of all displacements -/

/-- Changing a function at one member of a list without repetitions changes the sum by the
difference at that member. -/
private theorem total_map_update {β : Type} {l : List β} {f g : β → Nat} {a : β} (nodup : l.Nodup)
    (mem : a ∈ l) (same : ∀ b ∈ l, b ≠ a → g b = f b) :
    total (l.map g) + f a = total (l.map f) + g a := by
  induction l with
  | nil => simp at mem
  | cons b l ih =>
    obtain ⟨fresh, nodup⟩ := List.nodup_cons.1 nodup
    simp only [List.map_cons, total_cons]
    by_cases hb : b = a
    · subst hb
      have : l.map g = l.map f := List.map_congr_left fun c hc =>
        same c (List.mem_cons_of_mem _ hc) fun e => fresh (e ▸ hc)
      rw [this]; omega
    · have hl : a ∈ l := (List.mem_cons.1 mem).resolve_left (Ne.symm hb)
      have := ih nodup hl fun c hc => same c (List.mem_cons_of_mem _ hc)
      have := same b List.mem_cons_self hb
      omega

private theorem total_filterMap {β : Type} (f : β → Option Nat) (l : List β) :
    total (l.filterMap f) = total (l.map fun b => (f b).getD 0) := by
  induction l with
  | nil => rfl
  | cons b l ih => cases h : f b <;> simp [h, ih]

theorem displacement?_of_empty {s : Slots α n} {i : Fin n} (h : s.get i = none) :
    s.displacement? i = none := by
  unfold displacement?; rw [h]; rfl

theorem displacement?_of_occupied {s : Slots α n} {i : Fin n} {cell : Cell α}
    (h : s.get i = some cell) :
    s.displacement? i = some (Cyclic.distance (home cell.hash i.pos) i) := by
  unfold displacement?; rw [h]; rfl

theorem displacement?_put (s : Slots α n) (i : Fin n) (slot : Option (Cell α)) (j : Fin n) :
    (s.put i slot).displacement? j =
      if i = j then slot.map fun cell => Cyclic.distance (home cell.hash i.pos) i
      else s.displacement? j := by
  by_cases h : i = j
  · subst h; simp [displacement?]
  · simp [displacement?, h, get_put_ne]

/-- Writing a slot changes the sum of all displacements by the difference at that slot. -/
theorem totalDisplacement_put (s : Slots α n) (i : Fin n) (slot : Option (Cell α)) :
    (s.put i slot).totalDisplacement + (s.displacement? i).getD 0 =
      s.totalDisplacement +
        (slot.map fun cell => Cyclic.distance (home cell.hash i.pos) i).getD 0 := by
  simp only [totalDisplacement, displacements, total_filterMap]
  have := total_map_update (f := fun j => (s.displacement? j).getD 0)
    (g := fun j => ((s.put i slot).displacement? j).getD 0) (a := i)
    (List.nodup_finRange n) (List.mem_finRange i)
    (fun j _ hj => by simp [displacement?_put, Ne.symm hj])
  simpa [displacement?_put] using this

end Slots

namespace Gap

variable {α : Type u} {n : Nat}

/-- Empties a slot; the scan starts behind it. -/
def ofTaken (s : Slots α n) (i : Fin n) : Gap α n :=
  { slots := s.put i none
    hole := i
    scan := Cyclic.next i
    hole_empty := by simp }

/-- Whether an entry with this hash, found by the scan, passes the hole on the way from its
home. -/
def Passes (g : Gap α n) (hash : UInt64) : Prop :=
  Cyclic.distance (home hash g.scan.pos) g.hole < Cyclic.distance (home hash g.scan.pos) g.scan

instance (g : Gap α n) (hash : UInt64) : Decidable (g.Passes hash) :=
  inferInstanceAs (Decidable (_ < _))

theorem scan_ne_hole {g : Gap α n} {cell : Cell α} (h : g.slots.get g.scan = some cell) :
    g.scan ≠ g.hole := by
  intro e
  have same : g.slots.get g.scan = g.slots.get g.hole := congrArg g.slots.get e
  rw [h, g.hole_empty] at same
  cases same

/-- Moves the scanned entry into the hole. -/
def move (g : Gap α n) (cell : Cell α) (h : g.slots.get g.scan = some cell) : Gap α n :=
  { slots := (g.slots.put g.scan none).put g.hole (some cell)
    hole := g.scan
    scan := Cyclic.next g.scan
    hole_empty := by
      rw [Slots.get_put_ne _ _ (Ne.symm (scan_ne_hole h)), Slots.get_put_self] }

/-- Leaves the scanned entry where it is. -/
def skip (g : Gap α n) : Gap α n := { g with scan := Cyclic.next g.scan }

/-- One step of the scan: the finished array at an empty slot, otherwise the gap behind the scanned
entry. -/
def step (g : Gap α n) : Slots α n ⊕ Gap α n :=
  match h : g.slots.get g.scan with
  | none => .inl g.slots
  | some cell => .inr (if g.Passes cell.hash then g.move cell h else g.skip)

/-! ## The scan ends -/

/-- The steps from home of all entries, and then the steps from the scan to the hole. -/
def weight (g : Gap α n) : Nat := g.slots.totalDisplacement * n + Cyclic.distance g.scan g.hole

private theorem lt_of_moved {before between after far near : Nat}
    (taken : between + far = before + 0) (filled : after + 0 = between + near)
    (closer : near < far) : after < before := by
  omega

/-- A move brings the sum of all displacements down. -/
theorem totalDisplacement_move {g : Gap α n} {cell : Cell α}
    (h : g.slots.get g.scan = some cell) (passes : g.Passes cell.hash) :
    (g.move cell h).slots.totalDisplacement < g.slots.totalDisplacement := by
  have taken := g.slots.totalDisplacement_put g.scan none
  have filled :=
    (g.slots.put g.scan none).totalDisplacement_put g.hole (some cell)
  rw [Slots.displacement?_put, if_neg (scan_ne_hole h)] at filled
  rw [Slots.displacement?_of_occupied h] at taken
  rw [Slots.displacement?_of_empty g.hole_empty] at filled
  exact lt_of_moved taken filled passes

theorem weight_move {g : Gap α n} {cell : Cell α} (h : g.slots.get g.scan = some cell)
    (passes : g.Passes cell.hash) : (g.move cell h).weight < g.weight := by
  have bound := Cyclic.distance_lt (g.move cell h).scan (g.move cell h).hole
  calc (g.move cell h).weight
      < ((g.move cell h).slots.totalDisplacement + 1) * n := by
        rw [weight, Nat.add_mul, Nat.one_mul]; exact Nat.add_lt_add_left bound _
    _ ≤ g.slots.totalDisplacement * n :=
        Nat.mul_le_mul_right n (totalDisplacement_move h passes)
    _ ≤ g.weight := Nat.le_add_right ..

theorem weight_skip {g : Gap α n} {cell : Cell α} (h : g.slots.get g.scan = some cell) :
    g.skip.weight < g.weight := by
  have := Cyclic.distance_next (scan_ne_hole h)
  simp only [weight, skip]
  omega

theorem weight_step {g g' : Gap α n} (h : g.step = .inr g') : g'.weight < g.weight := by
  unfold step at h
  split at h
  · cases h
  · rename_i cell hc
    cases h
    split
    · exact weight_move hc ‹_›
    · exact weight_skip hc

/-- Runs the scan to its end. -/
def close (g : Gap α n) : Slots α n :=
  match _ : g.step with
  | .inl slots => slots
  | .inr next => next.close
termination_by g.weight
decreasing_by exact weight_step ‹_›

end Gap

namespace Slots

variable {α : Type u} {n : Nat}

/-- Takes the entry out of a slot and closes the gap it leaves; none if the slot is empty. -/
def vacate? (s : Slots α n) (i : Fin n) : Option (Cell α × Slots α n) :=
  (s.get i).map fun cell => (cell, (Gap.ofTaken s i).close)

end Slots

end LinearProbing

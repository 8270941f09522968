-- SUMMARY: Taking out an item right after it was stored restores the table, slot by slot.
import LinearProbing.Proofs.Table.Lookup

/-! # Undoing an insertion

An insertion fills a slot that was empty, and no way to an entry passed it. When the slot is vacated
again, none of the entries behind it has the hole on its way, however far the run of occupied slots
goes on, so none is moved: the array is the one before the insertion. What is left to show is that
the lookup selects the slot of the new item.
-/

namespace LinearProbing

universe u

variable {α : Type u}

/-- Vacating a slot that was empty in a reachable layout moves nothing. -/
theorem Gap.close_ofTaken_put {n : Nat} {s : Slots α n} (hs : s.Reachable) {i : Fin n}
    (hi : s.get i = none) (cell : Cell α) : (ofTaken (s.put i (some cell)) i).close = s := by
  have hstart : (ofTaken (s.put i (some cell)) i).slots = s := by
    simpa [ofTaken] using Slots.put_of_get hi
  have hstays (g : Gap α n) (other : Cell α) (hscan : g.slots.get g.scan = some other)
      (hg : g.slots = s) : ¬g.Passes other.hash := by
    subst hg
    intro hpasses
    exact Slots.ne_of_isSome g.hole_empty (hs hscan hpasses).1 rfl
  obtain ⟨last, hlast, -, hclose⟩ := close_induction (P := fun g => g.slots = s)
    (fun g other hscan hg hpasses => absurd hpasses (hstays g other hscan hg))
    (fun _ _ _ hg _ => hg)
    (ofTaken (s.put i (some cell)) i) hstart
  exact hclose.trans hlast

namespace Table

variable {t t' : Table α} {hash : UInt64} {accepts select : α → Bool} {x : α}

/-- Making room by growth changes the number of slots. -/
theorem MakesRoom.eq_of_capacity (h : MakesRoom t hash accepts t') (ht : t.WellFormed)
    (hcapacity : t'.capacity = t.capacity) : t' = t := by
  cases h with
  | stays => rfl
  | @grows policy _ _ _ henlarge =>
    have hmore := policy.lt_grownCapacity t.capacity
    have hgrown := (ht.grow_eq_ok henlarge).2
    omega

/-- The table in which slot `i` holds, besides what was there, the item `x` under `hash`. -/
def withItem (t : Table α) (i : Fin t.capacity) (hash : UInt64) (x : α) : Table α :=
  { t with slots := t.slots.put i (some { hash, item := x }), count := t.count + 1 }

/-- The predicate selects `x` among the items under `hash`, of which the others are in `t`. -/
def Selects (t : Table α) (hash : UInt64) (select : α → Bool) (x : α) : Prop :=
  select x ∧ ∀ cell ∈ t.slots.cells, cell.hash = hash → select cell.item = false

/-- Taking out what is selected in `t'` yields `x` and leaves `t`, through a removal and through
every entry that a lookup hands out without growing the table. -/
structure Restores (t' : Table α) (hash : UInt64) (select : α → Bool) (x : α) (t : Table α) :
    Prop where
  remove : t'.remove? hash select = some (x, t)
  tryEntry : ∃ o, t'.locate hash select = .ok (.occupied o) ∧ o.remove = (x, t)
  entry : ∀ e, t'.entry hash select = .ok e → e.table.capacity = t'.capacity →
    ∃ o, e = .occupied o ∧ o.remove = (x, t)
  /-- A table below its load threshold hands out such an entry. -/
  granted : (∀ policy, t'.sizing = .growing policy →
      policy.needsGrowth t'.count t'.capacity = false) →
    ∃ e, t'.entry hash select = .ok e ∧ e.table.capacity = t'.capacity

section WithItem

variable {i : Fin t.capacity}

theorem get_withItem_self (t : Table α) (i : Fin t.capacity) (hash : UInt64) (x : α) :
    (t.withItem i hash x).slots.get i = some { hash, item := x } :=
  Slots.get_put_self ..

/-- Without the slot that was filled, the table is as it was. -/
theorem WellFormed.without_withItem (h : t.WellFormed) (hi : t.slots.get i = none) :
    (t.withItem i hash x).without i = t := by
  have hclose := Gap.close_ofTaken_put h.reachable hi { hash, item := x }
  exact congrArg (fun slots => { t with slots }) hclose

/-- A match for the predicate is the item that was added. -/
theorem Selects.eq_of_matches (hsel : t.Selects hash select x) {j : Fin t.capacity}
    {cell : Cell α} (hj : (t.withItem i hash x).slots.get j = some cell)
    (hm : Slots.Matches hash select cell) : i = j ∧ cell = { hash, item := x } := by
  by_cases hij : i = j
  · subst hij
    rw [get_withItem_self] at hj
    cases hj
    exact ⟨rfl, rfl⟩
  · have hold : t.slots.get j = some cell := (Slots.get_put_ne _ _ hij).symm.trans hj
    have hreject := hsel.2 cell (Slots.mem_cells.2 ⟨j, hold⟩) hm.1
    rw [hm.2] at hreject
    cases hreject

theorem Selects.restored_of_locates (hsel : t.Selects hash select x) (h : t.WellFormed)
    (hi : t.slots.get i = none) {e : Entry α}
    (hlocates : Locates (t.withItem i hash x) hash select e) :
    ∃ o, e = .occupied o ∧ o.remove = (x, t) := by
  cases hlocates with
  | vacant htable hhash hfirst habsent =>
    exact absurd ⟨rfl, hsel.1⟩ (habsent (get_withItem_self t i hash x))
  | @occupied o htable hfound =>
    refine ⟨o, rfl, ?_⟩
    obtain ⟨table, j, cell, holds⟩ := o
    subst htable
    obtain ⟨rfl, rfl⟩ := hsel.eq_of_matches holds hfound
    exact congrArg (Prod.mk x) (h.without_withItem hi)

theorem WellFormed.restores_withItem (h : t.WellFormed) (hi : t.slots.get i = none)
    (h' : (t.withItem i hash x).WellFormed) (hsel : t.Selects hash select x) :
    (t.withItem i hash x).Restores hash select x t := by
  have hmem : i ∈ (t.withItem i hash x).matching hash select :=
    mem_matching.2 ⟨_, get_withItem_self t i hash x, rfl, hsel.1⟩
  obtain ⟨j, cell, hprobe⟩ := h'.exists_probe_of_mem hmem
  have hhits := h'.hits hprobe
  have hfound := Slots.probe_found hprobe
  obtain ⟨rfl, rfl⟩ := hsel.eq_of_matches hfound.1 hfound.2
  refine
    { remove := ?_
      tryEntry := ?_
      entry := ?_
      granted := ?_ }
  · rw [hhits.remove, h.without_withItem hi]
  · obtain ⟨o, ho, hremove⟩ :=
      hsel.restored_of_locates h hi (h'.locate_eq_ok hhits.tryEntry)
    exact ⟨o, ho ▸ hhits.tryEntry, hremove⟩
  · intro e hentry hcapacity
    obtain ⟨t', hroom, -, hlocates⟩ := h'.entry_eq_ok hentry
    rw [hlocates.table_eq] at hcapacity
    rw [hroom.eq_of_capacity h' hcapacity] at hlocates
    exact hsel.restored_of_locates h hi hlocates
  · intro hstays
    exact ⟨_, hhits.entry hstays, rfl⟩

end WithItem

/-- If an entry is vacant and the table has not grown for it, then storing an item there is undone
by taking the item out again. -/
theorem Reachable.insert_undone (h : t.Reachable) {v : VacantEntry α}
    (hentry : t.entry hash accepts = .ok (.vacant v)) (hcapacity : v.table.capacity = t.capacity)
    (hsel : t.Selects hash select x) :
    (v.insert x).table.Restores hash select x t := by
  have hwf := h.wellFormed
  obtain ⟨t', hroom, -, hlocates⟩ := hwf.entry_eq_ok hentry
  have htable : v.table = t' := hlocates.table_eq
  obtain rfl := hroom.eq_of_capacity hwf (htable ▸ hcapacity)
  have hnew := VacantEntry.WellFormed.insert (hlocates.wellFormed hwf) x
  cases hlocates with
  | vacant _ hhash =>
    obtain ⟨table, i, hash', hempty⟩ := v
    subst htable
    subst hhash
    exact hwf.restores_withItem hempty hnew hsel

/-- A bounded table with one entry in the second of its two slots. -/
def half : Table Nat :=
  Op.after (.ofBound Nat 2) (.entry 0 (fun _ => false) (.branch (some 0) id false))

theorem reachable_half : half.Reachable := .step (.start (.ofBound 2)) _

/-- The second item takes the last empty slot, which is past the end of the array from its home. -/
theorem insert_undone_half : ∃ v,
    half.entry 0 (fun item => item == 1) = .ok (.vacant v) ∧ (v.insert 1).table.count = 2 ∧
      (v.insert 1).table.Restores 0 (fun item => item == 1) 1 half := by
  have hvacant : ∃ v, half.entry 0 (fun item => item == 1) = .ok (.vacant v) ∧
      v.table.capacity = half.capacity ∧ (v.insert 1).table.count = 2 := ⟨_, rfl, rfl, rfl⟩
  obtain ⟨v, hentry, hcapacity, hcount⟩ := hvacant
  have hsel : half.Selects 0 (fun item => item == 1) 1 := ⟨rfl, by decide +kernel⟩
  exact ⟨v, hentry, hcount, reachable_half.insert_undone hentry hcapacity hsel⟩

end Table

end LinearProbing

-- SUMMARY: The invariant of tables, and the lookups, removals and visits that preserve it.
import LinearProbing.Proofs.Slots.Closing
import LinearProbing.Proofs.Slots.Search
import LinearProbing.Proofs.Traversal
import LinearProbing.Table.Basic

/-! # Well-formed tables

A table is well-formed if it counts its entries and their layout is settled. This module says what
each operation on the slots that a table has does to them; that it preserves well-formedness then
follows from the facts about slot arrays.
-/

namespace LinearProbing.Table

universe u

variable {α : Type u} {t t' : Table α} {hash : UInt64} {accepts : α → Bool}

structure WellFormed (t : Table α) : Prop where
  count_eq : t.count = t.slots.cells.length
  settled : t.slots.Settled

theorem WellFormed.count_eq_card (h : t.WellFormed) : t.count = t.slots.occupied.card := by
  rw [h.count_eq, Slots.card_occupied]

theorem WellFormed.count_le (h : t.WellFormed) : t.count ≤ t.capacity := by
  rw [h.count_eq]
  exact t.slots.length_cells_le

theorem WellFormed.reachable (h : t.WellFormed) : t.slots.Reachable := h.settled.reachable

/-- As many entries as slots: no slot is empty. -/
theorem WellFormed.count_eq_capacity_iff (h : t.WellFormed) :
    t.count = t.capacity ↔ ∀ i, (t.slots.get i).isSome := by
  rw [h.count_eq]
  exact Slots.length_cells_eq_iff

theorem WellFormed.count_pos (h : t.WellFormed) {i : Fin t.capacity} {cell : Cell α}
    (hi : t.slots.get i = some cell) : 0 < t.count := by
  rw [h.count_eq]
  exact List.length_pos_of_mem (Slots.mem_cells.2 ⟨i, hi⟩)

theorem wellFormed_fresh (sizing : Sizing) (capacity : Nat) :
    (fresh α sizing capacity).WellFormed where
  count_eq := by simp [fresh]
  settled := Slots.settled_empty

theorem wellFormed_clear (t : Table α) : t.clear.WellFormed where
  count_eq := by simp [clear]
  settled := Slots.settled_empty

/-- Other items under the same hashes. -/
theorem WellFormed.withSlots (h : t.WellFormed) {slots : Slots α t.capacity}
    (hhash : slots.hashAt? = t.slots.hashAt?) : WellFormed { t with slots } where
  count_eq := h.count_eq.trans (Slots.length_cells_congr hhash).symm
  settled := h.settled.congr hhash.symm

/-! ## Lookups -/

theorem probe_of_seek? {i : Fin t.capacity} {cell : Cell α}
    (h : t.seek? hash accepts = some (i, cell)) : t.slots.probe hash accepts = .found i cell := by
  unfold seek? at h
  split at h
  · cases h
  · cases hprobe : t.slots.probe hash accepts <;> rw [hprobe] at h <;> cases h
    rfl

theorem seek?_eq_some {i : Fin t.capacity} {cell : Cell α}
    (h : t.seek? hash accepts = some (i, cell)) :
    t.slots.get i = some cell ∧ Slots.Matches hash accepts cell :=
  Slots.probe_found (probe_of_seek? h)

theorem count_eq_zero_of_skipsSearch (h : t.skipsSearch = true) : t.count = 0 := by
  unfold skipsSearch at h
  split at h
  · exact beq_iff_eq.1 h
  · cases h

/-- A search that is skipped would not have found anything. -/
theorem WellFormed.seek?_eq_found? (h : t.WellFormed) (hash : UInt64) (accepts : α → Bool) :
    t.seek? hash accepts = (t.slots.probe hash accepts).found? := by
  unfold seek?
  split
  · next hskips =>
    cases hprobe : t.slots.probe hash accepts with
    | found i cell =>
      have hpos := h.count_pos (Slots.probe_found hprobe).1
      rw [count_eq_zero_of_skipsSearch hskips] at hpos
      cases hpos
    | vacant i => rfl
    | full => rfl
  · rfl

theorem find?_isSome (t : Table α) (hash : UInt64) (accepts : α → Bool) :
    (t.find? hash accepts).isSome = (t.seek? hash accepts).isSome :=
  Option.isSome_map

/-- An item is found if it can be changed. -/
theorem modify?_isSome (t : Table α) (hash : UInt64) (accepts : α → Bool) (update : α → α) :
    (t.modify? hash accepts update).isSome = (t.find? hash accepts).isSome := by
  rw [find?_isSome, modify?]
  cases hseek : t.seek? hash accepts with
  | none => rfl
  | some result =>
    have hcell := (seek?_eq_some hseek).1
    simp [Slots.updateAt?, hcell]

theorem modify?_eq_some {update : α → α} {item : α}
    (h : t.modify? hash accepts update = some (item, t')) :
    ∃ i cell, t.seek? hash accepts = some (i, cell) ∧ item = update cell.item ∧
      t' = { t with slots := t.slots.put i (some { cell with item }) } := by
  simp only [modify?, Option.bind_eq_bind, Option.bind_eq_some_iff] at h
  obtain ⟨⟨i, cell⟩, hseek, ⟨item', slots⟩, hupdate, hresult⟩ := h
  cases hresult
  obtain ⟨cell', hcell', rfl, rfl⟩ := Slots.updateAt?_eq_some hupdate
  rw [(seek?_eq_some hseek).1] at hcell'
  cases hcell'
  exact ⟨i, cell, hseek, rfl, rfl⟩

theorem WellFormed.modify? (h : t.WellFormed) {update : α → α} {item : α}
    (hmodify : t.modify? hash accepts update = some (item, t')) : t'.WellFormed := by
  obtain ⟨i, cell, hseek, -, rfl⟩ := modify?_eq_some hmodify
  exact h.withSlots (Slots.hashAt?_put_item (seek?_eq_some hseek).1 item)

/-! ## Removals -/

/-- The table without the entry of slot `i`. -/
def without (t : Table α) (i : Fin t.capacity) : Table α :=
  { t with slots := (Gap.ofTaken t.slots i).close, count := t.count - 1 }

theorem cells_without {i : Fin t.capacity} {cell : Cell α} (hi : t.slots.get i = some cell) :
    (cell :: (t.without i).slots.cells).Perm t.slots.cells :=
  Gap.cons_cells_close_perm hi

theorem WellFormed.without (h : t.WellFormed) {i : Fin t.capacity} {cell : Cell α}
    (hi : t.slots.get i = some cell) : (t.without i).WellFormed where
  count_eq := by
    have hlength := (cells_without hi).length_eq
    rw [List.length_cons, ← h.count_eq] at hlength
    exact Nat.sub_eq_of_eq_add hlength.symm
  settled := Gap.settled_close h.settled i

theorem takeAt?_of_get {i : Fin t.capacity} {cell : Cell α} (hi : t.slots.get i = some cell) :
    t.takeAt? i = some (cell.item, t.without i) := by
  rw [takeAt?, Slots.vacate?, hi]
  rfl

/-- An item is found if it can be taken out. -/
theorem remove?_isSome (t : Table α) (hash : UInt64) (accepts : α → Bool) :
    (t.remove? hash accepts).isSome = (t.find? hash accepts).isSome := by
  rw [find?_isSome, remove?]
  cases hseek : t.seek? hash accepts with
  | none => rfl
  | some result =>
    have hcell := (seek?_eq_some hseek).1
    simp [takeAt?_of_get hcell]

theorem remove?_eq_some {item : α} (h : t.remove? hash accepts = some (item, t')) :
    ∃ i cell, t.seek? hash accepts = some (i, cell) ∧ item = cell.item ∧ t' = t.without i := by
  simp only [remove?, Option.bind_eq_bind, Option.bind_eq_some_iff] at h
  obtain ⟨⟨i, cell⟩, hseek, htake⟩ := h
  rw [takeAt?_of_get (seek?_eq_some hseek).1] at htake
  cases htake
  exact ⟨i, cell, hseek, rfl, rfl⟩

theorem WellFormed.remove? (h : t.WellFormed) {item : α}
    (hremove : t.remove? hash accepts = some (item, t')) : t'.WellFormed := by
  obtain ⟨i, cell, hseek, -, rfl⟩ := remove?_eq_some hremove
  exact h.without (seek?_eq_some hseek).1

/-! ## Visits -/

theorem pending_traversal (t : Table α) :
    t.traversal.pending = (List.finRange t.capacity).filter fun i => (t.slots.get i).isSome := by
  apply List.filter_congr
  intro i _
  simp [traversal]

theorem pendingCells_traversal (t : Table α) : t.traversal.pendingCells = t.slots.cells := by
  rw [Traversal.pendingCells, pending_traversal, Slots.cells_eq_filterMap, List.filterMap_filter]
  apply List.filterMap_congr
  intro i _
  cases h : t.slots.get i <;> simp [traversal, h]

theorem exact_traversal_of_count (h : t.count = t.slots.cells.length) : t.traversal.Exact := by
  rw [Traversal.Exact, pending_traversal, ← List.countP_eq_length_filter,
    ← List.length_filterMap_eq_countP, ← Slots.cells_eq_filterMap]
  exact h

theorem WellFormed.exact_traversal (h : t.WellFormed) : t.traversal.Exact :=
  exact_traversal_of_count h.count_eq

theorem WellFormed.visited (h : t.WellFormed) {traversal : Traversal α t.capacity}
    (hhash : traversal.slots.hashAt? = t.slots.hashAt?) : (t.visited traversal).WellFormed :=
  h.withSlots hhash

/-- A visit of all entries yields their new items in slot order. -/
theorem WellFormed.restWith_traversal (h : t.WellFormed) (update : α → α) :
    (t.traversal.restWith update).1 = t.slots.cells.map (fun cell => update cell.item) ∧
      (t.traversal.restWith update).2.slots.cells.Perm
        (t.slots.cells.map (Traversal.onItem update)) := by
  have hcells : t.traversal.slots.cells.Perm ([] ++ t.traversal.pendingCells) := by
    rw [pendingCells_traversal]
    exact List.Perm.refl _
  have hspec := Traversal.restWith_spec h.exact_traversal update hcells
  rwa [pendingCells_traversal] at hspec

theorem WellFormed.toList_eq (h : t.WellFormed) : t.toList = t.slots.cells.map (·.item) :=
  (h.restWith_traversal id).1

theorem WellFormed.cells_mapItems (h : t.WellFormed) (update : α → α) :
    (t.mapItems update).slots.cells.Perm (t.slots.cells.map (Traversal.onItem update)) :=
  (h.restWith_traversal update).2

theorem WellFormed.mapItems (h : t.WellFormed) (update : α → α) :
    (t.mapItems update).WellFormed :=
  h.visited (Traversal.hashAt?_restWith t.traversal update)

end LinearProbing.Table

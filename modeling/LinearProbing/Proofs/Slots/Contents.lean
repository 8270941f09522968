-- SUMMARY: The contents of a slot array as a list, the set of its occupied positions, and its hashes.
import LinearProbing.Slots.Gap
import Mathlib.Data.Fintype.Card
import Mathlib.Data.List.FinRange

/-! # The contents of a slot array

Three views of a slot array: the list of its cells, the set of its occupied positions, and the hash
in each slot. Each lemma says how a view changes when one slot is written.
-/

namespace LinearProbing.Slots

universe u v

variable {α : Type u} {n : Nat}

theorem get_put (s : Slots α n) (i j : Fin n) (slot : Option (Cell α)) :
    (s.put i slot).get j = if i = j then slot else s.get j := by
  by_cases h : i = j
  · subst h
    simp
  · rw [get_put_ne _ _ h, if_neg h]

/-- The second of two writes to a slot wins. -/
@[simp] theorem put_put (s : Slots α n) (i : Fin n) (slot slot' : Option (Cell α)) :
    (s.put i slot).put i slot' = s.put i slot' :=
  Vector.set_set ..

/-- Writing what a slot holds changes nothing. -/
theorem put_of_get {s : Slots α n} {i : Fin n} {slot : Option (Cell α)} (h : s.get i = slot) :
    s.put i slot = s := by
  subst h
  exact Vector.set_getElem_self ..

theorem ext_get {s t : Slots α n} (h : ∀ i, s.get i = t.get i) : s = t := by
  apply Vector.ext
  intro i hi
  exact h ⟨i, hi⟩

/-- An empty slot is not an occupied one. -/
theorem ne_of_isSome {s : Slots α n} {i j : Fin n} (hi : s.get i = none)
    (hj : (s.get j).isSome) : i ≠ j := by
  rintro rfl
  simp [hi] at hj

/-! ## Cells -/

theorem cells_eq_filterMap (s : Slots α n) : s.cells = (List.finRange n).filterMap s.get := by
  have h : s.toList = (List.finRange n).map s.get := by
    apply List.ext_getElem
    · simp
    · intro i _ _
      simp [get_eq_getElem]
  rw [cells, h, List.filterMap_map]
  rfl

theorem mem_cells {s : Slots α n} {cell : Cell α} :
    cell ∈ s.cells ↔ ∃ i, s.get i = some cell := by
  simp [cells_eq_filterMap]

@[simp] theorem cells_empty : (empty α n).cells = [] := by
  simp [List.eq_nil_iff_forall_not_mem, mem_cells]

theorem eq_empty_of_cells_eq_nil {s : Slots α n} (h : s.cells = []) : s = empty α n := by
  apply ext_get
  intro i
  rw [get_empty, Option.eq_none_iff_forall_ne_some]
  intro cell hcell
  have hmem : cell ∈ s.cells := mem_cells.2 ⟨i, hcell⟩
  rw [h] at hmem
  cases hmem

/-- The contents of the occupied slots other than `i`. -/
def others (s : Slots α n) (i : Fin n) : List (Cell α) :=
  ((List.finRange n).erase i).filterMap s.get

theorem mem_others {s : Slots α n} {i : Fin n} {cell : Cell α} :
    cell ∈ s.others i ↔ ∃ j, j ≠ i ∧ s.get j = some cell := by
  simp [others, (List.nodup_finRange n).mem_erase_iff]

theorem cells_perm_others (s : Slots α n) (i : Fin n) :
    s.cells.Perm ((s.get i).toList ++ s.others i) := by
  have h := (List.perm_cons_erase (List.mem_finRange i)).filterMap s.get
  rw [cells_eq_filterMap, others]
  refine h.trans ?_
  cases hi : s.get i <;> simp [hi]

@[simp] theorem others_put (s : Slots α n) (i : Fin n) (slot : Option (Cell α)) :
    (s.put i slot).others i = s.others i := by
  apply List.filterMap_congr
  intro j hj
  have hij : i ≠ j := by
    rintro rfl
    exact (List.nodup_finRange n).not_mem_erase hj
  exact get_put_ne _ _ hij

theorem cells_put_perm (s : Slots α n) (i : Fin n) (slot : Option (Cell α)) :
    (s.put i slot).cells.Perm (slot.toList ++ s.others i) := by
  simpa using cells_perm_others (s.put i slot) i

/-- An entry that is taken out leaves the others. -/
theorem cells_perm_put_none {s : Slots α n} {i : Fin n} {cell : Cell α} (hi : s.get i = some cell) :
    s.cells.Perm (cell :: (s.put i none).cells) := by
  calc s.cells.Perm (cell :: s.others i) := by simpa [hi] using cells_perm_others s i
    List.Perm _ (cell :: (s.put i none).cells) := by simpa using (cells_put_perm s i none).symm

/-- Two arrays of which one results from the other by moving a cell to an empty slot have the same
cells. -/
theorem cells_move_perm {s : Slots α n} {i j : Fin n} {cell : Cell α} (hi : s.get i = none)
    (hj : s.get j = some cell) : ((s.put j none).put i (some cell)).cells.Perm s.cells := by
  have hij : j ≠ i := (ne_of_isSome hi (by simp [hj])).symm
  have hrest : (s.put j none).cells.Perm ((s.put j none).others i) := by
    simpa [get_put_ne _ _ hij, hi] using cells_perm_others (s.put j none) i
  calc ((s.put j none).put i (some cell)).cells.Perm (cell :: (s.put j none).others i) := by
        simpa using cells_put_perm (s.put j none) i (some cell)
    List.Perm _ (cell :: (s.put j none).cells) := hrest.symm.cons cell
    List.Perm _ s.cells := (cells_perm_put_none hj).symm

/-! ## Occupied positions -/

/-- The positions of the occupied slots. -/
def occupied (s : Slots α n) : Finset (Fin n) := Finset.univ.filter fun i => (s.get i).isSome

@[simp] theorem mem_occupied {s : Slots α n} {i : Fin n} : i ∈ s.occupied ↔ (s.get i).isSome := by
  simp [occupied]

theorem isSome_eq_of_occupied {β : Type v} {s : Slots α n} {t : Slots β n}
    (h : s.occupied = t.occupied) (i : Fin n) : (s.get i).isSome = (t.get i).isSome := by
  rw [Bool.eq_iff_iff, ← mem_occupied, ← mem_occupied, h]

theorem card_occupied (s : Slots α n) : s.occupied.card = s.cells.length := by
  have h : s.occupied = ((List.finRange n).filter fun i => (s.get i).isSome).toFinset := by
    ext i
    simp
  rw [h, List.toFinset_card_of_nodup ((List.nodup_finRange n).filter _), cells_eq_filterMap,
    List.length_filterMap_eq_countP, List.countP_eq_length_filter]

theorem length_cells_le (s : Slots α n) : s.cells.length ≤ n := by
  simpa [card_occupied] using s.occupied.card_le_univ

/-- As many cells as slots: no slot is empty. -/
theorem length_cells_eq_iff {s : Slots α n} : s.cells.length = n ↔ ∀ i, (s.get i).isSome := by
  rw [← card_occupied]
  constructor
  · intro h i
    have huniv : s.occupied = Finset.univ := Finset.eq_univ_of_card _ (by simpa using h)
    rw [← mem_occupied, huniv]
    exact Finset.mem_univ i
  · intro h
    have huniv : s.occupied = Finset.univ := by
      ext i
      simp [h]
    simp [huniv]

theorem exists_empty_of_length_lt {s : Slots α n} (h : s.cells.length < n) :
    ∃ i, s.get i = none := by
  by_contra hfull
  push Not at hfull
  have := length_cells_eq_iff.2 fun i => Option.isSome_iff_ne_none.2 (hfull i)
  omega

/-- The positions of the empty slots. -/
def vacancies (s : Slots α n) : Finset (Fin n) := Finset.univ.filter fun i => s.get i = none

theorem card_vacancies_add (s : Slots α n) : s.vacancies.card + s.cells.length = n := by
  have hcompl : s.vacancies = s.occupiedᶜ := by
    ext i
    simp [vacancies]
  rw [← card_occupied, hcompl, Finset.card_compl_add_card, Fintype.card_fin]

/-! ## Hashes -/

/-- The hash of the entry in a slot. -/
def hashAt? (s : Slots α n) (i : Fin n) : Option UInt64 := (s.get i).map (·.hash)

theorem hashAt?_of_get {s : Slots α n} {i : Fin n} {cell : Cell α} (h : s.get i = some cell) :
    s.hashAt? i = some cell.hash := by
  rw [hashAt?, h, Option.map_some]

theorem hashAt?_eq_some {s : Slots α n} {i : Fin n} {hash : UInt64} :
    s.hashAt? i = some hash ↔ ∃ cell, s.get i = some cell ∧ cell.hash = hash := by
  simp [hashAt?]

theorem isSome_hashAt? (s : Slots α n) (i : Fin n) : (s.hashAt? i).isSome = (s.get i).isSome := by
  simp [hashAt?]

theorem occupied_congr {s t : Slots α n} (h : s.hashAt? = t.hashAt?) :
    s.occupied = t.occupied := by
  ext i
  rw [mem_occupied, mem_occupied, ← isSome_hashAt?, ← isSome_hashAt?, h]

theorem length_cells_congr {s t : Slots α n} (h : s.hashAt? = t.hashAt?) :
    s.cells.length = t.cells.length := by
  rw [← card_occupied, ← card_occupied, occupied_congr h]

/-- Changing an item leaves all hashes in their slots. -/
theorem hashAt?_put_item {s : Slots α n} {i : Fin n} {cell : Cell α} (h : s.get i = some cell)
    (item : α) : (s.put i (some { cell with item })).hashAt? = s.hashAt? := by
  funext j
  by_cases hij : i = j
  · subst hij
    rw [hashAt?_of_get h, hashAt?, get_put_self, Option.map_some]
  · rw [hashAt?, hashAt?, get_put_ne _ _ hij]

theorem updateAt?_eq_some {s s' : Slots α n} {i : Fin n} {update : α → α} {item : α}
    (h : s.updateAt? i update = some (item, s')) :
    ∃ cell, s.get i = some cell ∧ item = update cell.item ∧
      s' = s.put i (some { cell with item }) := by
  unfold updateAt? at h
  simp only [Option.map_eq_some_iff, Prod.mk.injEq] at h
  obtain ⟨cell, hcell, rfl, rfl⟩ := h
  exact ⟨cell, hcell, rfl, rfl⟩

theorem hashAt?_updateAt? {s s' : Slots α n} {i : Fin n} {update : α → α} {item : α}
    (h : s.updateAt? i update = some (item, s')) : s'.hashAt? = s.hashAt? := by
  obtain ⟨cell, hcell, -, rfl⟩ := updateAt?_eq_some h
  exact hashAt?_put_item hcell item

end LinearProbing.Slots

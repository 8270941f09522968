-- SUMMARY: New entries stored one after the other go to the slots where placement puts them.
import LinearProbing.Proofs.Table.Bounded

/-! # New entries

A predicate that accepts nothing makes every item a new one, whatever is stored under its hash. The
probe for such an entry and the search of a placement are two separate scans that end at the same
slot, in any array. So items that are stored through vacant entries, one after the other, stand
where placement puts them, and a bounded table takes as many as it has empty slots.
-/

namespace LinearProbing

universe u

variable {α : Type u} {n : Nat}

namespace Table

variable {t t' : Table α} {cells : List (Cell α)}

/-- Stores an item as a new entry. -/
def add (t : Table α) (cell : Cell α) : Except Fault (Table α) :=
  (t.entry cell.hash fun _ => false).map fun e => (e.orInsert cell.item).table

/-- Stores items as new entries, one after the other. -/
def addAll (t : Table α) (cells : List (Cell α)) : Except Fault (Table α) := cells.foldlM add t

/-- Stores an item as a new entry in the slots that the table has. -/
def store (t : Table α) (cell : Cell α) : Except Error (Table α) :=
  (t.locate cell.hash fun _ => false).map fun e => (e.orInsert cell.item).table

/-- Stores items as new entries in the slots that the table has, one after the other. -/
def storeAll (t : Table α) (cells : List (Cell α)) : Except Error (Table α) := cells.foldlM store t

/-! ## Storing and placing -/

/-- The entry of a predicate that accepts nothing is vacant, and at the slot of a placement. -/
theorem store_eq (t : Table α) (cell : Cell α) :
    t.store cell = (t.slots.place? cell).elim (.error (.capacityExceeded t.capacity))
      fun slots => .ok { t with slots, count := t.count + 1 } := by
  have hprobe := t.slots.probe_of_vacancy? cell.hash
  rw [store, Slots.place?]
  cases hvacancy : t.slots.vacancy? cell.hash with
  | none =>
    rw [hvacancy] at hprobe
    rw [locate_of_full hprobe]
    rfl
  | some i =>
    rw [hvacancy] at hprobe
    rw [locate_of_vacant hprobe]
    rfl

theorem storeAll_eq (t : Table α) (cells : List (Cell α)) :
    t.storeAll cells = (t.slots.placeAll? cells).elim (.error (.capacityExceeded t.capacity))
      fun slots => .ok { t with slots, count := t.count + cells.length } := by
  induction cells generalizing t with
  | nil => rfl
  | cons cell cells ih =>
    rw [storeAll, List.foldlM_cons, store_eq, Slots.placeAll?, List.foldlM_cons]
    cases t.slots.place? cell with
    | none => rfl
    | some slots =>
      have hcount : t.count + 1 + cells.length = t.count + (cells.length + 1) := by omega
      have hrest := ih { t with slots, count := t.count + 1 }
      rw [hcount] at hrest
      exact hrest

/-- A bounded table hands out entries in the slots that it has. -/
theorem addAll_eq (h : t.sizing = .bounded) :
    t.addAll cells = (t.storeAll cells).mapError .unhandled := by
  induction cells generalizing t with
  | nil => rfl
  | cons cell cells ih =>
    have hadd : t.add cell = (t.store cell).mapError .unhandled := by
      rw [add, Bounded.entry_eq ⟨h, rfl⟩, store]
      cases t.locate cell.hash fun _ => false <;> rfl
    rw [addAll, storeAll, List.foldlM_cons, List.foldlM_cons, hadd, store_eq]
    cases t.slots.place? cell with
    | none => rfl
    | some slots => exact ih h

/-! ## Tables that have room -/

/-- The table has come to hold these entries besides its own, in the slots that it has. -/
structure Added (t : Table α) (cells : List (Cell α)) (t' : Table α) : Prop where
  sizing_eq : t'.sizing = t.sizing
  capacity_eq : t'.capacity = t.capacity
  cells_perm : t'.slots.cells.Perm (cells ++ t.slots.cells)
  wellFormed : t'.WellFormed

/-- A bounded table takes as many new entries as it has empty slots. -/
theorem WellFormed.exists_addAll (h : t.WellFormed) (hsizing : t.sizing = .bounded)
    (hroom : cells.length + t.count ≤ t.capacity) :
    ∃ t', t.addAll cells = .ok t' ∧ Added t cells t' := by
  have hcount := h.count_eq
  obtain ⟨slots, hplace⟩ := t.slots.exists_placeAll? cells (by omega)
  have hperm := Slots.cells_placeAll? hplace
  refine ⟨{ t with slots, count := t.count + cells.length }, ?_, ?_⟩
  · rw [addAll_eq hsizing, storeAll_eq, hplace]
    rfl
  · exact
      { sizing_eq := rfl
        capacity_eq := rfl
        cells_perm := hperm
        wellFormed.count_eq := by
          show t.count + cells.length = slots.cells.length
          rw [hperm.length_eq, List.length_append, hcount, Nat.add_comm]
        wellFormed.settled := h.settled.placeAll? hplace }

end Table

/-! ## Probes and placement -/

namespace Slots

/-- What the end of a probe says about placement, and the other way round. -/
structure PlacesWhereProbed (s : Slots α n) (hash : UInt64) (accepts : α → Bool) : Prop where
  of_vacant : ∀ i, s.probe hash accepts = .vacant i → s.vacancy? hash = some i
  of_full : s.probe hash accepts = .full → s.vacancy? hash = none
  of_none : s.vacancy? hash = none →
    (∃ i cell, s.probe hash accepts = .found i cell) ∨ s.probe hash accepts = .full

/-- Placement and insertion choose the same slots, one entry after the other, in an array of any
contents. -/
theorem placement_agrees (s : Slots α n) :
    (∀ hash accepts, s.PlacesWhereProbed hash accepts) ∧
      ∀ cells : List (Cell α), cells.length ≤ s.vacancies.card →
        ∃ slots, s.placeAll? cells = some slots ∧
          ∀ sizing count, (Table.mk sizing n s count).storeAll cells =
            .ok (Table.mk sizing n slots (count + cells.length)) := by
  refine ⟨fun hash accepts => ?_, fun cells hroom => ?_⟩
  · exact
      { of_vacant := fun i => vacancy?_of_probe_vacant
        of_full := vacancy?_of_probe_full
        of_none := fun h => probe_of_vacancy?_eq_none h accepts }
  · have hcard := s.card_vacancies_add
    obtain ⟨slots, hplace⟩ := s.exists_placeAll? cells (by omega)
    refine ⟨slots, hplace, fun sizing count => ?_⟩
    rw [Table.storeAll_eq, hplace]
    rfl

/-- An entry that no lookup finds, as the slot before it is empty. -/
def stranded : Slots Nat 3 := (empty Nat 3).put 0 (some { hash := 0, item := 10 })

/-- Two entries go around the end of the array, past the one that is stranded. -/
theorem placement_agrees_stranded :
    stranded.probe 3 (fun item => item == 10) = .vacant 2 ∧
      stranded.vacancy? 3 = some 2 ∧
      2 ≤ stranded.vacancies.card ∧
      ∃ slots, stranded.placeAll? [⟨3, 20⟩, ⟨6, 30⟩] = some slots ∧
        ∀ sizing count, (Table.mk sizing 3 stranded count).storeAll [⟨3, 20⟩, ⟨6, 30⟩] =
          .ok (Table.mk sizing 3 slots (count + 2)) :=
  have hprobe : stranded.probe 3 (fun item => item == 10) = .vacant 2 := by rfl
  ⟨hprobe, ((placement_agrees stranded).1 3 fun item => item == 10).of_vacant 2 hprobe,
    by decide +kernel, (placement_agrees stranded).2 [⟨3, 20⟩, ⟨6, 30⟩] (by decide +kernel)⟩

end Slots

end LinearProbing

-- SUMMARY: Tables that keep their slots: which keys they refuse, and that nothing else is refused.
import LinearProbing.Proofs.Dictionary.Capacity
import LinearProbing.Proofs.Table.Frame
import LinearProbing.Proofs.Table.KeyedEntry

/-! # Bounded tables

A bounded table hands out an entry in the slots that it has, or none. With keyed items it refuses
exactly the keys that a dictionary of as many items has no room for. A full table still has an entry
for every key that it holds.
-/

namespace LinearProbing.Table

universe u v

open Dictionary

variable {K : Type u} {α : Type v} {t t' : Table α} {capacity : Nat}

/-- The fault of an operation that finds no room for an entry. -/
abbrev fullFault (capacity : Nat) : Fault := .unhandled (.capacityExceeded capacity)

/-- The table keeps this number of slots. -/
structure Bounded (capacity : Nat) (t : Table α) : Prop where
  sizing_eq : t.sizing = .bounded
  capacity_eq : t.capacity = capacity

theorem bounded_ofBound (capacity : Nat) : Bounded capacity (.ofBound α capacity) := ⟨rfl, rfl⟩

theorem Bounded.of_leads (h : t.Bounded capacity) (ht : t.WellFormed)
    (hleads : Leads (fun op : Op α => ¬op.Resizes) t t') : t'.Bounded capacity :=
  ⟨(hleads.sizing_eq ht).trans h.sizing_eq, (hleads.capacity_eq ht h.sizing_eq).trans h.capacity_eq⟩

theorem Bounded.isFull_eq (h : t.Bounded capacity) (ht : t.WellFormed) :
    t.isFull = (t.items.length == capacity) := by
  rw [isFull, ht.count_eq, ← length_items, h.capacity_eq]

/-- An entry is asked for with or without an error for an answer; the places are the same. -/
theorem Bounded.entry_eq (h : t.Bounded capacity) (hash : UInt64) (accepts : α → Bool) :
    t.entry hash accepts = (t.locate hash accepts).mapError .unhandled := by
  unfold entry
  rw [h.sizing_eq]
  cases t.locate hash accepts <;> rfl

variable [BEq K] {hash : K → UInt64} {keyOf : α → K}

/-- What can come of asking for the entry of a key. -/
inductive BoundedCases (hash : K → UInt64) (keyOf : α → K) (capacity : Nat) (t : Table α)
    (key : K) : Prop
  | located (e : Entry α) (room : ¬NoRoom keyOf capacity key t.items)
      (entry_eq : t.entry (hash key) (fun a => key == keyOf a) = .ok e)
      (locate_eq : t.locate (hash key) (fun a => key == keyOf a) = .ok e)
      (entryFor : EntryFor hash keyOf key t.items e)
  | refused (noRoom : NoRoom keyOf capacity key t.items)
      (entry_eq : t.entry (hash key) (fun a => key == keyOf a) =
        .error (fullFault capacity))
      (locate_eq : t.locate (hash key) (fun a => key == keyOf a) =
        .error (.capacityExceeded capacity))

theorem Keyed.boundedCases (h : Keyed hash keyOf t) (hhash : RespectsEquality hash)
    (hbounded : t.Bounded capacity) (key : K) : BoundedCases hash keyOf capacity t key := by
  have hentry := hbounded.entry_eq (hash key) fun a => key == keyOf a
  have hcapacity := hbounded.capacity_eq
  have hcount : t.count = t.items.length := h.wellFormed.count_eq.trans t.length_items.symm
  rcases h.wellFormed.locate_cases (hash key) (fun a => key == keyOf a) with
    ⟨e, hlocate, hlocates⟩ | ⟨hlocate, hfull, habsent⟩
  · rw [hlocate] at hentry
    refine .located e ?_ hentry hlocate (h.entryFor hhash hlocates)
    rintro ⟨hnew, hle⟩
    have hcount_le := h.wellFormed.count_le
    exact hlocates.not_absent_of_full h.wellFormed (by omega) ((h.absent_iff hhash).2 hnew)
  · rw [hcapacity] at hlocate
    rw [hlocate] at hentry
    exact .refused ⟨(h.absent_iff hhash).1 habsent, by omega⟩ hentry hlocate

end LinearProbing.Table

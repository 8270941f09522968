-- SUMMARY: Vacating a slot ends on every array, and within two laps in every table.
import LinearProbing.Proofs.Program.Slots
import LinearProbing.Proofs.Slots.Lap
import LinearProbing.Proofs.Table.Run

/-! # Vacating a slot ends

The scan behind a vacated slot has no counter and stops at an empty slot, of which a full array has
but the one that moves along with the hole. It stops nevertheless, whatever the hashes and wherever
the entries are. In the tables that operations lead to the layout is settled, and the scan does not
finish a second lap.
-/

namespace LinearProbing

/-- What comes of vacating slot `i`: the function yields it, and the program that looks at one slot
after the other comes to the same. -/
structure Slots.Vacates {α : Type} {n : Nat} (s : Slots α n) (i : Fin n) : Prop where
  empty : s.get i = none → s.vacate? i = none
  occupied : ∀ cell, s.get i = some cell → ∃ rounds last,
    (Gap.ofTaken s i).RunsTo rounds last ∧ s.vacate? i = some (cell, last) ∧
      (cell :: last.cells).Perm s.cells ∧ last.vacancies.card = s.vacancies.card + 1
  /-- The rounds of the scan lead to the array that is yielded, and to no other. -/
  leaves : ∀ cell rounds last, s.get i = some cell → (Gap.ofTaken s i).RunsTo rounds last →
    s.vacate? i = some (cell, last)
  ends : n < capacityBound →
    Program.exec (Program.vacate i.val) s = Program.optionally s (s.vacate? i)

theorem Slots.vacates {α : Type} {n : Nat} (s : Slots α n) (i : Fin n) : s.Vacates i where
  empty h := by rw [vacate?, h, Option.map_none]
  occupied cell h := by
    obtain ⟨rounds, hruns⟩ := Gap.exists_runsTo (Gap.ofTaken s i)
    have hcells := Gap.cons_cells_close_perm h
    refine ⟨rounds, _, hruns, by rw [vacate?, h, Option.map_some], hcells, ?_⟩
    have hlength := hcells.length_eq
    have hbefore := s.card_vacancies_add
    have hafter := (Gap.ofTaken s i).close.card_vacancies_add
    rw [List.length_cons] at hlength
    omega
  leaves cell rounds last h hruns := by rw [vacate?, h, Option.map_some, hruns.eq_close]
  ends h := Program.exec_vacate h i s

/-- A slot of any array can be vacated. In a table that operations lead to, this takes fewer rounds
than two for each slot, and none of the entries is moved twice. -/
theorem vacate_ends {α : Type} :
    (∀ (n : Nat) (s : Slots α n) (i : Fin n), s.Vacates i) ∧
      ∀ t : Table α, t.Reachable → ∀ i rounds last,
        (Gap.ofTaken t.slots i).RunsTo rounds last →
          rounds.length < 2 * t.capacity ∧ ∀ p, Gap.timesMoved rounds p ≤ 1 := by
  refine ⟨fun n s i => s.vacates i, ?_⟩
  intro t ht i rounds last hruns
  exact hruns.lt_two_laps ht.wellFormed.settled

/-- In a full table of two slots, the scan passes the slot that it started behind. -/
theorem vacate_ends_pair : ∃ rounds last,
    (Gap.ofTaken (Table.pair 0 0).slots ⟨0, by decide +kernel⟩).RunsTo rounds last ∧
      rounds.length < 4 ∧ ∀ p, Gap.timesMoved rounds p ≤ 1 := by
  obtain ⟨hvacates, hbound⟩ := vacate_ends (α := Nat)
  have hget : ((Table.pair 0 0).slots.get ⟨0, by decide +kernel⟩).isSome := by decide +kernel
  obtain ⟨cell, hcell⟩ := Option.isSome_iff_exists.1 hget
  obtain ⟨rounds, last, hruns, -⟩ := (hvacates _ _ _).occupied cell hcell
  exact ⟨rounds, last, hruns, hbound _ (Table.reachable_pair 0 0) _ _ _ hruns⟩

end LinearProbing

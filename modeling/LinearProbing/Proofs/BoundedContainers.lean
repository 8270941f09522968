-- SUMMARY: Maps and sets of limited capacity are dictionaries of limited capacity.
import LinearProbing.Proofs.Containers
import LinearProbing.Proofs.KeyMap.Bounded
import LinearProbing.Proofs.KeySet.Bounded

/-! # Bounded containers after any operations

The main result about maps and sets that keep their slots. Whatever the operations, they answer as a
dictionary that holds at most as many keys as there are slots. A full one still answers for the keys
that it holds, and refuses all others without a change: the program that finds no room stops with the
table that it has started from.
-/

namespace LinearProbing

universe u v

open Program (exec)

namespace LastDigit

/-- Two keys fill a map of two slots. A third key is refused, one that is equal to a stored key is
not. -/
def boundedOps : List (KeyMap.BoundedOp LastDigit Nat) :=
  [.shared (.insert ⟨3⟩ 5) trivial, .shared (.insert ⟨4⟩ 6) trivial, .isFull,
    .shared (.tryInsert ⟨5⟩ 7) trivial, .shared (.insert ⟨13⟩ 8) trivial,
    .shared (.insertAll [(⟨14⟩, 9), (⟨25⟩, 0), (⟨24⟩, 1)]) trivial, .shared (.get ⟨4⟩) trivial,
    .shared (.remove ⟨23⟩) trivial, .shared (.insert ⟨35⟩ 2) trivial]

/-- The map of two slots that is full. -/
def fullMap : KeyMap LastDigit Nat :=
  final KeyMap.BoundedOp.perform (KeyMap.bounded hash 2)
    [.shared (.insert ⟨3⟩ 5) trivial, .shared (.insert ⟨4⟩ 6) trivial]

end LastDigit

/-- Bounded maps and sets answer as dictionaries of limited capacity. The programs on their tables
end without a defect, and those that find no room for a key stop before they change anything. -/
theorem bounded_refine :
    (∀ {K : Type u} {V : Type v} [BEq K] [EquivBEq K] {hash : K → UInt64},
      RespectsEquality hash → ∀ capacity,
        KeyMap.RefinesBounded V hash capacity ∧ KeySet.RefinesBounded hash capacity) ∧
      ∀ {K V : Type} [BEq K] [EquivBEq K] {hash : K → UInt64},
        RespectsEquality hash → ∀ capacity < capacityBound,
          (∀ ops, KeyMap.ProgramsWithin capacity
            (final KeyMap.BoundedOp.perform (KeyMap.bounded hash capacity : KeyMap K V) ops)) ∧
          ∀ ops, KeySet.ProgramsWithin capacity
            (final KeySet.BoundedOp.perform (KeySet.bounded hash capacity) ops) := by
  refine ⟨fun hhash capacity =>
    ⟨KeyMap.refinesBounded hhash capacity, KeySet.refinesBounded hhash capacity⟩, ?_⟩
  intro K V _ _ hash hhash capacity hbelow
  exact ⟨fun ops => (KeyMap.boundedTo_final hhash capacity ops).programsWithin hhash hbelow,
    fun ops => (KeySet.boundedTo_final hhash capacity ops).programsWithin hhash hbelow⟩

theorem bounded_refine_lastDigit :
    outcomes KeyMap.BoundedOp.perform (KeyMap.bounded LastDigit.hash 2) LastDigit.boundedOps =
        [.ok (.value none), .ok (.value none), .ok (.flag true),
          .ok (.failed (.capacityExceeded 2)), .ok (.value (some 5)),
          .error (.unhandled (.capacityExceeded 2)), .ok (.value (some 9)),
          .ok (.value (some 8)), .ok (.value none)] ∧
      ((KeySet.bounded LastDigit.hash 2).insertMany [⟨3⟩, ⟨13⟩, ⟨4⟩, ⟨5⟩]).isOk = false ∧
      exec (KeyMap.program LastDigit.fullMap.hash (.insert ⟨5⟩ 7)) LastDigit.fullMap.table =
        .some (.error (.fault (.unhandled (.capacityExceeded 2))), LastDigit.fullMap.table) := by
  obtain ⟨hcontainers, hprograms⟩ := bounded_refine
  obtain ⟨hmaps, hsets⟩ := hcontainers (V := Nat) LastDigit.respectsEquality_hash 2
  obtain ⟨hmapPrograms, -⟩ :=
    hprograms (V := Nat) LastDigit.respectsEquality_hash 2 (by decide)
  refine ⟨?_, ?_, ?_⟩
  · rw [hmaps.refines.outcomes_eq LastDigit.boundedOps (fun _ _ => id)
      (by simp [LastDigit.boundedOps, KeyMap.BoundedOp.OrderFree, KeyMap.Op.OrderFree])]
    rfl
  · refine (hsets.insertMany_isOk _).2 ⟨[⟨3⟩, ⟨4⟩, ⟨5⟩], ?_, ?_, by decide⟩
    · simp [Dictionary.Distinct]
      decide
    · simp
  · exact ((hmapPrograms _).refused ⟨5⟩ (by decide +kernel) (by decide +kernel) 7).2.1

end LinearProbing

-- SUMMARY: Moving a cursor walks around a ring: the end, and then the occupied slots in order.
import LinearProbing.Proofs.Table.Conservation
import LinearProbing.Proofs.Traversal.BothEnds

/-! # Cursors walk around a ring

The stops of a cursor are the occupied slots and the end, which closes them to a ring: it comes before
the first of them and after the last. Forward and backward moves are two different scans. Both
answer one question, which two stops have no other one between them (`Slots.Adjacent`), and each
stop has one neighbour on either side, so the moves undo each other.

A tour from the end then follows the entries in slot order, and a tour backward is one forward, run
from its last stop.
-/

namespace LinearProbing

universe u

variable {α : Type u} {n : Nat}

namespace Slots

/-- A position at which a cursor may stand: an occupied slot or the end. -/
def Stop (s : Slots α n) (p : Option (Fin n)) : Prop := ∀ i ∈ p, (s.get i).isSome

/-- Stop `q` comes right after stop `p`: no slot behind `p` and before `q` is occupied. The end is
before the first slot on the left side, and after the last slot on the right side. -/
structure Adjacent (s : Slots α n) (p q : Option (Fin n)) : Prop where
  stop_left : s.Stop p
  stop_right : s.Stop q
  le : p.elim 0 (·.val + 1) ≤ q.elim n (·.val)
  empty : ∀ j : Fin n, p.elim 0 (·.val + 1) ≤ j.val → j.val < q.elim n (·.val) → s.get j = none

theorem stop_none (s : Slots α n) : s.Stop none := fun _ hi => nomatch hi

theorem stop_some {s : Slots α n} {i : Fin n} : s.Stop (some i) ↔ (s.get i).isSome := by
  simp [Stop]

/-! ## Neighbours are unique -/

namespace Adjacent

variable {s : Slots α n} {p p' q q' : Option (Fin n)}

theorem right_le (h : s.Adjacent p q) (h' : s.Adjacent p q') :
    q'.elim n (·.val) ≤ q.elim n (·.val) := by
  apply Nat.le_of_not_lt
  intro hlt
  cases q with
  | none =>
    have hle : q'.elim n (·.val) ≤ n := by
      cases q' with
      | none => exact Nat.le_refl n
      | some j => exact Nat.le_of_lt j.isLt
    exact absurd hlt (Nat.not_lt.2 hle)
  | some i =>
    exact ne_of_isSome (h'.empty i h.le hlt) (stop_some.1 h.stop_right) rfl

theorem left_le (h : s.Adjacent p q) (h' : s.Adjacent p' q) :
    p.elim 0 (·.val + 1) ≤ p'.elim 0 (·.val + 1) := by
  apply Nat.le_of_not_lt
  intro hlt
  cases p with
  | none => exact absurd hlt (Nat.not_lt_zero _)
  | some i =>
    exact ne_of_isSome (h'.empty i (Nat.le_of_lt_succ hlt) h.le) (stop_some.1 h.stop_left) rfl

theorem right_unique (h : s.Adjacent p q) (h' : s.Adjacent p q') : q = q' := by
  have heq := Nat.le_antisymm (h'.right_le h) (h.right_le h')
  cases q with
  | none =>
    cases q' with
    | none => rfl
    | some j => exact absurd heq.symm (Nat.ne_of_lt j.isLt)
  | some i =>
    cases q' with
    | none => exact absurd heq (Nat.ne_of_lt i.isLt)
    | some j => exact congrArg some (Fin.ext heq)

theorem left_unique (h : s.Adjacent p q) (h' : s.Adjacent p' q) : p = p' := by
  have heq := Nat.le_antisymm (h.left_le h') (h'.left_le h)
  cases p with
  | none =>
    cases p' with
    | none => rfl
    | some j => exact absurd heq.symm (Nat.succ_ne_zero _)
  | some i =>
    cases p' with
    | none => exact absurd heq (Nat.succ_ne_zero _)
    | some j => exact congrArg some (Fin.ext (Nat.succ.inj heq))

end Adjacent

/-! ## The entries in order -/

theorem snd_entries (s : Slots α n) : s.entries.map (·.2) = s.cells := by
  rw [entries, List.map_filterMap, cells_eq_filterMap]
  apply List.filterMap_congr
  intro i _
  cases s.get i <;> rfl

theorem length_entries (s : Slots α n) : s.entries.length = s.occupied.card := by
  rw [card_occupied, ← snd_entries, List.length_map]

/-- No entry of a part of the entries is behind its last one. -/
theorem exists_le_getLast? {l : List (Fin n × Cell α)} (hl : (l.map (·.1)).Pairwise (· < ·))
    {entry : Fin n × Cell α} (h : entry ∈ l) : ∃ last, l.getLast? = some last ∧ entry.1 ≤ last.1 := by
  rcases List.eq_nil_or_concat l with rfl | ⟨others, last, rfl⟩
  · cases h
  · refine ⟨last, by simp, ?_⟩
    rw [List.concat_eq_append, List.map_append, List.pairwise_append] at hl
    rw [List.concat_eq_append, List.mem_append, List.mem_singleton] at h
    rcases h with h | rfl
    · exact Fin.le_of_lt (hl.2.2 _ (List.mem_map_of_mem h) _ (by simp))
    · exact Fin.le_refl _

/-- None is before its first one. -/
theorem exists_head?_le {l : List (Fin n × Cell α)} (hl : (l.map (·.1)).Pairwise (· < ·))
    {entry : Fin n × Cell α} (h : entry ∈ l) : ∃ first, l.head? = some first ∧ first.1 ≤ entry.1 := by
  cases l with
  | nil => cases h
  | cons first others =>
    refine ⟨first, rfl, ?_⟩
    rw [List.map_cons, List.pairwise_cons] at hl
    rcases List.mem_cons.1 h with rfl | h
    · exact Fin.le_refl _
    · exact Fin.le_of_lt (hl.1 _ (List.mem_map_of_mem h))

/-- Where the entries are cut in two, the last one before the cut and the first one after it are
adjacent; the end stands in for one that is missing. -/
theorem adjacent_of_entries {s : Slots α n} {before after : List (Fin n × Cell α)}
    (h : s.entries = before ++ after) :
    s.Adjacent (before.getLast?.map (·.1)) (after.head?.map (·.1)) := by
  have hsorted := ascending_entries s
  rw [h, List.map_append, List.pairwise_append] at hsorted
  obtain ⟨hbefore, hafter, hcut⟩ := hsorted
  have hstop {entry : Fin n × Cell α} (hmem : entry ∈ before ++ after) :
      (s.get entry.1).isSome := by
    have hget : s.get entry.1 = some entry.2 := mem_entries.1 (by rw [h]; exact hmem)
    rw [hget, Option.isSome_some]
  refine
    { stop_left := ?_
      stop_right := ?_
      le := ?_
      empty := ?_ }
  · intro i hi
    obtain ⟨last, hlast, rfl⟩ := Option.map_eq_some_iff.1 hi
    exact hstop (List.mem_append_left _ (List.mem_of_getLast? hlast))
  · intro i hi
    obtain ⟨first, hfirst, rfl⟩ := Option.map_eq_some_iff.1 hi
    exact hstop (List.mem_append_right _ (List.mem_of_head? hfirst))
  · cases hlast : before.getLast? with
    | none => exact Nat.zero_le _
    | some last =>
      cases hfirst : after.head? with
      | none => exact last.1.isLt
      | some first =>
        exact hcut _ (List.mem_map_of_mem (List.mem_of_getLast? hlast)) _
          (List.mem_map_of_mem (List.mem_of_head? hfirst))
  · intro j hstart hstop
    by_contra hne
    obtain ⟨cell, hcell⟩ := Option.ne_none_iff_exists'.1 hne
    have hmem : (j, cell) ∈ before ++ after := h ▸ mem_entries.2 hcell
    rcases List.mem_append.1 hmem with hmem | hmem
    · obtain ⟨last, hlast, hle⟩ := exists_le_getLast? hbefore hmem
      rw [hlast] at hstart
      exact Nat.not_lt.2 hle hstart
    · obtain ⟨first, hfirst, hle⟩ := exists_head?_le hafter hmem
      rw [hfirst] at hstop
      exact Nat.not_lt.2 hle hstop

end Slots

namespace Cursor

variable {s : Slots α n} {c : Cursor α n}

/-- The cursor is on an occupied slot or at the end. -/
def Stands (c : Cursor α n) : Prop := c.slots.Stop c.position

/-! ## Moves -/

theorem adjacent_next (h : c.Stands) : c.slots.Adjacent c.position c.next.position := by
  cases hfirst : c.slots.first? Option.isSome (c.position.elim 0 (·.val + 1)) n with
  | none =>
    have hnext : c.next.position = none := hfirst
    rw [hnext]
    refine ⟨h, Slots.stop_none _, ?_, ?_⟩
    · cases c.position with
      | none => exact Nat.zero_le _
      | some i => exact i.isLt
    · intro j hstart hstop
      simpa using Slots.first?_eq_none hfirst j hstart hstop
  | some i =>
    have hnext : c.next.position = some i := hfirst
    obtain ⟨hstart, -, hi, hbefore⟩ := Slots.first?_eq_some hfirst
    rw [hnext]
    refine ⟨h, Slots.stop_some.2 hi, hstart, ?_⟩
    intro j hstart hstop
    simpa using hbefore j hstart hstop

theorem adjacent_prev (h : c.Stands) : c.slots.Adjacent c.prev.position c.position := by
  cases hlast : c.slots.last? Option.isSome 0 c.index with
  | none =>
    have hprev : c.prev.position = none := hlast
    rw [hprev]
    refine ⟨Slots.stop_none _, h, Nat.zero_le _, ?_⟩
    intro j hstart hstop
    simpa using Slots.last?_eq_none hlast j hstart hstop
  | some i =>
    have hprev : c.prev.position = some i := hlast
    obtain ⟨-, hstop, hi, hafter⟩ := Slots.last?_eq_some hlast
    rw [hprev]
    refine ⟨Slots.stop_some.2 hi, h, hstop, ?_⟩
    intro j hstart hstop
    simpa using hafter j hstart hstop

theorem eq_of_position {c d : Cursor α n} (hslots : c.slots = d.slots)
    (hposition : c.position = d.position) : c = d := by
  cases c
  cases d
  cases hslots
  cases hposition
  rfl

/-- No move forward stops on an empty slot, wherever it starts. -/
theorem stands_next (c : Cursor α n) : c.next.Stands := by
  intro i hi
  exact (Slots.first?_eq_some hi).2.2.1

theorem stands_prev (c : Cursor α n) : c.prev.Stands := by
  intro i hi
  exact (Slots.last?_eq_some hi).2.2.1

theorem stands_atEnd (s : Slots α n) : (atEnd s).Stands := s.stop_none

theorem prev_next (h : c.Stands) : c.next.prev = c :=
  eq_of_position rfl ((adjacent_prev c.stands_next).left_unique (adjacent_next h))

theorem next_prev (h : c.Stands) : c.prev.next = c :=
  eq_of_position rfl ((adjacent_next c.stands_prev).right_unique (adjacent_prev h))

/-! ## Tours -/

/-- A move forward from the last entry before a cut leads to the first one after it. -/
theorem position_next_of_entries {before after : List (Fin n × Cell α)}
    (h : c.slots.entries = before ++ after) (hc : c.position = before.getLast?.map (·.1)) :
    c.next.position = after.head?.map (·.1) := by
  have hadjacent := Slots.adjacent_of_entries h
  rw [← hc] at hadjacent
  exact (adjacent_next hadjacent.stop_left).right_unique hadjacent

theorem slots_iterate_next (s : Slots α n) (moves : Nat) : (next^[moves] (atEnd s)).slots = s := by
  induction moves with
  | zero => rfl
  | succ moves ih =>
    rw [Function.iterate_succ_apply']
    exact ih

theorem slots_iterate_prev (s : Slots α n) (moves : Nat) : (prev^[moves] (atEnd s)).slots = s := by
  induction moves with
  | zero => rfl
  | succ moves ih =>
    rw [Function.iterate_succ_apply']
    exact ih

theorem entries_iterate_next (s : Slots α n) (moves : Nat) :
    (next^[moves] (atEnd s)).slots.entries = s.entries.take moves ++ s.entries.drop moves := by
  rw [slots_iterate_next, List.take_append_drop]

/-- As many moves from the end lead to the last one of as many entries. -/
theorem position_iterate_next_take (s : Slots α n) {moves : Nat}
    (h : moves ≤ s.entries.length) :
    (next^[moves] (atEnd s)).position = (s.entries.take moves).getLast?.map (·.1) := by
  induction moves with
  | zero => rfl
  | succ moves ih =>
    rw [Function.iterate_succ_apply',
      position_next_of_entries (entries_iterate_next s moves) (ih (Nat.le_of_lt h)),
      List.head?_drop, List.getLast?_take, if_neg (Nat.succ_ne_zero moves), Nat.add_sub_cancel,
      List.getElem?_eq_getElem h, Option.some_or]

theorem position_iterate_next (s : Slots α n) {moves : Nat} (h : moves ≤ s.entries.length) :
    (next^[moves + 1] (atEnd s)).position = s.entries[moves]?.map (·.1) := by
  rw [Function.iterate_succ_apply',
    position_next_of_entries (entries_iterate_next s moves) (position_iterate_next_take s h),
    List.head?_drop]

/-- One move more than there are entries leads back to the end. -/
theorem iterate_next_lap (s : Slots α n) : next^[s.entries.length + 1] (atEnd s) = atEnd s := by
  refine eq_of_position (slots_iterate_next s _) ?_
  rw [position_iterate_next s (Nat.le_refl _), List.getElem?_eq_none (Nat.le_refl _)]
  rfl

theorem stands_iterate_next (s : Slots α n) (moves : Nat) : (next^[moves] (atEnd s)).Stands := by
  cases moves with
  | zero => exact stands_atEnd s
  | succ moves =>
    rw [Function.iterate_succ_apply']
    exact stands_next _

/-- A tour backward is the tour forward, run from its last stop. -/
theorem iterate_prev (s : Slots α n) {moves rest : Nat}
    (h : moves + rest = s.entries.length + 1) :
    prev^[moves] (atEnd s) = next^[rest] (atEnd s) := by
  induction moves generalizing rest with
  | zero =>
    rw [Nat.zero_add] at h
    rw [h, iterate_next_lap]
    rfl
  | succ moves ih =>
    have hstep : prev^[moves] (atEnd s) = next^[rest + 1] (atEnd s) := ih (by omega)
    rw [Function.iterate_succ_apply', hstep, Function.iterate_succ_apply',
      prev_next (stands_iterate_next s rest)]

theorem position_iterate_prev (s : Slots α n) {moves : Nat} (h : moves ≤ s.entries.length) :
    (prev^[moves + 1] (atEnd s)).position = s.entries.reverse[moves]?.map (·.1) := by
  have hsplit : moves + 1 + (s.entries.length - moves) = s.entries.length + 1 := by omega
  rw [iterate_prev s hsplit]
  rcases Nat.lt_or_eq_of_le h with hlt | rfl
  · obtain ⟨rest, hrest⟩ := Nat.exists_eq_add_of_lt hlt
    have hsub : s.entries.length - moves = rest + 1 := by omega
    rw [hsub, position_iterate_next s (by omega), List.getElem?_reverse hlt]
    congr 2
    omega
  · rw [Nat.sub_self, List.getElem?_eq_none (by rw [List.length_reverse])]
    rfl

/-! ## What a walk to the end sees -/

theorem item?_of_position {i : Fin n} (h : c.position = some i) :
    c.item? = (c.slots.get i).map (·.item) := by
  rw [item?, cell?, h, Option.bind_some]

theorem item?_of_none (h : c.position = none) : c.item? = none := by
  rw [item?, cell?, h]
  rfl

theorem index_lt_index_next {item : α} (h : c.item? = some item) : c.index < c.next.index := by
  cases hposition : c.position with
  | none =>
    rw [item?_of_none hposition] at h
    cases h
  | some i =>
    have hstands : c.Stands := by
      intro j hj
      rw [item?_of_position hposition, Option.map_eq_some_iff] at h
      obtain ⟨cell, hcell, -⟩ := h
      rw [hposition] at hj
      cases hj
      rw [hcell, Option.isSome_some]
    have hle := (adjacent_next hstands).le
    rw [hposition] at hle
    rw [index, hposition]
    exact hle

theorem index_le (c : Cursor α n) : c.index ≤ n := by
  rw [index]
  cases c.position with
  | none => exact Nat.le_refl n
  | some i => exact Nat.le_of_lt i.isLt

/-- The items under a cursor that moves forward until it is at the end. -/
def seen (c : Cursor α n) : List α :=
  match _ : c.item? with
  | none => []
  | some item => item :: c.next.seen
termination_by n - c.index
decreasing_by
  have hlt := index_lt_index_next ‹_›
  have hle := c.next.index_le
  omega

theorem seen_of_none (h : c.item? = none) : c.seen = [] := by
  rw [seen]
  split
  · rfl
  · next hsome => cases h.symm.trans hsome

theorem seen_of_some {item : α} (h : c.item? = some item) : c.seen = item :: c.next.seen := by
  rw [seen]
  split
  · next hnone => cases h.symm.trans hnone
  · next hsome =>
    cases h.symm.trans hsome
    rfl

/-- From the first entry after a cut a walk sees all that come after the cut. -/
theorem seen_of_entries {before after : List (Fin n × Cell α)}
    (h : c.slots.entries = before ++ after) (hc : c.position = after.head?.map (·.1)) :
    c.seen = after.map (·.2.item) := by
  induction after generalizing c before with
  | nil => exact seen_of_none (item?_of_none hc)
  | cons entry after ih =>
    obtain ⟨i, cell⟩ := entry
    have hget : c.slots.get i = some cell := Slots.mem_entries.1 (by simp [h])
    have hitem : c.item? = some cell.item := by rw [item?_of_position hc, hget, Option.map_some]
    have hcut : c.slots.entries = (before ++ [(i, cell)]) ++ after := by
      rw [h, List.append_assoc, List.singleton_append]
    have hlast : c.position = (before ++ [(i, cell)]).getLast?.map (·.1) := by
      rw [hc, List.getLast?_concat]
      rfl
    rw [seen_of_some hitem, ih (c := c.next) hcut (position_next_of_entries hcut hlast), List.map_cons]

theorem seen_front (s : Slots α n) : (front s).seen = s.cells.map (·.item) := by
  have hcut : s.entries = [] ++ s.entries := rfl
  have hfront : (front s).position = s.entries.head?.map (·.1) :=
    position_next_of_entries (c := atEnd s) hcut rfl
  rw [seen_of_entries (c := front s) hcut hfront, ← Slots.snd_entries, List.map_map]
  rfl

end Cursor

/-! ## The ring -/

namespace Slots

open Cursor

/-- The traversal of all entries. -/
def traversal (s : Slots α n) : Traversal α n :=
  { slots := s, low := 0, high := n, remaining := s.cells.length }

/-- Cursors into an array walk around the ring of its occupied slots and the end. -/
structure WalksRing (s : Slots α n) : Prop where
  prev_next : ∀ c : Cursor α n, c.slots = s → c.Stands → c.next.prev = c
  next_prev : ∀ c : Cursor α n, c.slots = s → c.Stands → c.prev.next = c
  /-- No move stops on an empty slot, wherever it starts. -/
  stands_next : ∀ c : Cursor α n, c.slots = s → c.next.Stands
  stands_prev : ∀ c : Cursor α n, c.slots = s → c.prev.Stands
  /-- The entries are the occupied slots in ascending order. -/
  occupied : ∀ i cell, (i, cell) ∈ s.entries ↔ s.get i = some cell
  ascending : (s.entries.map (·.1)).Pairwise (· < ·)
  length_entries : s.entries.length = s.occupied.card
  /-- A tour from the end stops at one entry after the other and then at the end. -/
  forward : ∀ moves ≤ s.entries.length,
    (next^[moves + 1] (atEnd s)).position = s.entries[moves]?.map (·.1)
  backward : ∀ moves ≤ s.entries.length,
    (prev^[moves + 1] (atEnd s)).position = s.entries.reverse[moves]?.map (·.1)
  next_lap : next^[s.occupied.card + 1] (atEnd s) = atEnd s
  prev_lap : prev^[s.occupied.card + 1] (atEnd s) = atEnd s
  seen_front : (front s).seen = s.traversal.rest
  /-- A look ahead or back shows what the move would reach, so on a tour what comes next. -/
  peekNext_eq : ∀ c : Cursor α n, c.slots = s → c.peekNext? = c.next.item?
  peekPrev_eq : ∀ c : Cursor α n, c.slots = s → c.peekPrev? = c.prev.item?
  peekNext : ∀ moves ≤ s.entries.length,
    (next^[moves] (atEnd s)).peekNext? = s.entries[moves]?.map (·.2.item)
  peekPrev : ∀ moves ≤ s.entries.length,
    (prev^[moves] (atEnd s)).peekPrev? = s.entries.reverse[moves]?.map (·.2.item)

theorem exact_traversal (s : Slots α n) : s.traversal.Exact :=
  Table.exact_traversal_of_count
    (t := { sizing := .bounded, capacity := n, slots := s, count := s.cells.length }) rfl

theorem rest_traversal (s : Slots α n) : s.traversal.rest = s.cells.map (·.item) := by
  rw [s.exact_traversal.rest_eq]
  exact congrArg _ (Table.pendingCells_traversal
    { sizing := .bounded, capacity := n, slots := s, count := s.cells.length })

/-- What a cursor shows at a position of the tour. -/
theorem item?_of_entries {s : Slots α n} {c : Cursor α n} {shown : Option (Fin n × Cell α)}
    (hslots : c.slots = s) (hposition : c.position = shown.map (·.1))
    (hmem : ∀ entry ∈ shown, entry ∈ s.entries) : c.item? = shown.map (·.2.item) := by
  subst hslots
  cases shown with
  | none => exact item?_of_none hposition
  | some entry =>
    have hget : c.slots.get entry.1 = some entry.2 := mem_entries.1 (hmem entry rfl)
    rw [item?_of_position hposition, hget]
    rfl

theorem walksRing (s : Slots α n) : s.WalksRing where
  prev_next _ _ := Cursor.prev_next
  next_prev _ _ := Cursor.next_prev
  stands_next c _ := c.stands_next
  stands_prev c _ := c.stands_prev
  occupied _ _ := mem_entries
  ascending := s.ascending_entries
  length_entries := s.length_entries
  forward _ := position_iterate_next s
  backward _ := position_iterate_prev s
  next_lap := by rw [← s.length_entries, iterate_next_lap]
  prev_lap := by
    rw [← s.length_entries, iterate_prev s (Nat.add_zero _)]
    rfl
  seen_front := by rw [Cursor.seen_front, rest_traversal]
  peekNext_eq _ _ := rfl
  peekPrev_eq _ _ := rfl
  peekNext moves h := by
    refine item?_of_entries (slots_iterate_next s moves) ?_ fun _ => List.mem_of_getElem?
    rw [← position_iterate_next s h, Function.iterate_succ_apply']
  peekPrev moves h := by
    refine item?_of_entries (slots_iterate_prev s moves) ?_ fun _ hentry =>
      List.mem_reverse.1 (List.mem_of_getElem? hentry)
    rw [← position_iterate_prev s h, Function.iterate_succ_apply']

end Slots

namespace Table

variable {t : Table α}

/-- Every cursor that a lookup hands out is on an occupied slot or at the end. -/
theorem stands_cursor (t : Table α) (hash : UInt64) (accepts : α → Bool) :
    (t.cursor hash accepts).Stands := by
  intro i hi
  obtain ⟨⟨_, cell⟩, hseek, rfl⟩ := Option.map_eq_some_iff.1 hi
  exact Option.isSome_of_eq_some (seek?_eq_some hseek).1

theorem WellFormed.seen_front (h : t.WellFormed) : (Cursor.front t.slots).seen = t.toList := by
  rw [Cursor.seen_front, h.toList_eq]

end Table

/-- Cursors into any array walk around the ring of its occupied slots and the end. In a table that
operations lead to, every cursor that a lookup hands out is at a stop of the ring, and a walk from
the front sees the items in the order in which iteration yields them. -/
theorem cursors_walkRing {α : Type*} :
    (∀ {n : Nat} (s : Slots α n), s.WalksRing) ∧
      ∀ t : Table α, t.Reachable →
        (Cursor.front t.slots).seen = t.toList ∧
          ∀ hash accepts, (t.cursor hash accepts).Stands :=
  ⟨fun s => s.walksRing, fun t h => ⟨h.wellFormed.seen_front, t.stands_cursor⟩⟩

/-- Two of the three entries have gone past the end of the array, so the tour starts with them. -/
theorem cursors_walkRing_wrapped :
    Table.wrapped.slots.WalksRing ∧
      (Cursor.front Table.wrapped.slots).seen = Table.wrapped.toList ∧
      Table.wrapped.toList = [13, 20, 6] ∧
      Table.wrapped.slots.entries.map (·.1.val) = [0, 1, 6] := by
  obtain ⟨harrays, htables⟩ := cursors_walkRing (α := Nat)
  exact ⟨harrays _, (htables _ Table.reachable_wrapped).1, by decide +kernel, by decide +kernel⟩

end LinearProbing

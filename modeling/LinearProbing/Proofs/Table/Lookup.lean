-- SUMMARY: Lookups are complete, and all of them select the match that is nearest to its home.
import LinearProbing.Proofs.Table.Run

/-! # Lookups

A lookup ends at the first empty slot, so it finds a match only because no slot on the way of an
entry is empty. Finding, changing, removing, pointing a cursor and asking for an entry all come down
to one probe, and therefore to the same slot: the match at the least distance from home.
-/

namespace LinearProbing

universe u

/-- Position `i` satisfies `p` and is nearest to `start`, going forward, among those that do. -/
def Cyclic.Nearest {n : Nat} (start : Fin n) (p : Fin n → Prop) (i : Fin n) : Prop :=
  p i ∧ ∀ j, p j → Cyclic.distance start i ≤ Cyclic.distance start j

namespace Table

variable {α : Type u} {t t' : Table α} {hash : UInt64} {accepts : α → Bool}

/-- The slots whose entries match. -/
def matching (t : Table α) (hash : UInt64) (accepts : α → Bool) : Finset (Fin t.capacity) :=
  Finset.univ.filter fun i =>
    (t.slots.get i).any fun cell => decide (Slots.Matches hash accepts cell)

theorem mem_matching {i : Fin t.capacity} :
    i ∈ t.matching hash accepts ↔
      ∃ cell, t.slots.get i = some cell ∧ Slots.Matches hash accepts cell := by
  simp [matching, Option.any_eq_true]

theorem matching_eq_empty_iff : t.matching hash accepts = ∅ ↔ t.Absent hash accepts := by
  rw [Finset.eq_empty_iff_forall_notMem]
  constructor
  · intro h i cell hi hm
    exact h i (mem_matching.2 ⟨cell, hi, hm⟩)
  · intro h i hi
    obtain ⟨cell, hcell, hm⟩ := mem_matching.1 hi
    exact h hcell hm

/-! ## The slot that a probe selects -/

/-- A probe finds the match that is nearest to its home. -/
theorem nearest_of_probe {i : Fin t.capacity} {cell : Cell α}
    (h : t.slots.probe hash accepts = .found i cell) :
    Cyclic.Nearest (home hash i.pos) (· ∈ t.matching hash accepts) i := by
  refine ⟨mem_matching.2 ⟨cell, Slots.probe_found h⟩, ?_⟩
  intro j hj
  apply Nat.le_of_not_lt
  intro hlt
  obtain ⟨other, hother, hm⟩ := mem_matching.1 hj
  obtain ⟨other', hother', hpassed⟩ := Slots.passedBy_of_probe_found h hlt
  rw [hother] at hother'
  cases hother'
  exact hpassed hm

theorem nearest_of_firstEmpty {n : Nat} {s : Slots α n} {start i : Fin n}
    (h : s.FirstEmpty start i) : Cyclic.Nearest start (fun j => s.get j = none) i :=
  ⟨h.1, fun _ hj => h.distance_le hj⟩

/-- If an entry matches, a probe finds one. -/
theorem WellFormed.exists_probe_of_mem (h : t.WellFormed) {j : Fin t.capacity}
    (hj : j ∈ t.matching hash accepts) : ∃ i cell, t.slots.probe hash accepts = .found i cell := by
  obtain ⟨other, hother, hm⟩ := mem_matching.1 hj
  cases hprobe : t.slots.probe hash accepts with
  | found i cell => exact ⟨i, cell, rfl⟩
  | vacant i => exact absurd hm (h.reachable.not_matches_of_vacant hprobe hother)
  | full => exact absurd hm (Slots.not_matches_of_full hprobe hother)

theorem WellFormed.seek?_of_probe (h : t.WellFormed) {i : Fin t.capacity} {cell : Cell α}
    (hprobe : t.slots.probe hash accepts = .found i cell) :
    t.seek? hash accepts = some (i, cell) := by
  rw [h.seek?_eq_found?, hprobe, Probe.found?]

theorem Absent.seek?_eq_none (h : t.Absent hash accepts) : t.seek? hash accepts = none := by
  cases hseek : t.seek? hash accepts with
  | none => rfl
  | some result =>
    obtain ⟨hi, hm⟩ := seek?_eq_some hseek
    exact absurd hm (h hi)

theorem WellFormed.absent_of_seek?_eq_none (h : t.WellFormed)
    (hseek : t.seek? hash accepts = none) : t.Absent hash accepts := by
  intro j other hj hm
  obtain ⟨i, cell, hprobe⟩ := h.exists_probe_of_mem (mem_matching.2 ⟨other, hj, hm⟩)
  rw [h.seek?_of_probe hprobe] at hseek
  cases hseek

/-! ## Hits -/

/-- Every lookup selects slot `i`, which holds `cell`. -/
structure Hits (t : Table α) (hash : UInt64) (accepts : α → Bool) (i : Fin t.capacity)
    (cell : Cell α) : Prop where
  holds : t.slots.get i = some cell
  seek : t.seek? hash accepts = some (i, cell)
  find : t.find? hash accepts = some cell.item
  modify : ∀ update, t.modify? hash accepts update = some (update cell.item,
    { t with slots := t.slots.put i (some { cell with item := update cell.item }) })
  cursor : (t.cursor hash accepts).position = some i
  remove : t.remove? hash accepts = some (cell.item, t.without i)
  tryEntry : t.locate hash accepts = .ok (.occupied { table := t, index := i, cell, holds })
  /-- Asking for an entry grows the table only if its load is above the threshold. -/
  entry : (∀ policy, t.sizing = .growing policy →
      policy.needsGrowth t.count t.capacity = false) →
    t.entry hash accepts = .ok (.occupied { table := t, index := i, cell, holds })

theorem WellFormed.hits (h : t.WellFormed) {i : Fin t.capacity} {cell : Cell α}
    (hprobe : t.slots.probe hash accepts = .found i cell) : t.Hits hash accepts i cell where
  holds := (Slots.probe_found hprobe).1
  seek := h.seek?_of_probe hprobe
  find := by rw [find?, h.seek?_of_probe hprobe, Option.map_some]
  modify update := by
    simp [Table.modify?, h.seek?_of_probe hprobe, Slots.updateAt?, (Slots.probe_found hprobe).1]
  cursor := by simp [Table.cursor, h.seek?_of_probe hprobe]
  remove := by
    rw [Table.remove?, h.seek?_of_probe hprobe]
    exact takeAt?_of_get (Slots.probe_found hprobe).1
  tryEntry := locate_of_found hprobe
  entry hstays := by
    have hlocate := locate_of_found hprobe
    unfold Table.entry
    split
    · next policy hsizing =>
      simp only [growingEntry, hstays policy hsizing, Bool.false_eq_true, if_false, bind,
        Except.bind, pure, Except.pure, hlocate]
    · simp only [hlocate]

/-! ## Misses -/

/-- The vacant entry for a hash is at the empty slot that is nearest to its home. -/
def NearestVacancy (hash : UInt64) (v : VacantEntry α) : Prop :=
  v.hash = hash ∧
    Cyclic.Nearest (home hash v.index.pos) (fun j => v.table.slots.get j = none) v.index

/-- What comes of asking for an entry that is not there. -/
inductive NewEntry (t : Table α) (hash : UInt64) (accepts : α → Bool) : Prop
  /-- It is vacant, in the slots that the table has, or has after a growth step. -/
  | vacant (v : VacantEntry α) (entry_eq : t.entry hash accepts = .ok (.vacant v))
      (room : MakesRoom t hash accepts v.table) (nearest : NearestVacancy hash v)
  /-- The growth step is refused. -/
  | tooLarge (policy : GrowthPolicy) (sizing : t.sizing = .growing policy)
      (needs : t.NeedsRoom policy hash accepts)
      (large : capacityBound ≤ policy.grownCapacity t.capacity)
      (entry_eq : t.entry hash accepts =
        .error (.capacityTooLarge (policy.grownCapacity t.capacity)))
  /-- Every slot of a bounded table is occupied. -/
  | full (sizing : t.sizing = .bounded) (full : ∀ i, (t.slots.get i).isSome)
      (entry_eq : t.entry hash accepts = .error (.unhandled (.capacityExceeded t.capacity)))

/-- No lookup selects a slot, and an entry is a new one. -/
structure Misses (t : Table α) (hash : UInt64) (accepts : α → Bool) : Prop where
  find : t.find? hash accepts = none
  modify : ∀ update, t.modify? hash accepts update = none
  cursor : (t.cursor hash accepts).isEnd = true
  remove : t.remove? hash accepts = none
  tryEntry : (∃ i, t.slots.get i = none) →
    ∃ v, t.locate hash accepts = .ok (.vacant v) ∧ v.table = t ∧ NearestVacancy hash v
  entry : t.NewEntry hash accepts

theorem Locates.exists_vacant {e : Entry α} (h : Locates t hash accepts e)
    (habsent : t.Absent hash accepts) :
    ∃ v, e = .vacant v ∧ v.table = t ∧ NearestVacancy hash v := by
  cases h with
  | @vacant v htable hhash hfirst =>
    exact ⟨v, rfl, htable, hhash, nearest_of_firstEmpty hfirst⟩
  | @occupied e htable hfound =>
    subst htable
    exact absurd hfound (habsent e.holds)

theorem Absent.of_perm (h : t.Absent hash accepts)
    (hperm : t'.slots.cells.Perm t.slots.cells) : t'.Absent hash accepts := by
  intro i cell hi
  obtain ⟨j, hj⟩ := Slots.mem_cells.1 (hperm.mem_iff.1 (Slots.mem_cells.2 ⟨i, hi⟩))
  exact h hj

theorem WellFormed.newEntry (h : t.WellFormed) (habsent : t.Absent hash accepts) :
    t.NewEntry hash accepts := by
  cases h.entry_cases hash accepts with
  | located t' e hentry hroom hlocates =>
    have habsent' := habsent.of_perm (hroom.rehoused h).cells_perm
    obtain ⟨v, rfl, rfl, hnearest⟩ := hlocates.exists_vacant habsent'
    exact .vacant v hentry hroom hnearest
  | tooLarge policy hsizing hneeds hlarge hentry =>
    exact .tooLarge policy hsizing hneeds hlarge hentry
  | full hsizing hfull _ hentry =>
    exact .full hsizing (h.count_eq_capacity_iff.1 hfull) hentry

theorem WellFormed.misses (h : t.WellFormed) (habsent : t.Absent hash accepts) :
    t.Misses hash accepts where
  find := by rw [find?, habsent.seek?_eq_none, Option.map_none]
  modify update := by
    rw [Table.modify?, habsent.seek?_eq_none]
    rfl
  cursor := by simp [Cursor.isEnd, Table.cursor, habsent.seek?_eq_none]
  remove := by
    rw [Table.remove?, habsent.seek?_eq_none]
    rfl
  tryEntry := by
    rintro ⟨i, hi⟩
    rcases h.locate_cases hash accepts with ⟨e, hlocate, hlocates⟩ | ⟨-, hfull, -⟩
    · obtain ⟨v, rfl, htable, hnearest⟩ := hlocates.exists_vacant habsent
      exact ⟨v, hlocate, htable, hnearest⟩
    · have hsome := h.count_eq_capacity_iff.1 hfull i
      rw [hi] at hsome
      cases hsome
  entry := h.newEntry habsent

/-! ## Every lookup -/

theorem WellFormed.locate_eq_error_iff (h : t.WellFormed) (hash : UInt64) (accepts : α → Bool) :
    t.locate hash accepts = .error (.capacityExceeded t.capacity) ↔
      t.matching hash accepts = ∅ ∧ ∀ i, (t.slots.get i).isSome := by
  rw [matching_eq_empty_iff]
  constructor
  · intro herror
    rcases h.locate_cases hash accepts with ⟨e, hok, -⟩ | ⟨-, hfull, habsent⟩
    · rw [herror] at hok
      cases hok
    · exact ⟨habsent, h.count_eq_capacity_iff.1 hfull⟩
  · rintro ⟨habsent, hfull⟩
    rcases h.locate_cases hash accepts with ⟨e, -, hlocates⟩ | ⟨herror, -⟩
    · exact absurd habsent (hlocates.not_absent_of_full h (h.count_eq_capacity_iff.2 hfull))
    · exact herror

/-- In every table that operations lead to, lookups are complete and agree: they miss if no entry
matches, and otherwise all select the match that is nearest to its home. A bounded table refuses an
entry exactly if it would be new and every slot is occupied. -/
theorem Reachable.lookups_agree (h : t.Reachable) (hash : UInt64) (accepts : α → Bool) :
    (t.matching hash accepts = ∅ → t.Misses hash accepts) ∧
      ((t.matching hash accepts).Nonempty → ∃ i cell,
        Cyclic.Nearest (home hash i.pos) (· ∈ t.matching hash accepts) i ∧
          t.Hits hash accepts i cell) ∧
      (t.locate hash accepts = .error (.capacityExceeded t.capacity) ↔
        t.matching hash accepts = ∅ ∧ ∀ i, (t.slots.get i).isSome) := by
  have hwf := h.wellFormed
  refine ⟨?_, ?_, hwf.locate_eq_error_iff hash accepts⟩
  · intro hempty
    exact hwf.misses (matching_eq_empty_iff.1 hempty)
  · rintro ⟨j, hj⟩
    obtain ⟨i, cell, hprobe⟩ := hwf.exists_probe_of_mem hj
    exact ⟨i, cell, nearest_of_probe hprobe, hwf.hits hprobe⟩

/-- Two entries match, and the one that arrived first is selected: it is at home. -/
theorem lookups_agree_pair : ∃ i cell,
    Cyclic.Nearest (home 0 i.pos) (· ∈ (pair 0 0).matching 0 fun _ => true) i ∧
      (pair 0 0).Hits 0 (fun _ => true) i cell :=
  (Reachable.lookups_agree (reachable_pair 0 0) 0 fun _ => true).2.1 (by decide +kernel)

end Table

end LinearProbing

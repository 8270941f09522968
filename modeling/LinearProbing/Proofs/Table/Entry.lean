-- SUMMARY: Where an entry is located, when there is none, and the tables that result from its use.
import LinearProbing.Proofs.Table.Rebuild
import LinearProbing.Table.Entry

/-! # Entries

Locating an entry ends at the first match from home on or, if there is none, at the first empty
slot, so that storing an item there keeps the layout settled. A growing table enlarges its array at
most once before it finds a place.
-/

namespace LinearProbing

universe u

variable {α : Type u}

/-! ## Using an entry -/

structure VacantEntry.WellFormed (e : VacantEntry α) : Prop where
  table : e.table.WellFormed
  first : e.table.slots.FirstEmpty (home e.hash e.index.pos) e.index

def Entry.WellFormed : Entry α → Prop
  | .vacant e => e.WellFormed
  | .occupied e => e.table.WellFormed

theorem Entry.WellFormed.table {e : Entry α} (h : e.WellFormed) : e.table.WellFormed := by
  cases e with
  | vacant e => exact VacantEntry.WellFormed.table h
  | occupied e => exact h

theorem VacantEntry.cells_insert (e : VacantEntry α) (item : α) :
    (e.insert item).table.slots.cells.Perm ({ hash := e.hash, item } :: e.table.slots.cells) := by
  have hold : e.table.slots.cells.Perm (e.table.slots.others e.index) := by
    simpa [e.empty] using Slots.cells_perm_others e.table.slots e.index
  exact (Slots.cells_put_perm e.table.slots e.index _).trans (hold.symm.cons _)

theorem VacantEntry.modify_insert (e : VacantEntry α) (item : α) (update : α → α) :
    (e.insert item).modify update = e.insert (update item) := by
  simp [insert, OccupiedEntry.modify]

theorem VacantEntry.WellFormed.insert {e : VacantEntry α} (h : e.WellFormed) (item : α) :
    (e.insert item).table.WellFormed where
  count_eq := by
    rw [(e.cells_insert item).length_eq, List.length_cons, ← h.table.count_eq]
    rfl
  settled := h.table.settled.put h.first

namespace OccupiedEntry

/-- The cells of the table other than the one of the entry. -/
def others (e : OccupiedEntry α) : List (Cell α) := e.table.slots.others e.index

theorem cells_perm (e : OccupiedEntry α) : e.table.slots.cells.Perm (e.cell :: e.others) := by
  simpa [others, e.holds] using Slots.cells_perm_others e.table.slots e.index

theorem others_modify (e : OccupiedEntry α) (update : α → α) :
    (e.modify update).others = e.others :=
  Slots.others_put e.table.slots e.index _

theorem modify_modify (e : OccupiedEntry α) (update update' : α → α) :
    (e.modify update).modify update' = e.modify (update' ∘ update) := by
  simp [modify]

theorem modify_id (e : OccupiedEntry α) : e.modify id = e := by
  obtain ⟨table, index, cell, holds⟩ := e
  have hput : table.slots.put index (some cell) = table.slots := Slots.put_of_get holds
  simp [modify, hput]

theorem wellFormed_modify {e : OccupiedEntry α} (h : e.table.WellFormed) (update : α → α) :
    (e.modify update).table.WellFormed :=
  h.withSlots (Slots.hashAt?_put_item e.holds _)

theorem wellFormed_remove {e : OccupiedEntry α} (h : e.table.WellFormed) :
    e.remove.2.WellFormed :=
  h.without e.holds

end OccupiedEntry

theorem Entry.WellFormed.orInsertWith {e : Entry α} (h : e.WellFormed) (item : Unit → α) :
    (e.orInsertWith item).table.WellFormed := by
  cases e with
  | vacant e => exact VacantEntry.WellFormed.insert h (item ())
  | occupied e => exact h

theorem Entry.WellFormed.andModify {e : Entry α} (h : e.WellFormed) (update : α → α) :
    (e.andModify update).WellFormed := by
  cases e with
  | vacant e => exact h
  | occupied e => exact OccupiedEntry.wellFormed_modify h update

/-! ## Locating an entry -/

namespace Table

variable {t t' : Table α} {hash : UInt64} {accepts : α → Bool}

/-- No entry of the table matches. -/
def Absent (t : Table α) (hash : UInt64) (accepts : α → Bool) : Prop :=
  ∀ ⦃i cell⦄, t.slots.get i = some cell → ¬Slots.Matches hash accepts cell

/-- The entry is at the first match from home on or, if there is none, at the first empty slot. -/
inductive Locates (t : Table α) (hash : UInt64) (accepts : α → Bool) : Entry α → Prop
  | vacant {e : VacantEntry α} (table : e.table = t) (hash_eq : e.hash = hash)
      (first : e.table.slots.FirstEmpty (home hash e.index.pos) e.index)
      (absent : t.Absent hash accepts) : Locates t hash accepts (.vacant e)
  | occupied {e : OccupiedEntry α} (table : e.table = t)
      (found : Slots.Matches hash accepts e.cell)
      (before : ∀ ⦃q⦄, Slots.OnWay hash q e.index → e.table.slots.PassedBy hash accepts q) :
      Locates t hash accepts (.occupied e)

theorem Locates.wellFormed {e : Entry α} (h : Locates t hash accepts e) (ht : t.WellFormed) :
    e.WellFormed := by
  cases h with
  | vacant htable hhash hfirst =>
    subst hhash
    exact ⟨htable ▸ ht, hfirst⟩
  | @occupied e htable =>
    have htable_wf : e.table.WellFormed := htable ▸ ht
    exact htable_wf

theorem Locates.table_eq {e : Entry α} (h : Locates t hash accepts e) : e.table = t := by
  cases h with
  | vacant htable => exact htable
  | occupied htable => exact htable

/-- In a full table there is only an entry for what it holds. -/
theorem Locates.not_absent_of_full {e : Entry α} (h : Locates t hash accepts e)
    (ht : t.WellFormed) (hfull : t.count = t.capacity) : ¬t.Absent hash accepts := by
  intro habsent
  cases h with
  | @vacant e htable _ hfirst =>
    subst htable
    have hsome := ht.count_eq_capacity_iff.1 hfull e.index
    rw [hfirst.1] at hsome
    cases hsome
  | @occupied e htable hfound =>
    subst htable
    exact habsent e.holds hfound

theorem locate_of_found {i : Fin t.capacity} {cell : Cell α}
    (h : t.slots.probe hash accepts = .found i cell) :
    t.locate hash accepts =
      .ok (.occupied { table := t, index := i, cell, holds := (Slots.probe_found h).1 }) := by
  unfold locate
  split
  · next hprobe =>
    cases h.symm.trans hprobe
    rfl
  · next hprobe => cases h.symm.trans hprobe
  · next hprobe => cases h.symm.trans hprobe

theorem locate_of_vacant {i : Fin t.capacity} (h : t.slots.probe hash accepts = .vacant i) :
    t.locate hash accepts =
      .ok (.vacant { table := t, index := i, hash, empty := Slots.probe_vacant h }) := by
  unfold locate
  split
  · next hprobe => cases h.symm.trans hprobe
  · next hprobe =>
    cases h.symm.trans hprobe
    rfl
  · next hprobe => cases h.symm.trans hprobe

theorem locate_of_full (h : t.slots.probe hash accepts = .full) :
    t.locate hash accepts = .error (.capacityExceeded t.capacity) := by
  unfold locate
  split
  · next hprobe => cases h.symm.trans hprobe
  · next hprobe => cases h.symm.trans hprobe
  · rfl

/-- There is an entry unless every slot is occupied and none matches. -/
theorem WellFormed.locate_cases (h : t.WellFormed) (hash : UInt64) (accepts : α → Bool) :
    (∃ e, t.locate hash accepts = .ok e ∧ Locates t hash accepts e) ∨
      (t.locate hash accepts = .error (.capacityExceeded t.capacity) ∧ t.count = t.capacity ∧
        t.Absent hash accepts) := by
  cases hprobe : t.slots.probe hash accepts with
  | found i cell =>
    refine .inl ⟨_, locate_of_found hprobe, .occupied rfl (Slots.probe_found hprobe).2 ?_⟩
    intro q hq
    exact Slots.passedBy_of_probe_found hprobe hq
  | vacant i =>
    refine .inl ⟨_, locate_of_vacant hprobe,
      .vacant rfl rfl (Slots.firstEmpty_of_probe hprobe) ?_⟩
    intro j cell hj
    exact h.reachable.not_matches_of_vacant hprobe hj
  | full =>
    refine .inr ⟨locate_of_full hprobe, ?_, ?_⟩
    · rw [h.count_eq_capacity_iff]
      intro i
      exact (Slots.passedBy_of_probe_full hprobe i).isSome
    · intro j cell hj
      exact Slots.not_matches_of_full hprobe hj

theorem WellFormed.exists_locate (h : t.WellFormed) (hroom : t.count < t.capacity)
    (hash : UInt64) (accepts : α → Bool) :
    ∃ e, t.locate hash accepts = .ok e ∧ Locates t hash accepts e := by
  rcases h.locate_cases hash accepts with hfound | ⟨-, hfull, -⟩
  · exact hfound
  · exact absurd hfull (Nat.ne_of_lt hroom)

/-! ## Making room -/

/-- A growing table moves to a larger array before it hands out an entry: its load is above the
threshold, or there is no slot for a new entry. -/
def NeedsRoom (t : Table α) (policy : GrowthPolicy) (hash : UInt64) (accepts : α → Bool) : Prop :=
  policy.needsGrowth t.count t.capacity = true ∨ t.count = t.capacity ∧ t.Absent hash accepts

/-- The table in which an entry is looked up: as it was, or after one growth step. -/
inductive MakesRoom (t : Table α) (hash : UInt64) (accepts : α → Bool) : Table α → Prop
  | stays (enough : ∀ policy, t.sizing = .growing policy → ¬t.NeedsRoom policy hash accepts) :
      MakesRoom t hash accepts t
  | grows {policy : GrowthPolicy} {t' : Table α} (sizing : t.sizing = .growing policy)
      (needs : t.NeedsRoom policy hash accepts) (enlarge : t.enlarge policy = .ok t') :
      MakesRoom t hash accepts t'

theorem WellFormed.enlarge_cases (h : t.WellFormed) (policy : GrowthPolicy) :
    (∃ t', t.enlarge policy = .ok t' ∧ Rehoused t t' ∧
        t'.capacity = policy.grownCapacity t.capacity) ∨
      (capacityBound ≤ policy.grownCapacity t.capacity ∧
        t.enlarge policy = .error (.capacityTooLarge (policy.grownCapacity t.capacity))) := by
  rcases h.grow_cases (policy.grownCapacity t.capacity) with hgrow | ⟨hfew, -⟩ | ⟨-, hlarge, hgrow⟩
  · exact .inl hgrow
  · have hmore := policy.lt_grownCapacity t.capacity
    have := h.count_le
    omega
  · exact .inr ⟨hlarge, hgrow⟩

theorem MakesRoom.rehoused (h : MakesRoom t hash accepts t') (ht : t.WellFormed) :
    Rehoused t t' := by
  cases h with
  | stays => exact ht.rehoused
  | grows _ _ henlarge => exact (ht.grow_eq_ok henlarge).1

/-- In a larger array there is an entry, because a slot is empty. -/
theorem WellFormed.exists_locate_of_grow (h : t.WellFormed) {capacity : Nat}
    (hgrow : t.grow capacity = .ok t') (hmore : t.capacity < capacity) (hash : UInt64)
    (accepts : α → Bool) :
    ∃ e, t'.locate hash accepts = .ok e ∧ Locates t' hash accepts e := by
  obtain ⟨hrehoused, hcapacity⟩ := h.grow_eq_ok hgrow
  refine hrehoused.wellFormed.exists_locate ?_ hash accepts
  have hcount := hrehoused.count_eq h
  have hle := h.count_le
  omega

theorem WellFormed.exists_locate_of_enlarge (h : t.WellFormed) {policy : GrowthPolicy}
    (henlarge : t.enlarge policy = .ok t') (hash : UInt64) (accepts : α → Bool) :
    ∃ e, t'.locate hash accepts = .ok e ∧ Locates t' hash accepts e :=
  h.exists_locate_of_grow henlarge (policy.lt_grownCapacity t.capacity) hash accepts

/-- What can come of asking for an entry. -/
inductive EntryCases (t : Table α) (hash : UInt64) (accepts : α → Bool) : Prop
  /-- There is one, possibly after a growth step. -/
  | located (t' : Table α) (e : Entry α) (entry_eq : t.entry hash accepts = .ok e)
      (room : MakesRoom t hash accepts t') (locates : Locates t' hash accepts e)
  /-- The growth step is refused. -/
  | tooLarge (policy : GrowthPolicy) (sizing : t.sizing = .growing policy)
      (needs : t.NeedsRoom policy hash accepts)
      (large : capacityBound ≤ policy.grownCapacity t.capacity)
      (entry_eq : t.entry hash accepts =
        .error (.capacityTooLarge (policy.grownCapacity t.capacity)))
  /-- There is no slot for a new entry. -/
  | full (sizing : t.sizing = .bounded) (full : t.count = t.capacity)
      (absent : t.Absent hash accepts)
      (entry_eq : t.entry hash accepts = .error (.unhandled (.capacityExceeded t.capacity)))

/-- Once a growing table needs room, it has an entry unless its next capacity is too large. -/
theorem WellFormed.entryCases_of_enlarge (h : t.WellFormed) {policy : GrowthPolicy}
    (hsizing : t.sizing = .growing policy) (hneeds : t.NeedsRoom policy hash accepts)
    (hok : ∀ t' e, t.enlarge policy = .ok t' → t'.locate hash accepts = .ok e →
      t.entry hash accepts = .ok e)
    (herror : ∀ fault, t.enlarge policy = .error fault → t.entry hash accepts = .error fault) :
    EntryCases t hash accepts := by
  rcases h.enlarge_cases policy with ⟨t', henlarge, -⟩ | ⟨hlarge, henlarge⟩
  · obtain ⟨e, hlocate, hlocates⟩ := h.exists_locate_of_enlarge henlarge hash accepts
    exact .located t' e (hok t' e henlarge hlocate) (.grows hsizing hneeds henlarge) hlocates
  · exact .tooLarge policy hsizing hneeds hlarge (herror _ henlarge)

theorem WellFormed.entry_cases (h : t.WellFormed) (hash : UInt64) (accepts : α → Bool) :
    EntryCases t hash accepts := by
  cases hsizing : t.sizing with
  | growing policy =>
    have hentry : t.entry hash accepts = t.growingEntry policy hash accepts := by
      simp only [entry, hsizing]
    unfold growingEntry at hentry
    cases hneeds : policy.needsGrowth t.count t.capacity with
    | true =>
      simp only [hneeds, if_true, bind, Except.bind, pure, Except.pure] at hentry
      refine h.entryCases_of_enlarge hsizing (.inl hneeds) ?_ ?_
      · intro t' e henlarge hlocate
        simpa only [henlarge, hlocate] using hentry
      · intro fault henlarge
        simpa only [henlarge] using hentry
    | false =>
      simp only [hneeds, Bool.false_eq_true, if_false, bind, Except.bind, pure,
        Except.pure] at hentry
      rcases h.locate_cases hash accepts with ⟨e, hlocate, hlocates⟩ | ⟨hlocate, hfull, habsent⟩
      · refine .located t e (by simpa only [hlocate] using hentry) (.stays ?_) hlocates
        rintro policy' hsizing' (hneeds' | ⟨hfull, habsent⟩)
        · cases hsizing.symm.trans hsizing'
          rw [hneeds] at hneeds'
          cases hneeds'
        · exact hlocates.not_absent_of_full h hfull habsent
      · rw [hlocate] at hentry
        refine h.entryCases_of_enlarge hsizing (.inr ⟨hfull, habsent⟩) ?_ ?_
        · intro t' e henlarge hlocate
          simpa only [henlarge, hlocate] using hentry
        · intro fault henlarge
          simpa only [henlarge] using hentry
  | bounded =>
    rcases h.locate_cases hash accepts with ⟨e, hlocate, hlocates⟩ | ⟨hlocate, hfull, habsent⟩
    · refine .located t e (by simp only [entry, hsizing, hlocate]) (.stays ?_) hlocates
      intro policy hgrowing
      rw [hsizing] at hgrowing
      cases hgrowing
    · exact .full hsizing hfull habsent (by simp only [entry, hsizing, hlocate])

/-- An entry that a table hands out is well-formed. -/
theorem WellFormed.entry_eq_ok (h : t.WellFormed) {e : Entry α}
    (hentry : t.entry hash accepts = .ok e) :
    ∃ t', MakesRoom t hash accepts t' ∧ Rehoused t t' ∧ Locates t' hash accepts e := by
  cases h.entry_cases hash accepts with
  | located t' e' hok hroom hlocates =>
    rw [hentry] at hok
    cases hok
    exact ⟨t', hroom, hroom.rehoused h, hlocates⟩
  | tooLarge _ _ _ _ herror =>
    rw [hentry] at herror
    cases herror
  | full _ _ _ herror =>
    rw [hentry] at herror
    cases herror

theorem WellFormed.locate_eq_ok (h : t.WellFormed) {e : Entry α}
    (hlocate : t.locate hash accepts = .ok e) : Locates t hash accepts e := by
  rcases h.locate_cases hash accepts with ⟨e', hok, hlocates⟩ | ⟨herror, -⟩
  · rw [hlocate] at hok
    cases hok
    exact hlocates
  · rw [hlocate] at herror
    cases herror

end Table

end LinearProbing

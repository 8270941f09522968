-- SUMMARY: The operations on tables as data, the tables they can reach, and the invariant of all of them.
import LinearProbing.Proofs.Table.Entry

/-! # Runs of a table

An operation that changes a table is a value of `Table.Op`; a fault leaves the table as it was.
`Table.Reachable` holds of the tables that any operations in any order lead to. Hashes and
predicates are arbitrary throughout: nothing relates the predicate of one operation to the hash or
to the predicates of others.
-/

namespace LinearProbing

universe u

variable {α : Type u}

theorem ok_of_toOption {ε β : Type*} {result : Except ε β} {b : β}
    (h : result.toOption = some b) : result = .ok b := by
  cases result with
  | ok b' =>
    cases h
    rfl
  | error _ => cases h

/-- What a caller does with an entry. -/
inductive EntryUse (α : Type u)
  /-- Stores the item if the entry is vacant, and then changes what is stored. -/
  | orInsertWith (item : Unit → α) (update : α → α)
  /-- Changes the item of an occupied entry. -/
  | andModify (update : α → α)
  /-- Stores the item, if there is one, in a vacant entry; changes the item of an occupied one and
  may then take it out. -/
  | branch (item? : Option α) (update : α → α) (removes : Bool)

namespace EntryUse

/-- The table that results from the use of an entry. -/
def result (use : EntryUse α) (e : Entry α) : Table α :=
  match use with
  | .orInsertWith item update => ((e.orInsertWith item).modify update).table
  | .andModify update => (e.andModify update).table
  | .branch item? update removes =>
    match e with
    | .vacant e => item?.elim e.table fun item => (e.insert item).table
    | .occupied e =>
      if removes then (e.modify update).remove.2 else (e.modify update).table

theorem wellFormed_result (use : EntryUse α) {e : Entry α} (h : e.WellFormed) :
    (use.result e).WellFormed := by
  cases use with
  | orInsertWith item update => exact OccupiedEntry.wellFormed_modify (h.orInsertWith item) update
  | andModify update => exact (h.andModify update).table
  | branch item? update removes =>
    cases e with
    | vacant e =>
      cases item? with
      | none => exact VacantEntry.WellFormed.table h
      | some item => exact VacantEntry.WellFormed.insert h item
    | occupied e =>
      have hmodify := OccupiedEntry.wellFormed_modify h update
      cases removes with
      | false => exact hmodify
      | true => exact OccupiedEntry.wellFormed_remove hmodify

end EntryUse

namespace Table

/-- The operations that may change a table. Every one is allowed on every table, also where a
bounded table does not offer it. -/
inductive Op (α : Type u) : Type (max 1 u)
  | entry (hash : UInt64) (accepts : α → Bool) (use : EntryUse α)
  | tryEntry (hash : UInt64) (accepts : α → Bool) (use : EntryUse α)
  | modify (hash : UInt64) (accepts : α → Bool) (update : α → α)
  | remove (hash : UInt64) (accepts : α → Bool)
  /-- Changes items in a traversal that need not reach all of them. -/
  | visit (script : List (Traversal.End × (α → α)))
  | clear
  | drain
  | grow (capacity : Nat)
  | reserve (additional : Nat)
  | shrinkToFit
  | retain {σ : Type} (select : σ → α → σ × Option α) (state : σ)

/-- What an operation makes of a table, if it succeeds. -/
def Op.result? (t : Table α) : Op α → Option (Table α)
  | .entry hash accepts use => (t.entry hash accepts).toOption.map use.result
  | .tryEntry hash accepts use => (t.locate hash accepts).toOption.map use.result
  | .modify hash accepts update => (t.modify? hash accepts update).map (·.2)
  | .remove hash accepts => (t.remove? hash accepts).map (·.2)
  | .visit script => some (t.visited (t.traversal.visit script).2)
  | .clear => some t.clear
  | .drain => some t.drain.2
  | .grow capacity => (t.grow capacity).toOption
  | .reserve additional => (t.reserve additional).toOption
  | .shrinkToFit => t.shrinkToFit.toOption
  | .retain select state => (t.retain select state).toOption.map (·.2)

/-- The table after an operation. -/
def Op.after (t : Table α) (op : Op α) : Table α := (op.result? t).getD t

/-- The tables that a program can start with. -/
inductive Starts : Table α → Prop
  | ofPolicy (policy : GrowthPolicy) : Starts (.ofPolicy α policy)
  | ofCapacity {policy : GrowthPolicy} {capacity : Nat} {t : Table α}
      (ok : Table.ofCapacity α policy capacity = .ok t) : Starts t
  | ofBound (capacity : Nat) : Starts (.ofBound α capacity)

/-- The tables that operations lead to, in any order. -/
inductive Reachable : Table α → Prop
  | start {t : Table α} (starts : Starts t) : Reachable t
  | step {t : Table α} (reachable : Reachable t) (op : Op α) : Reachable (op.after t)

variable {t t' : Table α}

theorem WellFormed.result? (h : t.WellFormed) {op : Op α} (hop : op.result? t = some t') :
    t'.WellFormed := by
  cases op with
  | entry hash accepts use =>
    obtain ⟨e, hentry, rfl⟩ := Option.map_eq_some_iff.1 hop
    obtain ⟨t', -, hrehoused, hlocates⟩ := h.entry_eq_ok (ok_of_toOption hentry)
    exact use.wellFormed_result (hlocates.wellFormed hrehoused.wellFormed)
  | tryEntry hash accepts use =>
    obtain ⟨e, hlocate, rfl⟩ := Option.map_eq_some_iff.1 hop
    have hlocates := h.locate_eq_ok (ok_of_toOption hlocate)
    exact use.wellFormed_result (hlocates.wellFormed h)
  | modify hash accepts update =>
    obtain ⟨⟨item, t'⟩, hmodify, rfl⟩ := Option.map_eq_some_iff.1 hop
    exact h.modify? hmodify
  | remove hash accepts =>
    obtain ⟨⟨item, t'⟩, hremove, rfl⟩ := Option.map_eq_some_iff.1 hop
    exact h.remove? hremove
  | visit script =>
    cases hop
    exact h.visited (Traversal.hashAt?_visit t.traversal script)
  | clear =>
    cases hop
    exact wellFormed_clear t
  | drain =>
    cases hop
    exact wellFormed_clear t
  | grow capacity => exact (h.grow_eq_ok (ok_of_toOption hop)).1.wellFormed
  | reserve additional => exact (h.reserve_eq_ok (ok_of_toOption hop)).wellFormed
  | shrinkToFit => exact (h.shrinkToFit_eq_ok (ok_of_toOption hop)).1.wellFormed
  | retain select state =>
    obtain ⟨⟨last, t'⟩, hretain, rfl⟩ := Option.map_eq_some_iff.1 hop
    obtain ⟨t₁, hretain₁, hwf, -⟩ := t.retain_spec select state
    rw [ok_of_toOption hretain] at hretain₁
    cases hretain₁
    exact hwf

/-- The step lemma: no operation breaks the invariant. -/
theorem WellFormed.after (h : t.WellFormed) (op : Op α) : (op.after t).WellFormed := by
  unfold Op.after
  cases hop : op.result? t with
  | some t' => exact h.result? hop
  | none => exact h

theorem Starts.eq_fresh (h : Starts t) : ∃ sizing capacity, t = fresh α sizing capacity := by
  cases h with
  | ofPolicy policy => exact ⟨_, _, rfl⟩
  | ofCapacity hok =>
    unfold Table.ofCapacity at hok
    split at hok
    · cases hok
      exact ⟨_, _, rfl⟩
    · cases hok
  | ofBound capacity => exact ⟨_, _, rfl⟩

theorem Starts.wellFormed (h : Starts t) : t.WellFormed := by
  obtain ⟨sizing, capacity, rfl⟩ := h.eq_fresh
  exact wellFormed_fresh sizing capacity

theorem Reachable.wellFormed (h : t.Reachable) : t.WellFormed := by
  induction h with
  | start hstarts => exact hstarts.wellFormed
  | step _ op ih => exact ih.after op

/-- Two entries that arrive one after the other in a table of two slots. -/
def pair (first second : UInt64) : Table Nat :=
  let use : EntryUse Nat := .branch (some 0) id false
  Op.after (Op.after (.ofBound Nat 2) (.entry first (fun _ => false) use))
    (.entry second (fun _ => false) use)

theorem reachable_pair (first second : UInt64) : (pair first second).Reachable :=
  .step (.step (.start (.ofBound 2)) _) _

end Table

end LinearProbing

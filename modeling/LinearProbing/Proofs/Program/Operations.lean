-- SUMMARY: Every operation on a table as a program: it comes to what the operation yields, and checks never fail.
import LinearProbing.Proofs.Program.Entry
import LinearProbing.Proofs.Program.Visits
import LinearProbing.Proofs.Table.Refusals

/-! # Programs for operations

The program of an operation comes to what the operation yields, in every table with fewer slots than
the bound: it ends, none of its checks fails, and a fault leaves the table as it was.
-/

namespace LinearProbing

/-- No operation adds so many slots that the bound is reached. -/
theorem Table.Addressable.after {α : Type} {t : Table α} (h : t.Addressable) (op : Op α) :
    (op.after t).Addressable := by
  refine ⟨h.wellFormed.after op, ?_⟩
  obtain ⟨-, hresized⟩ := h.wellFormed.frame_after op
  generalize (op.after t).capacity = capacity at hresized
  cases hresized with
  | stays => exact h.lt_bound
  | grows _ _ hbelow => exact hbelow
  | asked hbelow => exact hbelow
  | shrinks => exact Nat.lt_of_le_of_lt h.wellFormed.count_le h.lt_bound

theorem Table.Leads.addressable {α : Type} {t t' : Table α} {Allowed : Op α → Prop}
    (h : Leads Allowed t t') (ht : t.Addressable) : t'.Addressable := by
  induction h with
  | refl => exact ht
  | tail _ hstep ih =>
    obtain ⟨op, -, rfl⟩ := hstep
    exact ih.after op

namespace Program

variable {α β : Type} {t : Table α}

/-! ## Entries in use -/

/-- Does with the entry at a place what a caller wants. -/
def use : EntryUse α → Handle → Program (Table α) Unit
  | .orInsertWith item update, handle => do
    let index ← orInsertWith item handle
    let _ ← changeIn index update
  | .andModify _, .vacant _ _ => pure ()
  | .andModify update, .occupied index => do
    let _ ← changeIn index update
  | .branch item? _ _, .vacant index hash => item?.elim (pure ()) (insertAt index hash)
  | .branch _ update removes, .occupied index => do
    let _ ← changeIn index update
    if removes then
      let _ ← removeIn index

theorem addressable_modify {e : OccupiedEntry α} (h : e.table.Addressable) (update : α → α) :
    (e.modify update).table.Addressable :=
  ⟨OccupiedEntry.wellFormed_modify h.wellFormed update, h.lt_bound⟩

theorem exec_orInsertWith (item : Unit → α) (e : LinearProbing.Entry α)
    (h : e.table.Addressable) :
    exec (orInsertWith item (.ofEntry e)) e.table =
      .some (.ok (e.orInsertWith item).index.val, (e.orInsertWith item).table) := by
  cases e with
  | occupied e => rfl
  | vacant e =>
    have hinsert := exec_insertAt e h (item ())
    simp only [Handle.ofEntry, orInsertWith, exec_bind, Entry.table, hinsert, Part.bind_some,
      resume_ok]
    rfl

theorem exec_use (u : EntryUse α) (e : LinearProbing.Entry α) (h : e.table.Addressable) :
    exec (use u (.ofEntry e)) e.table = .some (.ok (), u.result e) := by
  cases u with
  | orInsertWith item update =>
    simp only [use, exec_bind, exec_orInsertWith item e h, exec_changeIn, Part.bind_some, resume_ok]
    rfl
  | andModify update =>
    cases e with
    | vacant e => rfl
    | occupied e =>
      simp only [Handle.ofEntry, use, exec_bind, Entry.table, exec_changeIn, Part.bind_some,
        resume_ok]
      rfl
  | branch item? update removes =>
    cases e with
    | vacant e =>
      cases item? with
      | none => rfl
      | some item => exact exec_insertAt e h item
    | occupied e =>
      simp only [Handle.ofEntry, use, exec_bind, Entry.table, exec_changeIn, Part.bind_some,
        resume_ok]
      cases removes with
      | false => rfl
      | true =>
        have hremove := exec_removeIn (e.modify update) (addressable_modify h update)
        exact exec_bind_of_ok hremove _

/-! ## Operations -/

/-- The program of an operation. -/
def run : Table.Op α → Program (Table α) Unit
  | .entry hash accepts u => do
    let handle ← entry hash accepts
    use u handle
  | .tryEntry hash accepts u => do
    match ← locate hash accepts with
    | some handle => use u handle
    | none => pure ()
  | .modify hash accepts update => do
    let _ ← modify hash accepts update
  | .remove hash accepts => do
    let _ ← remove hash accepts
  | .visit script => do
    let _ ← onTraversal (visit script)
  | .clear => clear
  | .drain => do
    let _ ← drain
  | .grow capacity => grow capacity
  | .reserve additional => reserve additional
  | .shrinkToFit => shrinkToFit
  | .retain select state => do
    let _ ← retain select state

theorem addressable_of_entry (h : t.Addressable) {hash : UInt64} {accepts : α → Bool}
    {e : LinearProbing.Entry α} (hentry : t.entry hash accepts = .ok e) : e.table.Addressable := by
  obtain ⟨t', hroom, hrehoused, hlocates⟩ := h.wellFormed.entry_eq_ok hentry
  rw [hlocates.table_eq]
  refine ⟨hrehoused.wellFormed, ?_⟩
  cases hroom with
  | stays => exact h.lt_bound
  | grows _ _ henlarge =>
    rw [(h.wellFormed.grow_eq_ok henlarge).2]
    exact Table.lt_bound_of_grow henlarge

/-- What is done with the entry of a hash and a predicate comes to what the functions yield, if it
does so with every entry. -/
theorem exec_entry_bind (h : t.Addressable) (hash : UInt64) (accepts : α → Bool)
    {f : Handle → Program (Table α) β} {next : LinearProbing.Entry α → β × Table α}
    (hnext : ∀ e : LinearProbing.Entry α, e.table.Addressable →
      exec (f (.ofEntry e)) e.table = .some (.ok (next e).1, (next e).2)) :
    exec (entry hash accepts >>= f) t = attempt t ((t.entry hash accepts).map next) := by
  rw [exec_bind, exec_entry h]
  cases hentry : t.entry hash accepts with
  | ok e => exact (Part.bind_some _ _).trans (hnext e (addressable_of_entry h hentry))
  | error fault => exact Part.bind_some _ _

theorem exec_run (h : t.Addressable) (op : Table.Op α) :
    exec (run op) t = attempt t ((op.outcome t).map ((), ·)) := by
  cases op with
  | entry hash accepts u =>
    have hrun : exec (run (.entry hash accepts u)) t =
        attempt t ((t.entry hash accepts).map fun e => ((), u.result e)) :=
      exec_entry_bind h hash accepts (exec_use u)
    refine hrun.trans ?_
    rw [Table.Op.outcome]
    cases t.entry hash accepts <;> rfl
  | tryEntry hash accepts u =>
    rw [run, exec_bind_of_ok (exec_locate h hash accepts), Table.Op.outcome]
    cases hlocate : t.locate hash accepts with
    | ok e =>
      obtain rfl := (h.wellFormed.locate_eq_ok hlocate).table_eq
      exact exec_use u e h
    | error error => rfl
  | modify hash accepts update =>
    rw [run, exec_bind, exec_modify h, Table.Op.outcome]
    cases t.modify? hash accepts update <;> exact Part.bind_some _ _
  | remove hash accepts =>
    rw [run, exec_bind, exec_remove h, Table.Op.outcome]
    cases t.remove? hash accepts <;> exact Part.bind_some _ _
  | visit script =>
    have hvisit := exec_onTraversal (t := t) (visit script) (exec_visit t.traversal script)
    exact exec_bind_of_ok hvisit _
  | clear => exact exec_clear t
  | drain => exact exec_bind_of_ok (exec_drain t) _
  | grow capacity => exact exec_grow h capacity
  | reserve additional => exact exec_reserve h additional
  | shrinkToFit => exact exec_shrinkToFit h
  | retain select state =>
    rw [run, exec_bind, exec_retain h, Table.Op.outcome]
    cases t.retain select state <;> exact Part.bind_some _ _

end Program

end LinearProbing

-- SUMMARY: The programs that move cursors and visit entries, with their checks on positions and counters.
import LinearProbing.Proofs.Program.Table

/-! # Programs that visit entries

A cursor cuts the array at its position before it looks for the next entry, and a traversal counts
its entries down. No cut is out of range and no counter falls below zero.
-/

namespace LinearProbing

namespace Program

variable {α β σ σ' : Type} {n : Nat}

/-! ## Cursors -/

/-- The item at a position; nothing at the end. -/
def itemAt (position : Nat) : Program (Slots α n) (Option α) := do
  let s ← get
  if h : position < n then pure ((s.get ⟨position, h⟩).map (·.item)) else pure none

/-- The position of the next entry, or the end. -/
def nextPosition (position : Nat) : Program (Slots α n) Nat := do
  let s ← get
  let start ← if position = n then pure 0 else add position 1
  require (start ≤ n) .outOfRange
  pure ((s.first? Option.isSome start n).elim n (·.val))

/-- The position of the previous entry, or the end. -/
def prevPosition (position : Nat) : Program (Slots α n) Nat := do
  let s ← get
  require (position ≤ n) .outOfRange
  pure ((s.last? Option.isSome 0 position).elim n (·.val))

theorem exec_itemAt (c : Cursor α n) :
    exec (itemAt c.index) c.slots = .some (.ok c.item?, c.slots) := by
  obtain ⟨s, position⟩ := c
  simp only [itemAt, exec_bind, exec_get, Part.bind_some, resume_ok]
  cases position with
  | none =>
    have hend : ¬(Cursor.mk s none).index < n := Nat.lt_irrefl n
    rw [dif_neg hend]
    rfl
  | some i =>
    have hlt : (Cursor.mk s (some i)).index < n := i.isLt
    rw [dif_pos hlt]
    rfl

theorem exec_nextPosition (hbound : n < capacityBound) (c : Cursor α n) :
    exec (nextPosition c.index) c.slots = .some (.ok c.next.index, c.slots) := by
  obtain ⟨s, position⟩ := c
  simp only [nextPosition, exec_bind, exec_get, Part.bind_some, resume_ok]
  cases position with
  | none =>
    have hend : (Cursor.mk s none).index = n := rfl
    rw [if_pos hend]
    simp only [exec_bind, exec_pure, exec_require (Nat.zero_le n), Part.bind_some, resume_ok]
    rfl
  | some i =>
    have hword : i.val + 1 ≤ largestCount := lt_largestCount (i.isLt.trans hbound)
    have hstart : i.val + 1 ≤ n := i.isLt
    have hne : (Cursor.mk s (some i)).index ≠ n := Nat.ne_of_lt i.isLt
    rw [if_neg hne]
    simp only [Cursor.index, Option.elim, exec_bind, exec_add hword, exec_require hstart,
      Part.bind_some, resume_ok, exec_pure]
    rfl

theorem exec_prevPosition (c : Cursor α n) :
    exec (prevPosition c.index) c.slots = .some (.ok c.prev.index, c.slots) := by
  have hle : c.index ≤ n := by
    obtain ⟨s, position⟩ := c
    cases position with
    | none => exact Nat.le_refl n
    | some i => exact i.isLt.le
  simp only [prevPosition, exec_bind, exec_get, exec_require hle, Part.bind_some, resume_ok,
    exec_pure]
  rfl

/-! ## Traversals -/

/-- Visits one entry from the given end and counts it. -/
def visitOne (side : Traversal.End) (update : α → α) : Program (Traversal α n) (Option α) := do
  let t ← get
  match t.stepWith? side update with
  | none => pure none
  | some (item, next) =>
    let remaining ← subtract t.remaining 1
    set { next with remaining }
    pure (some item)

def visit : List (Traversal.End × (α → α)) → Program (Traversal α n) (List α)
  | [] => pure []
  | (side, update) :: script => do
    match ← visitOne side update with
    | none => visit script
    | some item =>
      let items ← visit script
      pure (item :: items)

/-- Visits all entries that are left, from the front. -/
def visitAll (update : α → α) : Program (Traversal α n) (List α) := do
  let t ← get
  visit ((List.replicate t.remaining update).map (.front, ·))

theorem exec_visitOne (t : Traversal α n) (side : Traversal.End) (update : α → α) :
    exec (visitOne side update) t = optionally t (t.stepWith? side update) := by
  simp only [visitOne, exec_bind, exec_get, Part.bind_some, resume_ok]
  cases hstep : t.stepWith? side update with
  | none => rfl
  | some result =>
    have hremaining := Traversal.remaining_stepWith? hstep
    have hpos : 1 ≤ t.remaining := by omega
    have hcount : t.remaining - 1 = result.2.remaining := by omega
    simp only [exec_bind, exec_subtract hpos, exec_set, exec_pure, Part.bind_some, resume_ok,
      hcount, optionally_some]

theorem exec_visit (t : Traversal α n) (script : List (Traversal.End × (α → α))) :
    exec (visit script) t = .some (.ok (t.visit script).1, (t.visit script).2) := by
  induction script generalizing t with
  | nil => rfl
  | cons step script ih =>
    obtain ⟨side, update⟩ := step
    simp only [visit, Traversal.visit, exec_bind, exec_visitOne]
    cases t.stepWith? side update with
    | none =>
      simp only [optionally_none, Part.bind_some, resume_ok]
      exact ih t
    | some result =>
      simp only [optionally_some, exec_bind, Part.bind_some, resume_ok, ih result.2, exec_pure]

theorem exec_visitAll (t : Traversal α n) (update : α → α) :
    exec (visitAll update) t = .some (.ok (t.restWith update).1, (t.restWith update).2) := by
  simp only [visitAll, exec_bind, exec_get, Part.bind_some, resume_ok, exec_visit,
    Traversal.restWith_eq_visit]

/-! ## Visits of a table -/

/-- Runs a program on another state. -/
def aside (s' : σ') (p : Program σ' β) : Program σ β :=
  ExceptT.mk fun s => (exec p s').map fun result => (result.1, s)

/-- Runs a program on a traversal of the table. -/
def onTraversal (p : ∀ {n}, Program (Traversal α n) β) : Program (Table α) β :=
  ExceptT.mk fun t => (exec (p (n := t.capacity)) t.traversal).map fun result =>
    (result.1, t.visited result.2)

/-- The items in slot order. -/
def toList : Program (Table α) (List α) := do
  let t ← get
  aside t.traversal (visitAll id)

/-- Removes all entries, and hands out their items in slot order. -/
def drain : Program (Table α) (List α) := do
  let t ← get
  clear
  aside t.traversal (visitAll id)

theorem exec_aside {s' s'' : σ'} {p : Program σ' β} {result : Except Stop β}
    (h : exec p s' = .some (result, s'')) (s : σ) : exec (aside s' p) s = .some (result, s) := by
  have hmap : exec (aside s' p) s = (exec p s').map fun result => (result.1, s) := rfl
  rw [hmap, h, Part.map_some]

theorem exec_onTraversal {t : Table α} (p : ∀ {n}, Program (Traversal α n) β)
    {result : Except Stop β × Traversal α t.capacity}
    (h : exec (p (n := t.capacity)) t.traversal = .some result) :
    exec (onTraversal p) t = .some (result.1, t.visited result.2) := by
  have hmap : exec (onTraversal p) t = (exec (p (n := t.capacity)) t.traversal).map fun result =>
      (result.1, t.visited result.2) := rfl
  rw [hmap, h, Part.map_some]

theorem exec_toList (t : Table α) : exec toList t = .some (.ok t.toList, t) := by
  simp only [toList, exec_bind, exec_get, Part.bind_some, resume_ok]
  exact exec_aside (exec_visitAll t.traversal id) t

theorem exec_drain (t : Table α) : exec drain t = .some (.ok t.drain.1.rest, t.drain.2) := by
  simp only [drain, exec_bind, exec_get, exec_clear, Part.bind_some, resume_ok]
  exact exec_aside (exec_visitAll t.traversal id) t.clear

end Program

end LinearProbing

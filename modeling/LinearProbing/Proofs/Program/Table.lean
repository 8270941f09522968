-- SUMMARY: The programs that look up, change, visit and remove the entries of a table.
import LinearProbing.Proofs.Program.Slots
import LinearProbing.Proofs.Table.WellFormed

/-! # Programs on tables

Lookups and removals as programs on a table. They come to what the functions on tables yield.
-/

namespace LinearProbing

/-- A well-formed table with fewer slots than the bound. -/
structure Table.Addressable {α : Type} (t : Table α) : Prop where
  wellFormed : t.WellFormed
  lt_bound : t.capacity < capacityBound

theorem Table.Addressable.count_lt {α : Type} {t : Table α} (h : t.Addressable) :
    t.count < largestCount :=
  Nat.lt_of_le_of_lt h.wellFormed.count_le (Program.lt_largestCount h.lt_bound)

namespace Program

variable {α β : Type} {t : Table α}

/-- Runs a program on the slots of a table. -/
def onSlots (p : ∀ {n}, Program (Slots α n) β) : Program (Table α) β :=
  ExceptT.mk fun t => (exec (p (n := t.capacity)) t.slots).map fun result =>
    (result.1, { t with slots := result.2 })

theorem exec_onSlots (p : ∀ {n}, Program (Slots α n) β)
    {result : Except Stop β × Slots α t.capacity}
    (h : exec (p (n := t.capacity)) t.slots = .some result) :
    exec (onSlots p) t = .some (result.1, { t with slots := result.2 }) := by
  have hmap : exec (onSlots p) t = (exec (p (n := t.capacity)) t.slots).map fun result =>
      (result.1, { t with slots := result.2 }) := rfl
  rw [hmap, h, Part.map_some]

theorem exec_onSlots_optionally (p : ∀ {n}, Program (Slots α n) (Option β))
    {result? : Option (β × Slots α t.capacity)}
    (h : exec (p (n := t.capacity)) t.slots = optionally t.slots result?) :
    exec (onSlots p) t =
      optionally t (result?.map fun result => (result.1, { t with slots := result.2 })) := by
  cases result? with
  | none => exact exec_onSlots p h
  | some result => exact exec_onSlots p h

/-! ## Lookups -/

/-- The slot of the entry that matches. -/
def seek (hash : UInt64) (accepts : α → Bool) : Program (Table α) (Option Nat) := do
  let t ← get
  if t.skipsSearch then pure none
  else
    match ← onSlots (probe hash accepts) with
    | .found i => pure (some i)
    | .vacant _ => pure none
    | .full => pure none

def find (hash : UInt64) (accepts : α → Bool) : Program (Table α) (Option α) := do
  match ← seek hash accepts with
  | some i =>
    let slot ← onSlots (read i)
    pure (slot.map (·.item))
  | none => pure none

/-- Changes the item that matches, and yields it. -/
def modify (hash : UInt64) (accepts : α → Bool) (update : α → α) :
    Program (Table α) (Option α) := do
  match ← seek hash accepts with
  | some i => onSlots (change i update)
  | none => pure none

/-- The position of a cursor at the entry that matches, or at the end. -/
def cursor (hash : UInt64) (accepts : α → Bool) : Program (Table α) Nat := do
  match ← seek hash accepts with
  | some i =>
    let slot ← onSlots (read i)
    require (slot.isSome = true) .assertion
    pure i
  | none =>
    let t ← get
    pure t.capacity

/-- Takes out the item that matches. -/
def remove (hash : UInt64) (accepts : α → Bool) : Program (Table α) (Option α) := do
  match ← seek hash accepts with
  | some i =>
    let t ← get
    let count ← subtract t.count 1
    set { t with count }
    let cell? ← onSlots (vacate i)
    pure (cell?.map (·.item))
  | none => pure none

/-- Removes all entries and keeps the slots. -/
def clear : Program (Table α) Unit := do
  let t ← get
  set { t with slots := .empty α t.capacity, count := 0 }

variable {hash : UInt64} {accepts : α → Bool}

theorem exec_seek (h : t.Addressable) (hash : UInt64) (accepts : α → Bool) :
    exec (seek hash accepts) t = .some (.ok ((t.seek? hash accepts).map (·.1.val)), t) := by
  have hprobe := exec_onSlots (probe hash accepts) (exec_probe h.lt_bound hash accepts t.slots)
  unfold seek Table.seek?
  simp only [exec_bind, exec_get, Part.bind_some, resume_ok]
  split
  · rfl
  · simp only [exec_bind, hprobe, Part.bind_some, resume_ok]
    cases t.slots.probe hash accepts <;> rfl

theorem exec_find (h : t.Addressable) (hash : UInt64) (accepts : α → Bool) :
    exec (find hash accepts) t = .some (.ok (t.find? hash accepts), t) := by
  unfold find Table.find?
  simp only [exec_bind, exec_seek h, Part.bind_some, resume_ok]
  cases hseek : t.seek? hash accepts with
  | none => rfl
  | some result =>
    have hread := exec_onSlots (read result.1.val) (exec_read t.slots result.1)
    have hcell := (Table.seek?_eq_some hseek).1
    simp only [Option.map_some, exec_bind, hread, hcell, Part.bind_some, resume_ok, exec_pure]

theorem exec_modify (h : t.Addressable) (hash : UInt64) (accepts : α → Bool) (update : α → α) :
    exec (modify hash accepts update) t = optionally t (t.modify? hash accepts update) := by
  unfold modify Table.modify?
  simp only [exec_bind, exec_seek h, Part.bind_some, resume_ok]
  cases t.seek? hash accepts with
  | none => rfl
  | some result =>
    have hchange := exec_onSlots_optionally (change result.1.val update)
      (exec_change t.slots result.1 update)
    refine hchange.trans ?_
    cases hupdate : t.slots.updateAt? result.1 update with
    | none => simp only [Option.bind_eq_bind, Option.bind_some, Option.bind_none, Option.map_none,
        hupdate]
    | some updated => simp only [Option.bind_eq_bind, Option.bind_some, Option.map_some, hupdate]

theorem exec_cursor (h : t.Addressable) (hash : UInt64) (accepts : α → Bool) :
    exec (cursor hash accepts) t = .some (.ok (t.cursor hash accepts).index, t) := by
  unfold cursor Table.cursor
  simp only [exec_bind, exec_seek h, Part.bind_some, resume_ok]
  cases hseek : t.seek? hash accepts with
  | none =>
    simp only [Option.map_none, exec_bind, exec_get, Part.bind_some, resume_ok, exec_pure]
    rfl
  | some result =>
    have hread := exec_onSlots (read result.1.val) (exec_read t.slots result.1)
    have hcell := (Table.seek?_eq_some hseek).1
    have hsome : (t.slots.get result.1).isSome = true := by rw [hcell]; rfl
    simp only [Option.map_some, exec_bind, hread, exec_require hsome, Part.bind_some, resume_ok,
      exec_pure]
    rfl

theorem exec_remove (h : t.Addressable) (hash : UInt64) (accepts : α → Bool) :
    exec (remove hash accepts) t = optionally t (t.remove? hash accepts) := by
  unfold remove Table.remove?
  simp only [exec_bind, exec_seek h, Part.bind_some, resume_ok]
  cases hseek : t.seek? hash accepts with
  | none => rfl
  | some result =>
    have hcell := (Table.seek?_eq_some hseek).1
    have hpos : 1 ≤ t.count := h.wellFormed.count_pos hcell
    have htaken : t.slots.vacate? result.1 =
        some (result.2, (Gap.ofTaken t.slots result.1).close) := by
      rw [Slots.vacate?, hcell]
      rfl
    have hvacate := exec_onSlots_optionally (t := { t with count := t.count - 1 })
      (vacate result.1.val) (exec_vacate h.lt_bound result.1 t.slots)
    rw [htaken] at hvacate
    simp only [Option.map_some, exec_bind, exec_get, exec_subtract hpos, exec_set, exec_pure,
      Part.bind_some, resume_ok, hvacate, optionally_some, Option.bind_eq_bind, Option.bind_some,
      Table.takeAt?_of_get hcell]
    rfl

theorem exec_clear (t : Table α) : exec clear t = .some (.ok (), t.clear) := by
  simp only [clear, exec_bind, exec_get, exec_set, Part.bind_some, resume_ok]
  rfl

end Program

end LinearProbing

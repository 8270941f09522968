-- SUMMARY: The programs that locate an entry, make room for it and use it come to what the functions yield.
import LinearProbing.Proofs.Program.Resize
import LinearProbing.Proofs.Table.Entry

/-! # Programs on entries

An entry is an index here, which says nothing about the slot: that a vacant one is empty and an
occupied one is not is checked where the entry is used. The checks do not fail for the entries that
a table hands out.
-/

namespace LinearProbing

namespace Program

variable {α : Type} {t t' : Table α} {hash : UInt64} {accepts : α → Bool}

/-- The place of an item in a table, by the index of its slot. -/
inductive Handle
  | occupied (index : Nat)
  | vacant (index : Nat) (hash : UInt64)

/-- The place that an entry is about. -/
def Handle.ofEntry : LinearProbing.Entry α → Handle
  | .vacant e => .vacant e.index e.hash
  | .occupied e => .occupied e.index

/-! ## Locating an entry -/

/-- The place that a search has led to. -/
def Landing.handle? (hash : UInt64) : Landing → Option Handle
  | .found i => some (.occupied i)
  | .vacant i => some (.vacant i hash)
  | .full => none

/-- The entry for a hash and a predicate in the slots that the table has. -/
def locate (hash : UInt64) (accepts : α → Bool) : Program (Table α) (Option Handle) := do
  let landing ← onSlots (probe hash accepts)
  pure (landing.handle? hash)

def enlarge (policy : GrowthPolicy) : Program (Table α) Unit := do
  let t ← get
  grow (← grownCapacity policy t.capacity)

/-- The entry for a hash and a predicate, after a growth step if there is no slot for it. -/
def settle (policy : GrowthPolicy) (hash : UInt64) (accepts : α → Bool) :
    Program (Table α) Handle := do
  match ← locate hash accepts with
  | some handle => pure handle
  | none =>
    enlarge policy
    match ← locate hash accepts with
    | some handle => pure handle
    | none =>
      let t ← get
      throw (.fault (.stillFull t.capacity))

def growingEntry (policy : GrowthPolicy) (hash : UInt64) (accepts : α → Bool) :
    Program (Table α) Handle := do
  let t ← get
  let overloaded ← needsGrowth policy t.count t.capacity
  if overloaded then enlarge policy else pure ()
  settle policy hash accepts

def entry (hash : UInt64) (accepts : α → Bool) : Program (Table α) Handle := do
  let t ← get
  match t.sizing with
  | .growing policy => growingEntry policy hash accepts
  | .bounded =>
    match ← locate hash accepts with
    | some handle => pure handle
    | none => throw (.fault (.unhandled (.capacityExceeded t.capacity)))

theorem handle?_probe (t : Table α) (hash : UInt64) (accepts : α → Bool) :
    (Landing.ofProbe (t.slots.probe hash accepts)).handle? hash =
      (t.locate hash accepts).toOption.map .ofEntry := by
  unfold Table.locate
  split
  · next h => exact congrArg (fun probe => (Landing.ofProbe probe).handle? hash) h
  · next h => exact congrArg (fun probe => (Landing.ofProbe probe).handle? hash) h
  · next h => exact congrArg (fun probe => (Landing.ofProbe probe).handle? hash) h

theorem exec_locate (h : t.Addressable) (hash : UInt64) (accepts : α → Bool) :
    exec (locate hash accepts) t =
      .some (.ok ((t.locate hash accepts).toOption.map .ofEntry), t) := by
  have hprobe := exec_onSlots (probe hash accepts) (exec_probe h.lt_bound hash accepts t.slots)
  simp only [locate, exec_bind, hprobe, Part.bind_some, resume_ok, exec_pure, handle?_probe]

theorem exec_enlarge (h : t.Addressable) (policy : GrowthPolicy) :
    exec (enlarge policy) t = attempt t ((t.enlarge policy).map ((), ·)) := by
  simp only [enlarge, exec_bind, exec_get, exec_grownCapacity h.lt_bound, Part.bind_some, resume_ok]
  exact exec_grow h _

theorem exec_locate_ok (h : t.Addressable) {e : LinearProbing.Entry α}
    (hlocate : t.locate hash accepts = .ok e) :
    exec (locate hash accepts) t = .some (.ok (some (.ofEntry e)), t) := by
  rw [exec_locate h, hlocate]
  rfl

theorem exec_locate_error (h : t.Addressable) {error : Error}
    (hlocate : t.locate hash accepts = .error error) :
    exec (locate hash accepts) t = .some (.ok none, t) := by
  rw [exec_locate h, hlocate]
  rfl

/-- Once a table is enlarged, it has an entry. -/
theorem exec_enlarge_ok (h : t.Addressable) {policy : GrowthPolicy}
    (henlarge : t.enlarge policy = .ok t') (hash : UInt64) (accepts : α → Bool) :
    exec (enlarge policy) t = .some (.ok (), t') ∧
      ∃ e, t'.locate hash accepts = .ok e ∧ e.table = t' ∧
        exec (locate hash accepts) t' = .some (.ok (some (.ofEntry e)), t') := by
  have hgrown : t'.Addressable := by
    obtain ⟨hrehoused, hcapacity⟩ := h.wellFormed.grow_eq_ok henlarge
    refine ⟨hrehoused.wellFormed, ?_⟩
    rw [hcapacity]
    exact Table.lt_bound_of_grow henlarge
  obtain ⟨e, hlocate, hlocates⟩ := h.wellFormed.exists_locate_of_enlarge henlarge hash accepts
  refine ⟨?_, e, hlocate, hlocates.table_eq, exec_locate_ok hgrown hlocate⟩
  rw [exec_enlarge h, henlarge]
  rfl

theorem exec_enlarge_error (h : t.Addressable) {policy : GrowthPolicy} {fault : Fault}
    (henlarge : t.enlarge policy = .error fault) :
    exec (enlarge policy) t = .some (.error (.fault fault), t) := by
  rw [exec_enlarge h, henlarge]
  rfl

/-- What becomes of a growing table that has made room as far as its load demands. -/
def settled (t : Table α) (policy : GrowthPolicy) (hash : UInt64) (accepts : α → Bool) :
    Except Fault (LinearProbing.Entry α) :=
  match t.locate hash accepts with
  | .ok e => .ok e
  | .error _ =>
    (t.enlarge policy).bind fun t =>
      match t.locate hash accepts with
      | .ok e => .ok e
      | .error _ => .error (.stillFull t.capacity)

theorem exec_settle (h : t.Addressable) (policy : GrowthPolicy) (hash : UInt64)
    (accepts : α → Bool) :
    exec (settle policy hash accepts) t =
      attempt t ((settled t policy hash accepts).map fun e => (.ofEntry e, e.table)) := by
  unfold settled
  cases hlocate : t.locate hash accepts with
  | ok e =>
    obtain rfl := (h.wellFormed.locate_eq_ok hlocate).table_eq
    simp only [settle, exec_bind, exec_locate_ok h hlocate, Part.bind_some, resume_ok]
    rfl
  | error error =>
    simp only [settle, exec_bind, exec_locate_error h hlocate, Part.bind_some, resume_ok]
    cases henlarge : t.enlarge policy with
    | ok t' =>
      obtain ⟨hrun, e, hlocate', rfl, hfound⟩ := exec_enlarge_ok h henlarge hash accepts
      simp only [Except.bind, hlocate', hrun, exec_bind, hfound, Part.bind_some, resume_ok]
      rfl
    | error fault =>
      simp only [exec_enlarge_error h henlarge, Part.bind_some, resume_error]
      rfl

theorem growingEntry_eq_bind (t : Table α) (policy : GrowthPolicy) (hash : UInt64)
    (accepts : α → Bool) :
    t.growingEntry policy hash accepts =
      (if policy.needsGrowth t.count t.capacity then t.enlarge policy else .ok t).bind
        fun t => settled t policy hash accepts := by
  unfold Table.growingEntry settled
  split <;> rfl

theorem exec_growingEntry (h : t.Addressable) (policy : GrowthPolicy) (hash : UInt64)
    (accepts : α → Bool) :
    exec (growingEntry policy hash accepts) t =
      attempt t ((t.growingEntry policy hash accepts).map fun e => (.ofEntry e, e.table)) := by
  rw [growingEntry_eq_bind]
  simp only [growingEntry, exec_bind, exec_get, exec_needsGrowth, Part.bind_some, resume_ok]
  cases policy.needsGrowth t.count t.capacity with
  | true =>
    rw [if_pos rfl, if_pos rfl, exec_bind]
    cases henlarge : t.enlarge policy with
    | ok t' =>
      obtain ⟨hrun, e, hlocate, rfl, hfound⟩ := exec_enlarge_ok h henlarge hash accepts
      simp only [hrun, settle, exec_bind, hfound, Part.bind_some, resume_ok, Except.bind, settled,
        hlocate]
      rfl
    | error fault =>
      simp only [exec_enlarge_error h henlarge, Part.bind_some, resume_error]
      rfl
  | false =>
    rw [if_neg Bool.false_ne_true, if_neg Bool.false_ne_true]
    exact exec_settle h policy hash accepts

theorem exec_entry (h : t.Addressable) (hash : UInt64) (accepts : α → Bool) :
    exec (entry hash accepts) t =
      attempt t ((t.entry hash accepts).map fun e => (.ofEntry e, e.table)) := by
  unfold Table.entry
  simp only [entry, exec_bind, exec_get, Part.bind_some, resume_ok]
  cases t.sizing with
  | growing policy => exact exec_growingEntry h policy hash accepts
  | bounded =>
    cases hlocate : t.locate hash accepts with
    | ok e =>
      obtain rfl := (h.wellFormed.locate_eq_ok hlocate).table_eq
      simp only [exec_bind, exec_locate_ok h hlocate, Part.bind_some, resume_ok]
      rfl
    | error error =>
      have hfull : error = .capacityExceeded t.capacity := by
        rcases h.wellFormed.locate_cases hash accepts with ⟨e, hok, -⟩ | ⟨herror, -⟩
        · rw [hlocate] at hok
          cases hok
        · rw [hlocate] at herror
          cases herror
          rfl
      subst hfull
      simp only [exec_bind, exec_locate_error h hlocate, Part.bind_some, resume_ok]
      rfl

/-! ## Using an entry -/

/-- Stores an item in an empty slot. -/
def insertAt (index : Nat) (hash : UInt64) (item : α) : Program (Table α) Unit := do
  let slot ← onSlots (read index)
  require (slot.isNone = true) .assertion
  let t ← get
  let count ← add t.count 1
  set { t with count }
  onSlots (write index (some { hash, item }))
  let filled ← onSlots (read index)
  require (filled.isSome = true) .unreachable

/-- The item in an occupied slot. -/
def itemIn (index : Nat) : Program (Table α) α := do
  match ← onSlots (read index) with
  | some cell => pure cell.item
  | none => throw (.defect .unreachable)

/-- Changes the item in an occupied slot, and yields it. -/
def changeIn (index : Nat) (update : α → α) : Program (Table α) α := do
  match ← onSlots (change index update) with
  | some item => pure item
  | none => throw (.defect .unreachable)

/-- Takes the item out of an occupied slot. -/
def removeIn (index : Nat) : Program (Table α) α := do
  let t ← get
  let count ← subtract t.count 1
  set { t with count }
  match ← onSlots (vacate index) with
  | some cell => pure cell.item
  | none => throw (.defect .unreachable)

/-- Stores the item that is computed if the entry is vacant; yields the slot that holds an item
then. -/
def orInsertWith (item : Unit → α) : Handle → Program (Table α) Nat
  | .vacant index hash => do
    insertAt index hash (item ())
    pure index
  | .occupied index => pure index

theorem exec_insertAt (e : VacantEntry α) (h : e.table.Addressable) (item : α) :
    exec (insertAt e.index e.hash item) e.table = .some (.ok (), (e.insert item).table) := by
  have hread := exec_onSlots (read e.index.val) (exec_read e.table.slots e.index)
  have hempty : (e.table.slots.get e.index).isNone = true := by
    rw [e.empty]
    rfl
  have hword : e.table.count + 1 ≤ largestCount := h.count_lt
  have hwrite := exec_onSlots (t := { e.table with count := e.table.count + 1 })
    (write e.index.val (some { hash := e.hash, item }))
    (exec_write e.table.slots e.index (some { hash := e.hash, item }))
  have hfilled := exec_onSlots (t := (e.insert item).table) (read e.index.val)
    (exec_read (e.insert item).table.slots e.index)
  have hsome : ((e.insert item).table.slots.get e.index).isSome = true :=
    Option.isSome_of_eq_some (e.insert item).holds
  simp only [insertAt, exec_bind, exec_get, exec_set, hread, exec_require hempty, exec_add hword,
    hwrite, Part.bind_some, resume_ok]
  refine (congrArg (Part.bind · _) hfilled).trans ?_
  simp only [Part.bind_some, resume_ok, exec_require hsome]

theorem exec_itemIn (e : OccupiedEntry α) :
    exec (itemIn e.index) e.table = .some (.ok e.item, e.table) := by
  have hread := exec_onSlots (read e.index.val) (exec_read e.table.slots e.index)
  rw [e.holds] at hread
  simp only [itemIn, exec_bind, hread, Part.bind_some, resume_ok]
  rfl

theorem exec_changeIn (e : OccupiedEntry α) (update : α → α) :
    exec (changeIn e.index update) e.table =
      .some (.ok (e.modify update).item, (e.modify update).table) := by
  have hchange := exec_onSlots_optionally (change e.index.val update)
    (exec_change e.table.slots e.index update)
  rw [Slots.updateAt?, e.holds] at hchange
  simp only [changeIn, exec_bind, hchange, Option.map_some, optionally_some, Part.bind_some,
    resume_ok]
  rfl

theorem exec_removeIn (e : OccupiedEntry α) (h : e.table.Addressable) :
    exec (removeIn e.index) e.table = .some (.ok e.remove.1, e.remove.2) := by
  have hpos : 1 ≤ e.table.count := h.wellFormed.count_pos e.holds
  have hvacate := exec_onSlots_optionally (t := { e.table with count := e.table.count - 1 })
    (vacate e.index.val) (exec_vacate h.lt_bound e.index e.table.slots)
  rw [Slots.vacate?, e.holds] at hvacate
  simp only [removeIn, exec_bind, exec_get, exec_subtract hpos, exec_set, hvacate, Option.map_some,
    optionally_some, Part.bind_some, resume_ok]
  rfl

end Program

end LinearProbing

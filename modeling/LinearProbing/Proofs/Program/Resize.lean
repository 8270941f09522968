-- SUMMARY: The programs that move the entries of a table come to what the functions yield, faults included.
import LinearProbing.Proofs.Program.Table
import LinearProbing.Proofs.Table.Frame
import LinearProbing.Proofs.Threshold

/-! # Programs that move entries

A table that is moved to another array loses its slots first and gets its entries back one by one.
A fault on the way would leave it without the others; but all faults come before.
-/

namespace LinearProbing

namespace Program

variable {α β σ τ : Type} {t t' : Table α}

/-! ## Numbers of slots -/

def needsGrowth (policy : GrowthPolicy) (count capacity : Nat) : Program σ Bool := do
  if capacity = 0 then pure true
  else
    let load ← divide (GrowthPolicy.percent count) capacity
    pure (decide (policy.maxLoad < load))

def grownCapacity (policy : GrowthPolicy) (capacity : Nat) : Program σ Nat := do
  if capacity = 0 then pure initialCapacity
  else
    let least ← add capacity 1
    pure (max (policy.scaledCapacity capacity) least)

def capacityFor (policy : GrowthPolicy) (count : Nat) : Program σ Nat := do
  if count = 0 then pure 0
  else
    let divisor ← add policy.maxLoad 1
    let quotient ← divide (GrowthPolicy.percent count) divisor
    add quotient 1

theorem exec_needsGrowth (policy : GrowthPolicy) (count capacity : Nat) (s : σ) :
    exec (needsGrowth policy count capacity) s =
      .some (.ok (policy.needsGrowth count capacity), s) := by
  unfold needsGrowth GrowthPolicy.needsGrowth
  split
  · next hzero => simp [hzero]
  · next hne =>
    simp only [exec_bind, exec_divide (Nat.pos_of_ne_zero hne), Part.bind_some, resume_ok,
      exec_pure]
    simp [hne]

theorem exec_grownCapacity {capacity : Nat} (h : capacity < capacityBound) (policy : GrowthPolicy)
    (s : σ) :
    exec (grownCapacity policy capacity) s = .some (.ok (policy.grownCapacity capacity), s) := by
  have hword : capacity + 1 ≤ largestCount := lt_largestCount h
  unfold grownCapacity GrowthPolicy.grownCapacity
  split
  · rfl
  · simp only [exec_bind, exec_add hword, Part.bind_some, resume_ok, exec_pure]

theorem exec_capacityFor (policy : GrowthPolicy) (count : Nat) (s : σ) :
    exec (capacityFor policy count) s = .some (.ok (policy.capacityFor count), s) := by
  have hdivisor : policy.maxLoad + 1 ≤ largestCount := by
    have := policy.maxLoad_lt
    unfold largestCount
    omega
  have hquotient : GrowthPolicy.percent count / (policy.maxLoad + 1) + 1 ≤ largestCount :=
    policy.percent_div_succ_lt count
  unfold capacityFor GrowthPolicy.capacityFor
  split
  · rfl
  · simp only [exec_bind, exec_add hdivisor, exec_divide (Nat.succ_pos policy.maxLoad),
      exec_add hquotient, Part.bind_some, resume_ok]

/-! ## Moving all entries -/

/-- Stores the entries one after the other, and counts them. -/
def placeAll : List (Cell α) → (placed : Nat) → Program (Table α) Nat
  | [], placed => pure placed
  | cell :: rest, placed => do
    let found ← onSlots (place cell)
    require (found = true) .unreachable
    placeAll rest (← add placed 1)

/-- Moves all entries to a new array. -/
def rehash (capacity : Nat) : Program (Table α) Unit := do
  let old ← get
  set { old with capacity, slots := .empty α capacity }
  let placed ← placeAll old.slots.cells 0
  let t ← get
  require (placed = t.count) .assertion
  set { t with count := placed }

def grow (capacity : Nat) : Program (Table α) Unit := do
  let t ← get
  if capacity < t.count then throw (.fault (.doesNotFit t.count capacity))
  else if capacityBound ≤ capacity then throw (.fault (.capacityTooLarge capacity))
  else rehash capacity

def reserve (additional : Nat) : Program (Table α) Unit := do
  let t ← get
  match t.sizing with
  | .bounded => pure ()
  | .growing policy =>
    let required ← capacityFor policy (saturate (t.count + additional))
    if t.capacity < required then grow required else pure ()

def shrinkToFit : Program (Table α) Unit := do
  let t ← get
  if t.capacity = t.count then pure () else rehash t.count

/-- Stores again what the visit keeps of the entries, and counts it. -/
def keepAll (visit : τ → α → τ × Option α) : (state : τ) → List (Cell α) → Program (Table α) τ
  | state, [] => pure state
  | state, cell :: rest => do
    let (state, item?) := visit state cell.item
    match item? with
    | none => keepAll visit state rest
    | some item =>
      let found ← onSlots (place { cell with item })
      require (found = true) .unreachable
      let t ← get
      let count ← add t.count 1
      set { t with count }
      keepAll visit state rest

def retain (visit : τ → α → τ × Option α) (state : τ) : Program (Table α) τ := do
  let old ← get
  set { old with slots := .empty α old.capacity, count := 0 }
  keepAll visit state old.slots.cells

theorem exec_place_ok {cell : Cell α} {slots : Slots α t.capacity}
    (hbound : t.capacity < capacityBound) (hplace : t.slots.place? cell = some slots) :
    exec (onSlots (place cell)) t = .some (.ok true, { t with slots }) := by
  have hslots : exec (place cell) t.slots = .some (.ok true, slots) := by
    rw [exec_place hbound, hplace]
    rfl
  exact exec_onSlots (place cell) hslots

theorem exec_placeAll {cells : List (Cell α)} {slots : Slots α t.capacity} {placed : Nat}
    (hbound : t.capacity < capacityBound) (hplace : t.slots.placeAll? cells = some slots)
    (hword : placed + cells.length ≤ largestCount) :
    exec (placeAll cells placed) t = .some (.ok (placed + cells.length), { t with slots }) := by
  induction cells generalizing t placed with
  | nil =>
    cases hplace
    rfl
  | cons cell cells ih =>
    obtain ⟨first, hfirst, hrest⟩ := Slots.placeAll?_cons hplace
    rw [List.length_cons] at hword
    have hadd : placed + 1 ≤ largestCount := by omega
    have hcells : exec (placeAll cells (placed + 1)) { t with slots := first } =
        .some (.ok (placed + 1 + cells.length), { t with slots }) :=
      ih hbound hrest (by omega)
    have hlength : placed + 1 + cells.length = placed + (cell :: cells).length := by
      rw [List.length_cons]
      omega
    simp only [placeAll, exec_bind, exec_place_ok hbound hfirst, exec_require rfl, exec_add hadd,
      Part.bind_some, resume_ok, hcells, hlength]

theorem exec_rehash {capacity : Nat} (h : t.Addressable) (hbound : capacity < capacityBound)
    (hrebuild : t.rebuild capacity t.slots.cells = .ok t') :
    exec (rehash capacity) t = .some (.ok (), t') := by
  have hcount : t.slots.cells.length = t.count := h.wellFormed.count_eq.symm
  have hword : 0 + t.slots.cells.length ≤ largestCount := by
    rw [Nat.zero_add, hcount]
    exact h.count_lt.le
  unfold Table.rebuild at hrebuild
  split at hrebuild
  · next slots hplace =>
    cases hrebuild
    have hall := exec_placeAll (t := { t with capacity, slots := .empty α capacity }) hbound hplace
      hword
    simp only [rehash, exec_bind, exec_get, exec_set, Part.bind_some, resume_ok, hall,
      exec_require hcount, Nat.zero_add]
  · cases hrebuild

theorem exec_grow (h : t.Addressable) (capacity : Nat) :
    exec (grow capacity) t = attempt t ((t.grow capacity).map ((), ·)) := by
  unfold grow Table.grow
  simp only [exec_bind, exec_get, Part.bind_some, resume_ok]
  split
  · rfl
  · next hroom =>
    split
    · rfl
    · next hbound =>
      have hlength : t.slots.cells.length ≤ capacity := by
        rw [← h.wellFormed.count_eq]
        exact Nat.le_of_not_lt hroom
      obtain ⟨t', hrebuild, -⟩ := t.rebuild_spec hlength
      rw [hrebuild]
      exact exec_rehash h (Nat.lt_of_not_le hbound) hrebuild

theorem exec_reserve (h : t.Addressable) (additional : Nat) :
    exec (reserve additional) t = attempt t ((t.reserve additional).map ((), ·)) := by
  unfold reserve Table.reserve
  simp only [exec_bind, exec_get, Part.bind_some, resume_ok]
  cases t.sizing with
  | bounded => rfl
  | growing policy =>
    simp only [exec_bind, exec_capacityFor, Part.bind_some, resume_ok]
    split
    · exact exec_grow h _
    · rfl

theorem exec_shrinkToFit (h : t.Addressable) :
    exec shrinkToFit t = attempt t (t.shrinkToFit.map ((), ·)) := by
  obtain ⟨t', hshrink, -⟩ := h.wellFormed.shrinkToFit_spec
  rw [hshrink]
  unfold Table.shrinkToFit at hshrink
  unfold shrinkToFit
  simp only [exec_bind, exec_get, Part.bind_some, resume_ok]
  split at hshrink
  · next hfull =>
    cases hshrink
    rw [if_pos hfull]
    rfl
  · next hne =>
    have hbound : t.count < capacityBound := Nat.lt_of_le_of_lt h.wellFormed.count_le h.lt_bound
    rw [if_neg hne]
    exact exec_rehash h hbound hshrink

theorem sift_cons_none {visit : τ → α → τ × Option α} {state state' : τ} {cell : Cell α}
    (h : visit state cell.item = (state', none)) (cells : List (Cell α)) :
    Table.sift visit state (cell :: cells) = Table.sift visit state' cells := by
  simp only [Table.sift, h]

theorem sift_cons_some {visit : τ → α → τ × Option α} {state state' : τ} {cell : Cell α} {item : α}
    (h : visit state cell.item = (state', some item)) (cells : List (Cell α)) :
    Table.sift visit state (cell :: cells) =
      ((Table.sift visit state' cells).1,
        { cell with item } :: (Table.sift visit state' cells).2) := by
  simp only [Table.sift, h]

theorem exec_keepAll {visit : τ → α → τ × Option α} {state : τ} {cells : List (Cell α)}
    {slots : Slots α t.capacity} (hbound : t.capacity < capacityBound)
    (hplace : t.slots.placeAll? (Table.sift visit state cells).2 = some slots)
    (hword : t.count + (Table.sift visit state cells).2.length ≤ largestCount) :
    exec (keepAll visit state cells) t =
      .some (.ok (Table.sift visit state cells).1,
        { t with slots, count := t.count + (Table.sift visit state cells).2.length }) := by
  induction cells generalizing t state with
  | nil =>
    cases hplace
    rfl
  | cons cell cells ih =>
    rcases hvisit : visit state cell.item with ⟨state', _ | item⟩
    · rw [sift_cons_none hvisit] at hplace hword ⊢
      simp only [keepAll, hvisit]
      exact ih hbound hplace hword
    · rw [sift_cons_some hvisit] at hplace hword ⊢
      obtain ⟨first, hfirst, hrest⟩ := Slots.placeAll?_cons hplace
      simp only [List.length_cons] at hword ⊢
      have hadd : t.count + 1 ≤ largestCount := by omega
      have hcells := ih (t := { t with slots := first, count := t.count + 1 }) hbound hrest
        (by simp only; omega)
      have hcount : t.count + 1 + (Table.sift visit state' cells).2.length =
          t.count + ((Table.sift visit state' cells).2.length + 1) := by omega
      simp only [keepAll, hvisit, exec_bind, exec_place_ok hbound hfirst, exec_require rfl,
        exec_get, exec_add hadd, exec_set, Part.bind_some, resume_ok, hcells, hcount]

theorem exec_retain (h : t.Addressable) (visit : τ → α → τ × Option α) (state : τ) :
    exec (retain visit state) t = attempt t (t.retain visit state) := by
  have hlength : (Table.sift visit state t.slots.cells).2.length ≤ t.capacity :=
    Nat.le_trans (Table.length_sift_le visit state t.slots.cells) t.slots.length_cells_le
  obtain ⟨slots, hplace⟩ := (Slots.empty α t.capacity).exists_placeAll?
    (Table.sift visit state t.slots.cells).2 (by simpa using hlength)
  have hword : 0 + (Table.sift visit state t.slots.cells).2.length ≤ largestCount := by
    rw [Nat.zero_add]
    exact hlength.trans (lt_largestCount h.lt_bound).le
  have hall := exec_keepAll (t := { t with slots := .empty α t.capacity, count := 0 }) h.lt_bound
    hplace hword
  have hretain : t.retain visit state = .ok ((Table.sift visit state t.slots.cells).1,
      { t with slots, count := (Table.sift visit state t.slots.cells).2.length }) := by
    simp only [Table.retain, Table.rebuild, hplace]
  rw [hretain]
  simp only [retain, exec_bind, exec_get, exec_set, Part.bind_some, resume_ok, hall, Nat.zero_add]
  rfl

end Program

end LinearProbing

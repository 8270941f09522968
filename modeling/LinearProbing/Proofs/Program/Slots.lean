-- SUMMARY: The programs that probe, place and remove entries come to what the functions yield.
import LinearProbing.Proofs.Program.Basic
import LinearProbing.Proofs.Ring
import LinearProbing.Proofs.Slots.Contents
import LinearProbing.Slots.Placement
import LinearProbing.Slots.Probe

/-! # Programs on slot arrays

Probing, placement and removal as programs that read and write slots by their index. On every array
that has fewer slots than the bound, each comes to what the function on slot arrays yields: no index
is out of range, no remainder is taken by zero, and the scan behind a removed entry ends.
-/

namespace LinearProbing

namespace Program

variable {α σ : Type} {n : Nat}

/-! ## Slots and positions -/

/-- What slot `i` holds. -/
def read (i : Nat) : Program (Slots α n) (Option (Cell α)) := do
  let s ← get
  if h : i < n then pure (s.get ⟨i, h⟩) else throw (.defect .outOfRange)

def write (i : Nat) (slot : Option (Cell α)) : Program (Slots α n) Unit := do
  let s ← get
  if h : i < n then set (s.put ⟨i, h⟩ slot) else throw (.defect .outOfRange)

/-- Changes the item in a slot, and yields it. -/
def change (i : Nat) (update : α → α) : Program (Slots α n) (Option α) := do
  match ← read i with
  | none => pure none
  | some cell =>
    write i (some { cell with item := update cell.item })
    pure (some (update cell.item))

/-- Exchanges what two slots hold. -/
def swap (i j : Nat) : Program (Slots α n) Unit := do
  let first ← read i
  let second ← read j
  write i second
  write j first

/-- The position that a hash is compressed to. -/
def scale (hash : UInt64) (capacity : Nat) : Program σ Nat := do
  require (0 < capacity) .assertion
  require (capacity < capacityBound) .assertion
  remainder (Compression.mix hash).toNat capacity

/-- The position after `i`. -/
def advance (i capacity : Nat) : Program σ Nat := do
  remainder (← add i 1) capacity

@[simp] theorem exec_read (s : Slots α n) (i : Fin n) :
    exec (read i.val) s = .some (.ok (s.get i), s) := by
  simp only [read, exec_bind, exec_get, Part.bind_some, resume_ok, dif_pos i.isLt, exec_pure]

@[simp] theorem exec_write (s : Slots α n) (i : Fin n) (slot : Option (Cell α)) :
    exec (write i.val slot) s = .some (.ok (), s.put i slot) := by
  simp only [write, exec_bind, exec_get, Part.bind_some, resume_ok, dif_pos i.isLt, exec_set]

theorem exec_change (s : Slots α n) (i : Fin n) (update : α → α) :
    exec (change i.val update) s = optionally s (s.updateAt? i update) := by
  unfold change Slots.updateAt?
  simp only [exec_bind, exec_read, Part.bind_some, resume_ok]
  cases s.get i with
  | none => rfl
  | some cell =>
    simp only [exec_bind, exec_write, Part.bind_some, resume_ok, exec_pure]
    rfl

@[simp] theorem exec_swap (s : Slots α n) (i j : Fin n) :
    exec (swap i.val j.val) s = .some (.ok (), (s.put i (s.get j)).put j (s.get i)) := by
  simp only [swap, exec_bind, exec_read, exec_write, Part.bind_some, resume_ok]

theorem exec_scale {capacity : Nat} (hpos : 0 < capacity) (hbound : capacity < capacityBound)
    (hash : UInt64) (s : σ) :
    exec (scale hash capacity) s = .some (.ok (LinearProbing.scale hash capacity), s) := by
  simp only [scale, exec_bind, exec_require hpos, exec_require hbound, exec_remainder hpos,
    Part.bind_some, resume_ok]
  rfl

theorem exec_advance (hbound : n < capacityBound) (i : Fin n) (s : σ) :
    exec (advance i.val n) s = .some (.ok (Cyclic.next i).val, s) := by
  have hword : i.val + 1 ≤ largestCount := lt_largestCount (i.isLt.trans hbound)
  simp only [advance, exec_bind, exec_add hword, exec_remainder i.pos, Part.bind_some, resume_ok,
    ← Cyclic.next_val_mod]

/-! ## Searches -/

/-- All positions from `start` on, around the ring. -/
def around (capacity start : Nat) : List Nat :=
  List.range' start (capacity - start) ++ List.range' 0 start

/-- Where a search ended. -/
inductive Landing
  | found (index : Nat)
  | vacant (index : Nat)
  | full

/-- The first of the positions that is empty or holds a match. -/
def search (hash : UInt64) (accepts : α → Bool) : List Nat → Program (Slots α n) Landing
  | [] => pure .full
  | i :: rest => do
    match ← read i with
    | none => pure (.vacant i)
    | some cell =>
      if Slots.Matches hash accepts cell then pure (.found i) else search hash accepts rest

def probe (hash : UInt64) (accepts : α → Bool) : Program (Slots α n) Landing := do
  if n = 0 then pure .full
  else
    let start ← scale hash n
    require (start ≤ n) .outOfRange
    search hash accepts (around n start)

/-- The first of the positions that is empty. -/
def firstEmpty : List Nat → Program (Slots α n) (Option Nat)
  | [] => pure none
  | i :: rest => do
    match ← read i with
    | none => pure (some i)
    | some _ => firstEmpty rest

def vacancy (hash : UInt64) : Program (Slots α n) (Option Nat) := do
  if n = 0 then pure none
  else
    let start ← scale hash n
    firstEmpty (around n start)

/-- Stores an entry in the first empty slot from its home on; says whether there is one. -/
def place (cell : Cell α) : Program (Slots α n) Bool := do
  match ← vacancy cell.hash with
  | some i =>
    write i (some cell)
    pure true
  | none => pure false

/-- The positions are those of a walk around the ring from `p` on. -/
inductive Walk : Fin n → List Nat → Prop
  | done (p : Fin n) : Walk p []
  | step {p : Fin n} {rest : List Nat} (walk : Walk (Cyclic.next p) rest) : Walk p (p.val :: rest)

theorem walk_range' {k i : Nat} {p : Fin n} (hp : p.val = i) (hk : i + k ≤ n) :
    Walk p (List.range' i k) := by
  induction k generalizing i p with
  | zero => exact .done p
  | succ k ih =>
    subst hp
    rw [List.range'_succ]
    refine .step ?_
    cases k with
    | zero => exact .done _
    | succ k =>
      refine ih ?_ (by omega)
      rw [Cyclic.next_val, if_pos (by omega)]

/-- A walk up to the last position goes on at the first. -/
theorem walk_append {k i : Nat} {p : Fin n} {rest : List Nat} (hp : p.val = i)
    (hk : i + (k + 1) = n) (hrest : Walk ⟨0, p.pos⟩ rest) :
    Walk p (List.range' i (k + 1) ++ rest) := by
  induction k generalizing i p with
  | zero =>
    subst hp
    refine .step ?_
    have hnext : Cyclic.next p = ⟨0, p.pos⟩ := by
      apply Fin.ext
      rw [Cyclic.next_val, if_neg (by omega)]
    rw [hnext]
    exact hrest
  | succ k ih =>
    subst hp
    rw [List.range'_succ]
    refine .step (ih ?_ (by omega) hrest)
    rw [Cyclic.next_val, if_pos (by omega)]

theorem walk_around (start : Fin n) : Walk start (around n start) := by
  obtain ⟨k, hk⟩ : ∃ k, n - start.val = k + 1 := ⟨n - start.val - 1, by omega⟩
  rw [around, hk]
  exact walk_append rfl (by omega) (walk_range' rfl (by omega))

theorem length_around (start : Fin n) : (around n start).length = n := by
  rw [around, List.length_append, List.length_range', List.length_range']
  omega

/-- A landing without what was found. -/
def Landing.ofProbe : Probe α n → Landing
  | .found i _ => .found i
  | .vacant i => .vacant i
  | .full => .full

theorem exec_search (hash : UInt64) (accepts : α → Bool) {positions : List Nat} {p : Fin n}
    (h : Walk p positions) (s : Slots α n) :
    exec (search hash accepts positions) s =
      .some (.ok (.ofProbe (s.probeFrom hash accepts positions.length p)), s) := by
  induction h with
  | done p => rfl
  | @step p rest _ ih =>
    rw [List.length_cons, Slots.probeFrom]
    simp only [search, exec_bind, exec_read, Part.bind_some, resume_ok]
    cases s.get p with
    | none => rfl
    | some cell =>
      simp only
      split
      · rfl
      · exact ih

theorem exec_probe (hbound : n < capacityBound) (hash : UInt64) (accepts : α → Bool)
    (s : Slots α n) :
    exec (probe hash accepts) s = .some (.ok (.ofProbe (s.probe hash accepts)), s) := by
  unfold probe Slots.probe
  by_cases hn : n = 0
  · rw [if_pos hn, dif_neg (by omega)]
    rfl
  · have hpos : 0 < n := Nat.pos_of_ne_zero hn
    have hstart : LinearProbing.scale hash n ≤ n := (scale_lt hash hpos).le
    have hwalk := exec_search hash accepts (walk_around (home hash hpos)) s
    rw [length_around] at hwalk
    rw [if_neg hn, dif_pos hpos]
    simp only [exec_bind, exec_scale hpos hbound, exec_require hstart, Part.bind_some, resume_ok]
    exact hwalk

/-! ## Placement -/

/-- The positions from `i` on are searched before the others. -/
theorem exec_firstEmpty {i k : Nat} (hk : i + k ≤ n) (rest : List Nat) (s : Slots α n) :
    exec (firstEmpty (List.range' i k ++ rest)) s =
      (s.first? Option.isNone i (i + k)).elim (exec (firstEmpty rest) s)
        fun j => .some (.ok (some j.val), s) := by
  induction k generalizing i with
  | zero =>
    rw [Slots.first?, dif_neg (by omega)]
    rfl
  | succ k ih =>
    have hi : i < n := by omega
    have hread : exec (read i) s = .some (.ok (s.get ⟨i, hi⟩), s) := exec_read s ⟨i, hi⟩
    have hrest := ih (i := i + 1) (by omega)
    have hstop : i + 1 + k = i + (k + 1) := by omega
    rw [hstop] at hrest
    rw [List.range'_succ, List.cons_append, firstEmpty, Slots.first?, dif_pos (by omega)]
    simp only [exec_bind, hread, Part.bind_some, resume_ok]
    cases s.get ⟨i, hi⟩ with
    | none => rfl
    | some cell => exact hrest

theorem exec_vacancy (hbound : n < capacityBound) (hash : UInt64) (s : Slots α n) :
    exec (vacancy hash) s = .some (.ok ((s.vacancy? hash).map (·.val)), s) := by
  unfold vacancy Slots.vacancy?
  by_cases hn : n = 0
  · subst hn
    have hnone (start stop : Nat) : s.first? Option.isNone start stop = none := by
      rw [Slots.first?, dif_neg (by omega)]
    simp only [if_true, hnone, exec_pure]
    rfl
  · have hpos : 0 < n := Nat.pos_of_ne_zero hn
    have hlt := scale_lt hash hpos
    rw [if_neg hn]
    simp only [exec_bind, exec_scale hpos hbound, Part.bind_some, resume_ok]
    have hback := exec_firstEmpty (i := LinearProbing.scale hash n)
      (k := n - LinearProbing.scale hash n) (by omega)
      (List.range' 0 (LinearProbing.scale hash n)) s
    have hfront := exec_firstEmpty (i := 0) (k := LinearProbing.scale hash n) (by omega) [] s
    have hstop : LinearProbing.scale hash n + (n - LinearProbing.scale hash n) = n := by omega
    rw [hstop] at hback
    rw [List.append_nil, Nat.zero_add] at hfront
    rw [around, hback, hfront]
    cases s.first? Option.isNone (LinearProbing.scale hash n) n with
    | some j => rfl
    | none =>
      cases s.first? Option.isNone 0 (LinearProbing.scale hash n) with
      | some j => rfl
      | none => rfl

theorem exec_place (hbound : n < capacityBound) (cell : Cell α) (s : Slots α n) :
    exec (place cell) s =
      (s.place? cell).elim (.some (.ok false, s)) fun s' => .some (.ok true, s') := by
  unfold place Slots.place?
  simp only [exec_bind, exec_vacancy hbound, Part.bind_some, resume_ok]
  cases s.vacancy? cell.hash with
  | some i => simp only [Option.map_some, exec_bind, exec_write, Part.bind_some, resume_ok,
      exec_pure, Option.elim]
  | none => rfl

/-! ## Removal -/

/-- Whether `index` comes after `after` and not after `through` on the ring. -/
def cyclicallyWithin (index after through : Nat) : Bool :=
  if after ≤ through then decide (after < index) && decide (index ≤ through)
  else decide (after < index) || decide (index ≤ through)

/-- Looks at the slot `scan` and moves its entry to the slot `hole` where that lies on its way. The
scan ends at an empty slot. -/
def closeRound (hole scan : Nat) : Program (Slots α n) (Unit ⊕ Nat × Nat) := do
  match ← read scan with
  | none => pure (.inl ())
  | some cell =>
    let home ← scale cell.hash n
    if cyclicallyWithin home hole scan then
      pure (.inr (hole, ← advance scan n))
    else
      swap hole scan
      pure (.inr (scan, ← advance scan n))

/-- Takes the entry out of a slot and closes the gap. -/
def vacate (i : Nat) : Program (Slots α n) (Option (Cell α)) := do
  match ← read i with
  | none => pure none
  | some cell =>
    write i none
    loop (fun position => closeRound position.1 position.2) (i, ← advance i n)
    pure (some cell)

theorem cyclicallyWithin_eq_false_iff (start : Fin n) {hole scan : Fin n} (hne : scan ≠ hole) :
    cyclicallyWithin start hole scan = false ↔
      Cyclic.distance start hole < Cyclic.distance start scan := by
  have hne' : scan.val ≠ hole.val := Fin.val_ne_of_ne hne
  unfold cyclicallyWithin Cyclic.distance
  split_ifs <;> simp <;> omega

theorem step_of_empty {g : Gap α n} (h : g.slots.get g.scan = none) : g.step = .inl g.slots := by
  unfold Gap.step
  split
  · rfl
  · next hcell =>
    rw [h] at hcell
    cases hcell

theorem step_of_occupied {g : Gap α n} {cell : Cell α} (h : g.slots.get g.scan = some cell) :
    g.step = .inr (if g.Passes cell.hash then g.move cell h else g.skip) := by
  unfold Gap.step
  split
  · next hempty =>
    rw [h] at hempty
    cases hempty
  · next cell' hcell =>
    cases h.symm.trans hcell
    rfl

/-- Where the entry in the slot `scan` goes, as the hole is empty. -/
theorem swap_eq_move {g : Gap α n} {cell : Cell α} (h : g.slots.get g.scan = some cell) :
    (g.slots.put g.hole (g.slots.get g.scan)).put g.scan (g.slots.get g.hole) =
      (g.move cell h).slots := by
  have hne : g.hole.val ≠ g.scan.val := Fin.val_ne_of_ne (Gap.scan_ne_hole h).symm
  rw [h, g.hole_empty]
  exact Vector.set_comm _ _ hne

/-- A round of the scan is a step of closing the gap. -/
theorem exec_closeRound (hbound : n < capacityBound) (g : Gap α n) :
    exec (closeRound g.hole.val g.scan.val) g.slots =
      match g.step with
      | .inl slots => .some (.ok (.inl ()), slots)
      | .inr next => .some (.ok (.inr (next.hole.val, next.scan.val)), next.slots) := by
  unfold closeRound
  simp only [exec_bind, exec_read, Part.bind_some, resume_ok]
  cases hscan : g.slots.get g.scan with
  | none =>
    rw [step_of_empty hscan]
    rfl
  | some cell =>
    have hne := Gap.scan_ne_hole hscan
    have hwithin : cyclicallyWithin (LinearProbing.scale cell.hash n) g.hole g.scan = false ↔
        g.Passes cell.hash := cyclicallyWithin_eq_false_iff (home cell.hash g.scan.pos) hne
    rw [step_of_occupied hscan]
    simp only [exec_bind, exec_scale g.scan.pos hbound, Part.bind_some, resume_ok]
    by_cases hpasses : g.Passes cell.hash
    · rw [hwithin.2 hpasses, if_pos hpasses]
      simp only [Bool.false_eq_true, if_false, exec_bind, exec_swap, exec_advance hbound,
        Part.bind_some, resume_ok, exec_pure, swap_eq_move hscan]
      rfl
    · rw [Bool.eq_true_of_not_eq_false (mt hwithin.1 hpasses), if_neg hpasses]
      simp only [if_true, exec_bind, exec_advance hbound, Part.bind_some, resume_ok, exec_pure]
      rfl

theorem exec_close (hbound : n < capacityBound) (g : Gap α n) :
    exec (loop (fun position => closeRound position.1 position.2) (g.hole.val, g.scan.val))
      g.slots = .some (.ok (), g.close) := by
  fun_induction Gap.close g with
  | case1 g slots hstep =>
    have hround := exec_closeRound hbound g
    rw [hstep] at hround
    exact exec_loop_of_last hround
  | case2 g next hstep ih =>
    have hround := exec_closeRound hbound g
    rw [hstep] at hround
    exact (exec_loop_of_round hround).trans ih

theorem exec_vacate (hbound : n < capacityBound) (i : Fin n) (s : Slots α n) :
    exec (vacate i.val) s = optionally s (s.vacate? i) := by
  unfold vacate Slots.vacate?
  simp only [exec_bind, exec_read, Part.bind_some, resume_ok]
  cases s.get i with
  | none => rfl
  | some cell =>
    have hclose : exec (loop (fun position => closeRound position.1 position.2)
        (i.val, (Cyclic.next i).val)) (s.put i none) = .some (.ok (), (Gap.ofTaken s i).close) :=
      exec_close hbound (Gap.ofTaken s i)
    simp only [exec_bind, exec_write, exec_advance hbound, Part.bind_some, resume_ok, hclose,
      exec_pure]
    rfl

end Program

end LinearProbing

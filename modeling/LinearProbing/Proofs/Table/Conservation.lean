-- SUMMARY: Rebuilding a table at another capacity keeps every entry, and retaining keeps what the visit accepts.
import LinearProbing.Proofs.Table.Frame

/-! # Entries survive a rebuild

Growing, reserving, shrinking, and the growth step before an entry is handed out all place the
entries of a table anew, in the order of their old slots. The result has the number of slots that
was asked for and the same entries, also if that leaves no slot empty. Retaining does the same with
the entries that a visit accepts; the visit is called once for each entry, in slot order.
-/

namespace LinearProbing.Table

universe u v

variable {α : Type u} {t t' : Table α} {policy : GrowthPolicy} {hash : UInt64}
  {accepts : α → Bool}

/-- The table has become one with exactly these slots and these entries, each within reach of its
home. -/
structure Rebuilt (t : Table α) (capacity : Nat) (cells : List (Cell α)) (t' : Table α) :
    Prop where
  sizing_eq : t'.sizing = t.sizing
  capacity_eq : t'.capacity = capacity
  cells_perm : t'.slots.cells.Perm cells
  count_eq : t'.count = cells.length
  reachable : t'.slots.Reachable

theorem Rehoused.rebuilt (h : Rehoused t t') {capacity : Nat} (hcapacity : t'.capacity = capacity) :
    Rebuilt t capacity t.slots.cells t' where
  sizing_eq := h.sizing_eq
  capacity_eq := hcapacity
  cells_perm := h.cells_perm
  count_eq := h.wellFormed.count_eq.trans h.cells_perm.length_eq
  reachable := h.wellFormed.reachable

/-- As many entries as slots leave no slot empty. -/
theorem Rebuilt.full {capacity : Nat} {cells : List (Cell α)} (h : Rebuilt t capacity cells t')
    (hfull : cells.length = capacity) (i : Fin t'.capacity) : (t'.slots.get i).isSome :=
  Slots.length_cells_eq_iff.1 (by rw [h.cells_perm.length_eq, hfull, h.capacity_eq]) i

/-! ## Other capacities -/

theorem WellFormed.grow_rebuilt (h : t.WellFormed) {capacity : Nat} (hroom : t.count ≤ capacity)
    (hbound : capacity < capacityBound) :
    ∃ t', t.grow capacity = .ok t' ∧ Rebuilt t capacity t.slots.cells t' := by
  rcases h.grow_cases capacity with ⟨t', hgrow, hrehoused, hcapacity⟩ | ⟨hfew, -⟩ | ⟨-, hlarge, -⟩
  · exact ⟨t', hgrow, hrehoused.rebuilt hcapacity⟩
  · exact absurd hroom (Nat.not_le_of_lt hfew)
  · exact absurd hbound (Nat.not_lt_of_le hlarge)

theorem WellFormed.shrinkToFit_rebuilt (h : t.WellFormed) :
    ∃ t', t.shrinkToFit = .ok t' ∧ Rebuilt t t.count t.slots.cells t' := by
  obtain ⟨t', hshrink, hrehoused, hcapacity⟩ := h.shrinkToFit_spec
  exact ⟨t', hshrink, hrehoused.rebuilt hcapacity⟩

theorem WellFormed.reserve_rebuilt (h : t.WellFormed) (hsizing : t.sizing = .growing policy)
    {additional capacity : Nat}
    (hrequired : policy.capacityFor (saturate (t.count + additional)) = capacity)
    (hmore : t.capacity < capacity) (hbound : capacity < capacityBound) :
    ∃ t', t.reserve additional = .ok t' ∧ Rebuilt t capacity t.slots.cells t' := by
  subst hrequired
  have hreserve : t.reserve additional =
      t.grow (policy.capacityFor (saturate (t.count + additional))) := by
    simp only [reserve, hsizing, if_pos hmore]
  rw [hreserve]
  exact h.grow_rebuilt (h.count_le.trans hmore.le) hbound

theorem WellFormed.entry_granted (h : t.WellFormed) (hsizing : t.sizing = .growing policy)
    (hbound : policy.grownCapacity t.capacity < capacityBound) (hash : UInt64)
    (accepts : α → Bool) : ∃ e, t.entry hash accepts = .ok e := by
  cases h.entry_cases hash accepts with
  | located t' e hentry => exact ⟨e, hentry⟩
  | tooLarge policy' hgrowing _ hlarge =>
    cases hsizing.symm.trans hgrowing
    exact absurd hbound (Nat.not_lt_of_le hlarge)
  | full hbounded =>
    rw [hsizing] at hbounded
    cases hbounded

/-- A table that needs room hands out entries of a larger one. -/
theorem WellFormed.entry_rebuilt (h : t.WellFormed) (hsizing : t.sizing = .growing policy)
    (hneeds : t.NeedsRoom policy hash accepts) {e : Entry α}
    (hentry : t.entry hash accepts = .ok e) :
    Rebuilt t (policy.grownCapacity t.capacity) t.slots.cells e.table := by
  obtain ⟨t', hroom, -, hlocates⟩ := h.entry_eq_ok hentry
  rw [hlocates.table_eq]
  cases hroom with
  | stays henough => exact absurd hneeds (henough policy hsizing)
  | grows hgrowing _ henlarge =>
    cases hsizing.symm.trans hgrowing
    obtain ⟨hrehoused, hcapacity⟩ := h.grow_eq_ok henlarge
    exact hrehoused.rebuilt hcapacity

/-- A table that does not need room hands out entries of its own. -/
theorem WellFormed.table_of_entry (h : t.WellFormed) (hsizing : t.sizing = .growing policy)
    (henough : ¬t.NeedsRoom policy hash accepts) {e : Entry α}
    (hentry : t.entry hash accepts = .ok e) : e.table = t := by
  obtain ⟨t', hroom, -, hlocates⟩ := h.entry_eq_ok hentry
  rw [hlocates.table_eq]
  cases hroom with
  | stays => rfl
  | grows hgrowing hneeds =>
    cases hsizing.symm.trans hgrowing
    exact absurd hneeds henough

/-! ## Visits that decide what is kept -/

section Retain

variable {σ : Type v}

/-- The state that a visit has reached after the first `calls` items. -/
def stateAfter (visit : σ → α → σ × Option α) (state : σ) (items : List α) (calls : Nat) : σ :=
  (items.take calls).foldl (fun state item => (visit state item).1) state

/-- What a visit in this state makes of a cell, if it accepts the item. -/
def accepted? (visit : σ → α → σ × Option α) (state : σ) (cell : Cell α) : Option (Cell α) :=
  (visit state cell.item).2.map fun item => { cell with item }

/-- The cells that are kept if each is visited once and in order: the cell with `calls` others
before it meets the state that as many calls have led to. -/
def acceptedCells (visit : σ → α → σ × Option α) (state : σ) (cells : List (Cell α)) :
    List (Cell α) :=
  cells.zipIdx.filterMap fun (cell, calls) =>
    accepted? visit (stateAfter visit state (cells.map (·.item)) calls) cell

/-- The visit that also writes down what it is called with. -/
def recording (visit : σ → α → σ × Option α) (state : σ × List α) (item : α) :
    (σ × List α) × Option α :=
  (((visit state.1 item).1, state.2 ++ [item]), (visit state.1 item).2)

theorem sift_cons (visit : σ → α → σ × Option α) (state : σ) (cell : Cell α)
    (cells : List (Cell α)) :
    sift visit state (cell :: cells) =
      ((sift visit (visit state cell.item).1 cells).1,
        (accepted? visit state cell).toList ++ (sift visit (visit state cell.item).1 cells).2) := by
  rcases hvisit : visit state cell.item with ⟨state', _ | item⟩ <;>
    simp [sift, accepted?, hvisit]

theorem acceptedCells_cons (visit : σ → α → σ × Option α) (state : σ) (cell : Cell α)
    (cells : List (Cell α)) :
    acceptedCells visit state (cell :: cells) =
      (accepted? visit state cell).toList ++
        acceptedCells visit (visit state cell.item).1 cells := by
  have hrest : (cells.zipIdx 1).filterMap (fun (other, calls) =>
      accepted? visit (stateAfter visit state (cell.item :: cells.map (·.item)) calls) other) =
      acceptedCells visit (visit state cell.item).1 cells := by
    rw [List.zipIdx_succ, List.filterMap_map]
    rfl
  rw [acceptedCells, List.zipIdx_cons, List.filterMap_cons, List.map_cons, hrest]
  have hfirst : stateAfter visit state (cell.item :: cells.map (·.item)) 0 = state := rfl
  simp only [hfirst]
  cases accepted? visit state cell <;> rfl

/-- Sifting visits each cell once and in order. -/
theorem sift_eq (visit : σ → α → σ × Option α) (state : σ) (cells : List (Cell α)) :
    sift visit state cells =
      (stateAfter visit state (cells.map (·.item)) cells.length,
        acceptedCells visit state cells) := by
  induction cells generalizing state with
  | nil => rfl
  | cons cell cells ih =>
    rw [sift_cons, acceptedCells_cons, ih]
    rfl

/-- A record of the calls does not change what they do. -/
theorem sift_recording (visit : σ → α → σ × Option α) (state : σ) (calls : List α)
    (cells : List (Cell α)) :
    sift (recording visit) (state, calls) cells =
      (((sift visit state cells).1, calls ++ cells.map (·.item)), (sift visit state cells).2) := by
  induction cells generalizing state calls with
  | nil => simp [sift]
  | cons cell cells ih =>
    have haccepted : accepted? (recording visit) (state, calls) cell =
        accepted? visit state cell := rfl
    rw [sift_cons, sift_cons, haccepted]
    simp [recording, ih]

/-- Retaining visits the items in slot order and keeps what the visit accepts. -/
structure Retains (t : Table α) (visit : σ → α → σ × Option α) (state : σ) (t' : Table α) :
    Prop where
  retain_eq : t.retain visit state =
    .ok (stateAfter visit state (t.slots.cells.map (·.item)) t.slots.cells.length, t')
  rebuilt : Rebuilt t t.capacity (acceptedCells visit state t.slots.cells) t'
  /-- The calls are one for each entry, in slot order. -/
  calls : t.retain (recording visit) (state, []) =
    .ok ((stateAfter visit state (t.slots.cells.map (·.item)) t.slots.cells.length,
      t.slots.cells.map (·.item)), t')

theorem exists_retains (t : Table α) (visit : σ → α → σ × Option α) (state : σ) :
    ∃ t', Retains t visit state t' := by
  obtain ⟨t', hretain, hwf, hsizing, hcapacity, hcells⟩ := t.retain_spec visit state
  have hrecorded : t.retain (recording visit) (state, []) =
      (t.retain visit state).map fun result =>
        ((result.1, t.slots.cells.map (·.item)), result.2) := by
    simp only [retain, sift_recording, List.nil_append]
    cases t.rebuild t.capacity (sift visit state t.slots.cells).2 <;> rfl
  rw [hretain] at hrecorded
  rw [sift_eq] at hretain hcells hrecorded
  refine ⟨t', hretain, ?_, hrecorded⟩
  exact
    { sizing_eq := hsizing
      capacity_eq := hcapacity
      cells_perm := hcells
      count_eq := hwf.count_eq.trans hcells.length_eq
      reachable := hwf.reachable }

end Retain

/-! ## Every rebuild -/

/-- Every way to rebuild the table yields the capacity that is asked for and the entries that are to
stay. -/
structure ConservesEntries (t : Table α) (policy : GrowthPolicy) : Prop where
  grow : ∀ capacity, t.count ≤ capacity → capacity < capacityBound →
    ∃ t', t.grow capacity = .ok t' ∧ Rebuilt t capacity t.slots.cells t'
  shrinkToFit : ∃ t', t.shrinkToFit = .ok t' ∧ Rebuilt t t.count t.slots.cells t'
  reserve : ∀ additional capacity,
    policy.capacityFor (saturate (t.count + additional)) = capacity → t.capacity < capacity →
    capacity < capacityBound →
    ∃ t', t.reserve additional = .ok t' ∧ Rebuilt t capacity t.slots.cells t'
  entry_granted : policy.grownCapacity t.capacity < capacityBound →
    ∀ hash accepts, ∃ e, t.entry hash accepts = .ok e
  entry_grows : ∀ hash accepts e, t.NeedsRoom policy hash accepts →
    t.entry hash accepts = .ok e →
    Rebuilt t (policy.grownCapacity t.capacity) t.slots.cells e.table
  entry_stays : ∀ hash accepts e, ¬t.NeedsRoom policy hash accepts →
    t.entry hash accepts = .ok e → e.table = t
  retain : ∀ {σ : Type v} (visit : σ → α → σ × Option α) state, ∃ t', Retains t visit state t'

/-- In every growing table that operations lead to, rebuilding loses and duplicates no entry. -/
theorem Reachable.conservesEntries (h : t.Reachable) (hsizing : t.sizing = .growing policy) :
    ConservesEntries.{u, v} t policy where
  grow _ := h.wellFormed.grow_rebuilt
  shrinkToFit := h.wellFormed.shrinkToFit_rebuilt
  reserve _ _ := h.wellFormed.reserve_rebuilt hsizing
  entry_granted := h.wellFormed.entry_granted hsizing
  entry_grows _ _ _ hneeds := h.wellFormed.entry_rebuilt hsizing hneeds
  entry_stays _ _ _ henough := h.wellFormed.table_of_entry hsizing henough
  retain := t.exists_retains

/-- Three entries with their home in the last of seven slots: two have gone past the end. -/
def wrapped : Table Nat :=
  (Table.ofPolicy Nat .standard).afterAll
    ([6, 13, 20].map fun hash => .entry hash (fun _ => false) (.branch (some hash.toNat) id false))

theorem leads_wrapped : Leads (fun _ => True) (Table.ofPolicy Nat .standard) wrapped :=
  leads_afterAll fun _ _ => trivial

theorem reachable_wrapped : wrapped.Reachable := leads_wrapped.reachable (.start (.ofPolicy .standard))

theorem sizing_wrapped : wrapped.sizing = .growing .standard :=
  leads_wrapped.sizing_eq (wellFormed_fresh _ _)

/-- A visit that counts its calls, drops the second item and adds the count to the others. -/
def dropSecond (calls item : Nat) : Nat × Option Nat :=
  (calls + 1, if calls = 1 then none else some (item + calls))

/-- Shrinking to three slots leaves none empty. -/
theorem conservesEntries_wrapped :
    (∃ t', wrapped.shrinkToFit = .ok t' ∧ Rebuilt wrapped 3 wrapped.slots.cells t' ∧
        ∀ i, (t'.slots.get i).isSome) ∧
      wrapped.slots.cells.map (·.item) = [13, 20, 6] ∧
      ∃ t', Retains wrapped dropSecond 0 t' ∧ t'.slots.cells.Perm [⟨13, 13⟩, ⟨6, 8⟩] := by
  have hconserves : ConservesEntries.{0, 0} wrapped .standard :=
    reachable_wrapped.conservesEntries sizing_wrapped
  refine ⟨?_, by decide +kernel, ?_⟩
  · obtain ⟨t', hshrink, hrebuilt⟩ := hconserves.shrinkToFit
    have hcount : wrapped.count = 3 := by decide +kernel
    have hfull := hrebuilt.full (by decide +kernel)
    rw [hcount] at hrebuilt
    exact ⟨t', hshrink, hrebuilt, hfull⟩
  · obtain ⟨t', hretains⟩ := hconserves.retain dropSecond 0
    have haccepted : acceptedCells dropSecond 0 wrapped.slots.cells = [⟨13, 13⟩, ⟨6, 8⟩] := by
      decide +kernel
    refine ⟨t', hretains, ?_⟩
    rw [← haccepted]
    exact hretains.rebuilt.cells_perm

end LinearProbing.Table

-- SUMMARY: Traversals keep the hashes in their slots, and an exact one visits all that is pending.
import LinearProbing.Proofs.Slots.Search
import LinearProbing.Traversal
import Mathlib.Data.List.Sort

/-! # What traversals do

Visiting an entry changes nothing but its item. A traversal whose counter is exact visits the
pending entries in slot order and yields each of them once.
-/

namespace LinearProbing

universe u

variable {α : Type u} {n : Nat}

namespace Traversal

/-! ## Hashes stay in their slots -/

theorem hashAt?_nextWith? {t t' : Traversal α n} {update : α → α} {item : α}
    (h : t.nextWith? update = some (item, t')) : t'.slots.hashAt? = t.slots.hashAt? := by
  unfold nextWith? at h
  split at h
  · cases h
  · simp only [Option.bind_eq_some_iff, Option.map_eq_some_iff, Prod.mk.injEq] at h
    obtain ⟨i, -, ⟨_, slots⟩, hslots, -, rfl⟩ := h
    exact Slots.hashAt?_updateAt? hslots

theorem hashAt?_nextBackWith? {t t' : Traversal α n} {update : α → α} {item : α}
    (h : t.nextBackWith? update = some (item, t')) : t'.slots.hashAt? = t.slots.hashAt? := by
  unfold nextBackWith? at h
  split at h
  · cases h
  · simp only [Option.bind_eq_some_iff, Option.map_eq_some_iff, Prod.mk.injEq] at h
    obtain ⟨i, -, ⟨_, slots⟩, hslots, -, rfl⟩ := h
    exact Slots.hashAt?_updateAt? hslots

/-! ## The pending entries -/

/-- The occupied positions that neither end has reached. -/
def pending (t : Traversal α n) : List (Fin n) :=
  (List.finRange n).filter fun i =>
    decide (t.low ≤ i.val) && decide (i.val < t.high) && (t.slots.get i).isSome

/-- The counter agrees with the number of pending entries. -/
def Exact (t : Traversal α n) : Prop := t.remaining = t.pending.length

theorem mem_pending {t : Traversal α n} {i : Fin n} :
    i ∈ t.pending ↔ t.low ≤ i.val ∧ i.val < t.high ∧ (t.slots.get i).isSome := by
  simp [pending, and_assoc]

theorem sorted_pending (t : Traversal α n) : t.pending.Pairwise (· < ·) :=
  (List.pairwise_lt_finRange n).filter _

theorem isSome_put_item {s : Slots α n} {i : Fin n} {cell : Cell α} (hcell : s.get i = some cell)
    (item : α) (j : Fin n) :
    ((s.put i (some { cell with item })).get j).isSome = (s.get j).isSome := by
  rw [← Slots.isSome_hashAt?, ← Slots.isSome_hashAt?, Slots.hashAt?_put_item hcell]

/-- A visit from the front takes the first pending entry. -/
theorem pending_of_nextWith? {t t' : Traversal α n} {update : α → α} {item : α}
    (h : t.nextWith? update = some (item, t')) :
    ∃ i cell, t.slots.get i = some cell ∧ item = update cell.item ∧
      t'.slots = t.slots.put i (some { cell with item }) ∧ t.pending = i :: t'.pending := by
  unfold nextWith? at h
  split at h
  · cases h
  · simp only [Option.bind_eq_some_iff, Option.map_eq_some_iff, Prod.mk.injEq] at h
    obtain ⟨i, hfirst, ⟨_, _⟩, hupdate, rfl, rfl⟩ := h
    obtain ⟨cell, hcell, hitem, rfl⟩ := Slots.updateAt?_eq_some hupdate
    obtain ⟨hlow, hhigh, hsome, hbefore⟩ := Slots.first?_eq_some hfirst
    refine ⟨i, cell, hcell, hitem, rfl, ?_⟩
    refine (sorted_pending t).eq_of_mem_iff (List.pairwise_cons.2 ⟨?_, sorted_pending _⟩) ?_
    · intro k hk
      exact (mem_pending.1 hk).1
    · intro k
      rw [List.mem_cons, mem_pending, mem_pending, isSome_put_item hcell]
      constructor
      · rintro ⟨hlow', hhigh', hk⟩
        have hge : i.val ≤ k.val := Nat.le_of_not_lt fun hlt => hbefore k hlow' hlt hk
        rcases Nat.eq_or_lt_of_le hge with heq | hlt
        · exact .inl (Fin.ext heq.symm)
        · exact .inr ⟨hlt, hhigh', hk⟩
      · rintro (rfl | ⟨hlow', hhigh', hk⟩)
        · exact ⟨hlow, hhigh, hsome⟩
        · exact ⟨hlow.trans (Nat.le_of_succ_le hlow'), hhigh', hk⟩

/-- A visit from the back takes the last pending entry. -/
theorem pending_of_nextBackWith? {t t' : Traversal α n} {update : α → α} {item : α}
    (h : t.nextBackWith? update = some (item, t')) :
    ∃ i cell, t.slots.get i = some cell ∧ item = update cell.item ∧
      t'.slots = t.slots.put i (some { cell with item }) ∧ t.pending = t'.pending ++ [i] := by
  unfold nextBackWith? at h
  split at h
  · cases h
  · simp only [Option.bind_eq_some_iff, Option.map_eq_some_iff, Prod.mk.injEq] at h
    obtain ⟨i, hlast, ⟨_, _⟩, hupdate, rfl, rfl⟩ := h
    obtain ⟨cell, hcell, hitem, rfl⟩ := Slots.updateAt?_eq_some hupdate
    obtain ⟨hlow, hhigh, hsome, hafter⟩ := Slots.last?_eq_some hlast
    refine ⟨i, cell, hcell, hitem, rfl, ?_⟩
    refine (sorted_pending t).eq_of_mem_iff
      (List.pairwise_append.2 ⟨sorted_pending _, List.pairwise_singleton _ i, ?_⟩) ?_
    · intro k hk j hj
      rw [List.mem_singleton.1 hj]
      exact (mem_pending.1 hk).2.1
    · intro k
      rw [List.mem_append, List.mem_singleton, mem_pending, mem_pending, isSome_put_item hcell]
      constructor
      · rintro ⟨hlow', hhigh', hk⟩
        have hle : k.val ≤ i.val := Nat.le_of_not_lt fun hlt => hafter k hlt hhigh' hk
        rcases Nat.eq_or_lt_of_le hle with heq | hlt
        · exact .inr (Fin.ext heq)
        · exact .inl ⟨hlow', hlt, hk⟩
      · rintro (⟨hlow', hhigh', hk⟩ | rfl)
        · exact ⟨hlow', Nat.lt_trans hhigh' hhigh, hk⟩
        · exact ⟨hlow, hhigh, hsome⟩

theorem nextWith?_eq_none {t : Traversal α n} (h : t.Exact) (hnil : t.pending = [])
    (update : α → α) : t.nextWith? update = none := by
  have hzero : t.remaining = 0 := by rw [h, hnil, List.length_nil]
  rw [nextWith?, if_pos hzero]

theorem Exact.remaining_ne_zero {t : Traversal α n} (h : t.Exact) {i : Fin n}
    (hi : i ∈ t.pending) : t.remaining ≠ 0 := by
  rw [h]
  exact Nat.ne_of_gt (List.length_pos_of_mem hi)

theorem Exact.exists_nextWith? {t : Traversal α n} (h : t.Exact) {i : Fin n} (hi : i ∈ t.pending)
    (update : α → α) : ∃ item t', t.nextWith? update = some (item, t') := by
  obtain ⟨hlow, hhigh, hsome⟩ := mem_pending.1 hi
  cases hfirst : t.slots.first? Option.isSome t.low t.high with
  | none => exact absurd hsome (Slots.first?_eq_none hfirst i hlow hhigh)
  | some j =>
    obtain ⟨-, -, hoccupied, -⟩ := Slots.first?_eq_some hfirst
    obtain ⟨cell, hcell⟩ := Option.isSome_iff_exists.1 hoccupied
    rw [nextWith?, if_neg (h.remaining_ne_zero hi), hfirst, Option.bind_some, Slots.updateAt?, hcell]
    exact ⟨_, _, rfl⟩

theorem Exact.exists_nextBackWith? {t : Traversal α n} (h : t.Exact) {i : Fin n}
    (hi : i ∈ t.pending) (update : α → α) :
    ∃ item t', t.nextBackWith? update = some (item, t') := by
  obtain ⟨hlow, hhigh, hsome⟩ := mem_pending.1 hi
  cases hlast : t.slots.last? Option.isSome t.low t.high with
  | none => exact absurd hsome (Slots.last?_eq_none hlast i hlow hhigh)
  | some j =>
    obtain ⟨-, -, hoccupied, -⟩ := Slots.last?_eq_some hlast
    obtain ⟨cell, hcell⟩ := Option.isSome_iff_exists.1 hoccupied
    rw [nextBackWith?, if_neg (h.remaining_ne_zero hi), hlast, Option.bind_some, Slots.updateAt?,
      hcell]
    exact ⟨_, _, rfl⟩

/-- A visit takes one pending entry and counts it. -/
theorem Exact.of_visit {t t' : Traversal α n} (h : t.Exact)
    (hpending : t.pending.length = t'.pending.length + 1)
    (hremaining : t'.remaining + 1 = t.remaining) : t'.Exact := by
  unfold Exact at h ⊢
  omega

/-- An exact traversal that has pending entries visits the first one. -/
theorem nextWith?_eq_some {t : Traversal α n} (h : t.Exact) {i : Fin n} {rest : List (Fin n)}
    (hpending : t.pending = i :: rest) (update : α → α) :
    ∃ cell, t.slots.get i = some cell ∧ ∃ t' : Traversal α n,
      t.nextWith? update = some (update cell.item, t') ∧
      t'.slots = t.slots.put i (some { cell with item := update cell.item }) ∧
      t'.pending = rest ∧ t'.Exact := by
  have hmem : i ∈ t.pending := by simp [hpending]
  obtain ⟨item, t', hnext⟩ := h.exists_nextWith? hmem update
  obtain ⟨j, cell, hcell, rfl, hslots, hcons⟩ := pending_of_nextWith? hnext
  obtain ⟨rfl, rfl⟩ := List.cons.inj (hpending.symm.trans hcons)
  refine ⟨cell, hcell, t', hnext, hslots, rfl, h.of_visit ?_ (remaining_nextWith? hnext)⟩
  rw [hcons, List.length_cons]

/-- The contents of the pending slots, in slot order. -/
def pendingCells (t : Traversal α n) : List (Cell α) := t.pending.filterMap t.slots.get

/-- A visit takes the first pending cell and leaves the others as they are. -/
theorem pendingCells_eq_cons {t t' : Traversal α n} {i : Fin n} {rest : List (Fin n)}
    {cell : Cell α} {slot : Option (Cell α)} (hpending : t.pending = i :: rest)
    (hcell : t.slots.get i = some cell) (hslots : t'.slots = t.slots.put i slot)
    (hrest : t'.pending = rest) : t.pendingCells = cell :: t'.pendingCells := by
  have hnodup : (i :: rest).Nodup := by
    rw [← hpending]
    exact (List.nodup_finRange n).filter _
  have hsame : t'.pendingCells = rest.filterMap t.slots.get := by
    rw [pendingCells, hrest]
    apply List.filterMap_congr
    intro j hj
    rw [hslots, Slots.get_put_ne]
    rintro rfl
    exact (List.nodup_cons.1 hnodup).1 hj
  rw [pendingCells, hpending, List.filterMap_cons, hcell, hsame]

/-! ## Visits from both ends -/

/-- An end of a traversal. -/
inductive End
  | front
  | back
  deriving DecidableEq, Repr

/-- Visits one entry from the given end. -/
def stepWith? (t : Traversal α n) (side : End) (update : α → α) : Option (α × Traversal α n) :=
  match side with
  | .front => t.nextWith? update
  | .back => t.nextBackWith? update

/-- Visits entries from the given ends one after the other, as far as there are any. -/
def visit (t : Traversal α n) : List (End × (α → α)) → List α × Traversal α n
  | [] => ([], t)
  | (side, update) :: script =>
    match t.stepWith? side update with
    | none => t.visit script
    | some (item, t') =>
      let (items, last) := t'.visit script
      (item :: items, last)

theorem remaining_stepWith? {t t' : Traversal α n} {side : End} {update : α → α} {item : α}
    (h : t.stepWith? side update = some (item, t')) : t'.remaining + 1 = t.remaining := by
  cases side with
  | front => exact remaining_nextWith? h
  | back => exact remaining_nextBackWith? h

theorem hashAt?_stepWith? {t t' : Traversal α n} {side : End} {update : α → α} {item : α}
    (h : t.stepWith? side update = some (item, t')) : t'.slots.hashAt? = t.slots.hashAt? := by
  cases side with
  | front => exact hashAt?_nextWith? h
  | back => exact hashAt?_nextBackWith? h

theorem hashAt?_visit (t : Traversal α n) (script : List (End × (α → α))) :
    (t.visit script).2.slots.hashAt? = t.slots.hashAt? := by
  fun_induction visit t script with
  | case1 => rfl
  | case2 _ _ _ _ _ ih => exact ih
  | case3 _ _ _ _ _ _ hstep _ _ hlast ih =>
    rw [hlast] at ih
    exact ih.trans (hashAt?_stepWith? hstep)

/-- Applies the updates to the first items, as far as there are any. -/
def applyFirst {β : Type*} : List (β → β) → List β → List β
  | [], items => items
  | _ :: _, [] => []
  | update :: updates, item :: items => update item :: applyFirst updates items

/-- Updates that keep a property of an item keep it for all items. -/
theorem map_applyFirst {β γ : Type*} {f : β → γ} {updates : List (β → β)}
    (h : ∀ update ∈ updates, ∀ item, f (update item) = f item) (items : List β) :
    (applyFirst updates items).map f = items.map f := by
  induction updates generalizing items with
  | nil => rfl
  | cons update updates ih =>
    cases items with
    | nil => rfl
    | cons item items =>
      rw [applyFirst, List.map_cons, List.map_cons, h update List.mem_cons_self,
        ih fun update hmem => h update (List.mem_cons_of_mem _ hmem)]

theorem length_applyFirst {β : Type*} (updates : List (β → β)) (items : List β) :
    (applyFirst updates items).length = items.length := by
  have hmap : (applyFirst updates items).map (fun _ => ()) = items.map fun _ => () :=
    map_applyFirst (fun _ _ _ => rfl) items
  simpa using congrArg List.length hmap

/-- The update of a cell's item. -/
def onItem (update : α → α) (cell : Cell α) : Cell α := { cell with item := update cell.item }

/-- Visiting from the front updates the first pending cells and yields their new items. -/
theorem visit_front {t : Traversal α n} (h : t.Exact) (updates : List (α → α))
    {others : List (Cell α)} (hcells : t.slots.cells.Perm (others ++ t.pendingCells)) :
    let (items, last) := t.visit (updates.map (.front, ·))
    let cells := applyFirst (updates.map onItem) t.pendingCells
    items = (cells.take updates.length).map (·.item) ∧ last.slots.cells.Perm (others ++ cells) := by
  induction updates generalizing t others with
  | nil => exact ⟨rfl, hcells⟩
  | cons update updates ih =>
    cases hpending : t.pending with
    | nil =>
      have hnone : t.stepWith? .front update = none := nextWith?_eq_none h hpending update
      have hnil : t.pendingCells = [] := by simp [pendingCells, hpending]
      have hdone : ∀ updates : List (Cell α → Cell α), applyFirst updates [] = [] := by
        intro updates
        cases updates <;> rfl
      simpa [visit, hnone, hnil, hdone] using ih h hcells
    | cons i rest =>
      obtain ⟨cell, hcell, t', hstep, hslots, hrest, ht'⟩ := nextWith?_eq_some h hpending update
      have hcons := pendingCells_eq_cons hpending hcell hslots hrest
      have hcells' : t'.slots.cells.Perm ((others ++ [onItem update cell]) ++ t'.pendingCells) := by
        rw [hcons] at hcells
        have hold : (t.slots.others i).Perm (others ++ t'.pendingCells) := by
          apply (List.perm_cons cell).1
          calc List.Perm (cell :: t.slots.others i) t.slots.cells := by
                simpa [hcell] using (Slots.cells_perm_others t.slots i).symm
            List.Perm _ (others ++ cell :: t'.pendingCells) := hcells
            List.Perm _ (cell :: (others ++ t'.pendingCells)) := List.perm_middle
        rw [hslots]
        calc List.Perm _ (onItem update cell :: t.slots.others i) :=
              Slots.cells_put_perm t.slots i _
          List.Perm _ (onItem update cell :: (others ++ t'.pendingCells)) := hold.cons _
          List.Perm _ _ := by simpa using List.perm_middle.symm
      have hstep' : t.stepWith? .front update = some (update cell.item, t') := hstep
      obtain ⟨hitems, hlast⟩ := ih ht' hcells'
      simp only [List.map_cons, visit, hstep', hcons, applyFirst, List.length_cons,
        List.take_succ_cons, hitems]
      exact ⟨rfl, by simpa using hlast⟩

/-! ## Visits of all entries -/

/-- Visiting all entries that are left is visiting as many from the front as the counter says. -/
theorem restWith_eq_visit (t : Traversal α n) (update : α → α) :
    t.restWith update = t.visit ((List.replicate t.remaining update).map (.front, ·)) := by
  fun_induction restWith t update with
  | case1 t hnone =>
    have hstep : t.stepWith? .front update = none := hnone
    induction t.remaining with
    | zero => rfl
    | succ count ih => simpa [List.replicate_succ, visit, hstep] using ih
  | case2 t item t' hsome items last hrest ih =>
    have hstep : t.stepWith? .front update = some (item, t') := hsome
    rw [← remaining_nextWith? hsome, List.replicate_succ, List.map_cons, visit]
    simp only [hstep, ← ih, hrest]

theorem hashAt?_restWith (t : Traversal α n) (update : α → α) :
    (t.restWith update).2.slots.hashAt? = t.slots.hashAt? := by
  rw [restWith_eq_visit]
  exact hashAt?_visit t _

theorem applyFirst_replicate {β : Type*} (update : β → β) (items : List β) :
    applyFirst (List.replicate items.length update) items = items.map update := by
  induction items with
  | nil => rfl
  | cons item items ih => simpa [List.replicate_succ, applyFirst] using ih

/-- Visiting all entries yields the new items of the pending cells in slot order. -/
theorem restWith_spec {t : Traversal α n} (h : t.Exact) (update : α → α) {others : List (Cell α)}
    (hcells : t.slots.cells.Perm (others ++ t.pendingCells)) :
    (t.restWith update).1 = t.pendingCells.map (fun cell => update cell.item) ∧
      (t.restWith update).2.slots.cells.Perm (others ++ t.pendingCells.map (onItem update)) := by
  have hlength : t.remaining = t.pendingCells.length := by
    rw [h, pendingCells, List.length_filterMap_eq_countP]
    symm
    apply List.countP_eq_length.2
    intro i hi
    exact (mem_pending.1 hi).2.2
  obtain ⟨hitems, hlast⟩ := visit_front h (List.replicate t.remaining update) hcells
  have hall : applyFirst ((List.replicate t.pendingCells.length update).map onItem)
      t.pendingCells = t.pendingCells.map (onItem update) := by
    rw [List.map_replicate, applyFirst_replicate]
  rw [hlength, hall] at hitems hlast
  rw [restWith_eq_visit, hlength]
  refine ⟨?_, hlast⟩
  rw [hitems]
  simp [onItem, Function.comp_def]

theorem rest_of_none {t : Traversal α n} (h : t.next? = none) : t.rest = [] := by
  have hstep : t.nextWith? id = none := h
  rw [rest, restWith]
  split
  · rfl
  · next hsome => cases hstep.symm.trans hsome

theorem rest_of_some {t t' : Traversal α n} {item : α} (h : t.next? = some (item, t')) :
    t.rest = item :: t'.rest := by
  have hstep : t.nextWith? id = some (item, t') := h
  rw [rest, restWith]
  split
  · next hnone => cases hstep.symm.trans hnone
  · next hsome =>
    cases hstep.symm.trans hsome
    rfl

/-- What is left of an exact traversal are the items of the pending cells. -/
theorem Exact.rest_eq {t : Traversal α n} (h : t.Exact) :
    t.rest = t.pendingCells.map (·.item) := by
  generalize hpending : t.pending = positions
  induction positions generalizing t with
  | nil =>
    rw [rest_of_none (nextWith?_eq_none h hpending id), pendingCells, hpending]
    rfl
  | cons i positions ih =>
    obtain ⟨cell, hcell, t', hnext, hslots, hrest, ht'⟩ := nextWith?_eq_some h hpending id
    rw [rest_of_some hnext, pendingCells_eq_cons hpending hcell hslots hrest, ih ht' hrest]
    rfl

end Traversal

end LinearProbing

-- SUMMARY: A traversal that is asked from both ends in any order hands out every entry once, then nothing.
import LinearProbing.Proofs.Traversal

/-! # Traversals from both ends

An exact traversal is asked for entries from either end, in any order, also after its last one. Its
pending entries split into those that the front has handed out, in slot order, those that the back
has handed out, in the opposite order, and those in between that are still pending.
-/

namespace LinearProbing

universe u

variable {α : Type u} {n : Nat}

namespace Slots

theorem mem_entries {s : Slots α n} {i : Fin n} {cell : Cell α} :
    (i, cell) ∈ s.entries ↔ s.get i = some cell := by
  simp [entries]

theorem fst_entries (s : Slots α n) :
    s.entries.map (·.1) = (List.finRange n).filter fun i => (s.get i).isSome := by
  rw [entries, List.map_filterMap, ← List.filterMap_eq_filter]
  apply List.filterMap_congr
  intro i _
  cases hi : s.get i <;> simp [Option.guard, hi]

theorem ascending_entries (s : Slots α n) : (s.entries.map (·.1)).Pairwise (· < ·) := by
  rw [fst_entries]
  exact (List.pairwise_lt_finRange n).filter _

/-- Overwriting an entry changes it where it stands. -/
theorem entries_put {s : Slots α n} {i : Fin n} {cell : Cell α} {before after : List (Fin n × Cell α)}
    (h : s.entries = before ++ (i, cell) :: after) (cell' : Cell α) :
    (s.put i (some cell')).entries = before ++ (i, cell') :: after := by
  let overwrite (entry : Fin n × Cell α) : Fin n × Cell α :=
    if entry.1 = i then (i, cell') else entry
  have hmap : (s.put i (some cell')).entries = s.entries.map overwrite := by
    rw [entries, entries, List.map_filterMap]
    apply List.filterMap_congr
    intro j _
    by_cases hij : i = j
    · subst hij
      have hi : s.get i = some cell := mem_entries.1 (by rw [h]; simp)
      simp [hi, overwrite]
    · rw [get_put_ne _ _ hij]
      cases s.get j <;> simp [overwrite, Ne.symm hij]
  have hnodup : (s.entries.map (·.1)).Nodup := s.ascending_entries.imp Fin.ne_of_lt
  rw [h, List.map_append, List.map_cons, List.nodup_append] at hnodup
  obtain ⟨-, hcons, hbefore⟩ := hnodup
  have hsame (entries : List (Fin n × Cell α)) (hne : ∀ entry ∈ entries, entry.1 ≠ i) :
      entries.map overwrite = entries := by
    refine (List.map_congr_left ?_).trans (List.map_id _)
    intro entry hentry
    exact if_neg (hne entry hentry)
  have hbefore' : before.map overwrite = before := by
    refine hsame before fun entry hentry => ?_
    exact hbefore _ (List.mem_map_of_mem hentry) _ List.mem_cons_self
  have hafter' : after.map overwrite = after := by
    refine hsame after fun entry hentry heq => (List.nodup_cons.1 hcons).1 ?_
    exact List.mem_map.2 ⟨entry, hentry, heq⟩
  rw [hmap, h, List.map_append, List.map_cons, hbefore', hafter']
  simp [overwrite]

end Slots

namespace Traversal

/-! ## Pending entries -/

/-- The pending slots with their contents, in slot order. -/
def pendingEntries (t : Traversal α n) : List (Fin n × Cell α) :=
  t.pending.filterMap fun i => (t.slots.get i).map (i, ·)

theorem map_snd_pendingEntries (t : Traversal α n) :
    t.pendingEntries.map (·.2) = t.pendingCells := by
  rw [pendingEntries, List.map_filterMap, pendingCells]
  apply List.filterMap_congr
  intro i _
  cases t.slots.get i <;> rfl

theorem length_pendingEntries (t : Traversal α n) : t.pendingEntries.length = t.pending.length := by
  rw [pendingEntries, List.length_filterMap_eq_countP, List.countP_eq_length]
  intro i hi
  rw [Option.isSome_map]
  exact (mem_pending.1 hi).2.2

theorem Exact.remaining_eq {t : Traversal α n} (h : t.Exact) :
    t.remaining = t.pendingEntries.length :=
  Eq.trans h (length_pendingEntries t).symm

/-- Overwriting a slot that is not pending any more changes no pending entry. -/
theorem pendingEntries_of_put {t t' : Traversal α n} {i : Fin n} {slot : Option (Cell α)}
    (hslots : t'.slots = t.slots.put i slot) (hi : i ∉ t'.pending) :
    t'.pendingEntries = t'.pending.filterMap fun j => (t.slots.get j).map (j, ·) := by
  apply List.filterMap_congr
  intro j hj
  rw [hslots, Slots.get_put_ne]
  rintro rfl
  exact hi hj

/-- Puts an element at one end of a list. -/
def End.attach {β : Type*} (side : End) (x : β) (xs : List β) : List β :=
  match side with
  | .front => x :: xs
  | .back => xs ++ [x]

theorem End.length_attach {β : Type*} (side : End) (x : β) (xs : List β) :
    (side.attach x xs).length = xs.length + 1 := by
  cases side with
  | front => rfl
  | back => simp [attach]

/-- The step lemma: an entry that is handed out stood at that end of the pending ones. -/
theorem stepWith?_eq_some {t t' : Traversal α n} {side : End} {update : α → α} {item : α}
    (h : t.stepWith? side update = some (item, t')) :
    ∃ i cell, t.slots.get i = some cell ∧ item = update cell.item ∧
      t'.slots = t.slots.put i (some (onItem update cell)) ∧
      t.pendingEntries = side.attach (i, cell) t'.pendingEntries := by
  have hnodup : t.pending.Nodup := (sorted_pending t).imp Fin.ne_of_lt
  cases side with
  | front =>
    obtain ⟨i, cell, hcell, rfl, hslots, hpending⟩ := pending_of_nextWith? h
    rw [hpending, List.nodup_cons] at hnodup
    refine ⟨i, cell, hcell, rfl, hslots, ?_⟩
    rw [End.attach, pendingEntries_of_put hslots hnodup.1, pendingEntries, hpending,
      List.filterMap_cons, hcell]
    rfl
  | back =>
    obtain ⟨i, cell, hcell, rfl, hslots, hpending⟩ := pending_of_nextBackWith? h
    have hi : i ∉ t'.pending := by
      rw [hpending, List.nodup_append] at hnodup
      exact fun hi => hnodup.2.2 i hi i (List.mem_singleton_self i) rfl
    refine ⟨i, cell, hcell, rfl, hslots, ?_⟩
    rw [End.attach, pendingEntries_of_put hslots hi, pendingEntries, hpending,
      List.filterMap_append, List.filterMap_cons, hcell]
    rfl

theorem Exact.stepWith? {t t' : Traversal α n} (h : t.Exact) {side : End} {update : α → α}
    {item : α} (hstep : t.stepWith? side update = some (item, t')) : t'.Exact := by
  obtain ⟨i, cell, -, -, -, hentries⟩ := stepWith?_eq_some hstep
  refine h.of_visit ?_ (remaining_stepWith? hstep)
  rw [← length_pendingEntries, ← length_pendingEntries, hentries, End.length_attach]

/-- Nothing is handed out if and only if nothing is pending. -/
theorem Exact.stepWith?_eq_none_iff {t : Traversal α n} (h : t.Exact) (side : End)
    (update : α → α) : t.stepWith? side update = none ↔ t.remaining = 0 := by
  constructor
  · intro hnone
    by_contra hne
    have hlength : 0 < t.pending.length := by
      unfold Exact at h
      omega
    have hmem := List.getElem_mem hlength
    obtain ⟨item, t', hstep⟩ : ∃ item t', t.stepWith? side update = some (item, t') := by
      cases side with
      | front => exact h.exists_nextWith? hmem update
      | back => exact h.exists_nextBackWith? hmem update
    rw [hnone] at hstep
    cases hstep
  · intro hzero
    cases side with
    | front => exact if_pos hzero
    | back => exact if_pos hzero

/-! ## Requests at both ends -/

/-- The answers to requests, each with the end that it comes from, and the traversal after them. A
request that finds nothing left is answered by `none`. -/
def serve (t : Traversal α n) :
    List (End × (α → α)) → List (End × Option α) × Traversal α n
  | [] => ([], t)
  | (side, update) :: script =>
    match t.stepWith? side update with
    | none =>
      let (answers, last) := t.serve script
      ((side, none) :: answers, last)
    | some (item, t') =>
      let (answers, last) := t'.serve script
      ((side, some item) :: answers, last)

/-- A visit is what is served, without the requests that found nothing. -/
theorem visit_eq_serve (t : Traversal α n) (script : List (End × (α → α))) :
    t.visit script = ((t.serve script).1.filterMap (·.2), (t.serve script).2) := by
  induction script generalizing t with
  | nil => rfl
  | cons request script ih =>
    obtain ⟨side, update⟩ := request
    cases hstep : t.stepWith? side update with
    | none => simp [visit, serve, hstep, ih]
    | some result => simp [visit, serve, hstep, ih]

theorem hashAt?_serve (t : Traversal α n) (script : List (End × (α → α))) :
    (t.serve script).2.slots.hashAt? = t.slots.hashAt? := by
  have h := hashAt?_visit t script
  rwa [visit_eq_serve] at h

theorem map_fst_serve (t : Traversal α n) (script : List (End × (α → α))) :
    (t.serve script).1.map (·.1) = script.map (·.1) := by
  induction script generalizing t with
  | nil => rfl
  | cons request script ih =>
    obtain ⟨side, update⟩ := request
    cases hstep : t.stepWith? side update with
    | none => simp [serve, hstep, ih]
    | some result => simp [serve, hstep, ih]

/-- Requests that change no item leave the array as it is. -/
theorem slots_serve_of_reading (t : Traversal α n) {script : List (End × (α → α))}
    (hreading : ∀ request ∈ script, request.2 = id) : (t.serve script).2.slots = t.slots := by
  induction script generalizing t with
  | nil => rfl
  | cons request script ih =>
    obtain ⟨side, update⟩ := request
    obtain rfl : update = id := hreading _ List.mem_cons_self
    have hrest : ∀ request ∈ script, request.2 = id :=
      fun request hrequest => hreading request (List.mem_cons_of_mem _ hrequest)
    cases hstep : t.stepWith? side id with
    | none => simpa [serve, hstep] using ih t hrest
    | some result =>
      obtain ⟨item, t'⟩ := result
      obtain ⟨i, cell, hcell, -, hslots, -⟩ := stepWith?_eq_some hstep
      have hsame : t'.slots = t.slots := hslots.trans (Slots.put_of_get hcell)
      simpa [serve, hstep, hsame] using ih t' hrest

/-- The updates that a script asks for at one end. -/
def End.updates (side : End) (script : List (End × (α → α))) : List (α → α) :=
  script.filterMap fun request => if request.1 = side then some request.2 else none

/-- The items that have been handed out at one end. -/
def End.items (side : End) (answers : List (End × Option α)) : List α :=
  answers.filterMap fun answer => if answer.1 = side then answer.2 else none

/-- Applies an update to the item of an entry. -/
def onEntry (update : α → α) (entry : Fin n × Cell α) : Fin n × Cell α :=
  (entry.1, onItem update entry.2)

/-- The entries after the updates that a script asks for at one end. -/
def End.updated (side : End) (script : List (End × (α → α))) (entries : List (Fin n × Cell α)) :
    List (Fin n × Cell α) :=
  applyFirst ((side.updates script).map onEntry) entries

/-- The items of entries. -/
def itemsOf (entries : List (Fin n × Cell α)) : List α := entries.map (·.2.item)

/-- A script of requests has been served: the pending entries are those in `front`, which the front
has handed out in this order, those `left`, and those in `back`, which the back has handed out in
this order. -/
structure Serves (t : Traversal α n) (script : List (End × (α → α)))
    (front left back : List (Fin n × Cell α)) : Prop where
  split : t.pendingEntries = front ++ left ++ back.reverse
  front_items : End.front.items (t.serve script).1 = itemsOf (End.front.updated script front)
  back_items : End.back.items (t.serve script).1 = itemsOf (End.back.updated script back)
  /-- Every request has an answer until all entries are handed out, and none has afterwards. -/
  answered : ∀ asked side answer, (t.serve script).1[asked]? = some (side, answer) →
    (answer.isSome ↔ asked < t.remaining)
  length_left : left.length = t.remaining - script.length
  pending_after : (t.serve script).2.pendingEntries = left
  exact_after : (t.serve script).2.Exact
  /-- Nothing changes but the items that are handed out. -/
  entries_after : ∀ before after, t.slots.entries = before ++ t.pendingEntries ++ after →
    (t.serve script).2.slots.entries =
      before ++ (End.front.updated script front ++ left ++
        (End.back.updated script back).reverse) ++ after

theorem End.updated_nil (side : End) (script : List (End × (α → α))) :
    side.updated script ([] : List (Fin n × Cell α)) = [] := by
  unfold updated
  cases (side.updates script).map onEntry <;> rfl

theorem End.updated_of_reading (side : End) {script : List (End × (α → α))}
    (hreading : ∀ request ∈ script, request.2 = id) (entries : List (Fin n × Cell α)) :
    side.updated script entries = entries := by
  have hkeeps : ∀ update ∈ (side.updates script).map (onEntry (n := n)),
      ∀ entry, id (update entry) = id entry := by
    intro update hupdate entry
    obtain ⟨update', hupdate', rfl⟩ := List.mem_map.1 hupdate
    obtain ⟨request, hrequest, heq⟩ := List.mem_filterMap.1 hupdate'
    split at heq
    · cases heq
      rw [hreading request hrequest]
      rfl
    · cases heq
  have hsame := map_applyFirst hkeeps entries
  rwa [List.map_id, List.map_id] at hsame

theorem serve_of_finished {t : Traversal α n} (h : t.Exact) (hzero : t.remaining = 0)
    (script : List (End × (α → α))) :
    t.serve script = (script.map fun request => (request.1, none), t) := by
  induction script with
  | nil => rfl
  | cons request script ih =>
    obtain ⟨side, update⟩ := request
    have hnone := (h.stepWith?_eq_none_iff side update).2 hzero
    simp [serve, hnone, ih]

/-- A traversal at its end has no answers. -/
theorem Exact.serves_of_finished {t : Traversal α n} (h : t.Exact) (hzero : t.remaining = 0)
    (script : List (End × (α → α))) : t.Serves script [] [] [] := by
  have hnil : t.pendingEntries = [] := List.eq_nil_of_length_eq_zero (h.remaining_eq ▸ hzero)
  have hitems (side : End) : side.items (script.map fun request => (request.1, (none : Option α))) =
      [] := by
    simp [End.items]
  refine
    { split := hnil
      front_items := ?_
      back_items := ?_
      answered := ?_
      length_left := by rw [hzero, Nat.zero_sub]; rfl
      pending_after := ?_
      exact_after := ?_
      entries_after := ?_ }
  all_goals rw [serve_of_finished h hzero]
  · rw [hitems, End.updated_nil]; rfl
  · rw [hitems, End.updated_nil]; rfl
  · intro asked side answer hanswer
    obtain ⟨request, -, hnone⟩ := Option.map_eq_some_iff.1 ((List.getElem?_map ..).symm.trans hanswer)
    cases hnone
    rw [hzero]
    exact iff_of_false Bool.false_ne_true (Nat.not_lt_zero asked)
  · exact hnil
  · exact h
  · intro before after hentries
    rw [hentries, hnil, End.updated_nil, End.updated_nil]; rfl

/-- Puts an element in front of what the target end has handed out, if this is the target. -/
def End.record {β : Type*} (side target : End) (x : β) (xs : List β) : List β :=
  if side = target then x :: xs else xs

theorem End.items_cons (side target : End) (item : α) (answers : List (End × Option α)) :
    target.items ((side, some item) :: answers) = side.record target item (target.items answers) := by
  by_cases h : side = target <;> simp [items, record, h]

theorem End.updated_cons (side target : End) (update : α → α) (script : List (End × (α → α)))
    (entry : Fin n × Cell α) (entries : List (Fin n × Cell α)) :
    target.updated ((side, update) :: script) (side.record target entry entries) =
      side.record target (onEntry update entry) (target.updated script entries) := by
  by_cases h : side = target <;> simp [updated, updates, record, applyFirst, h]

theorem End.itemsOf_record (side target : End) (entry : Fin n × Cell α)
    (entries : List (Fin n × Cell α)) :
    itemsOf (side.record target entry entries) =
      side.record target entry.2.item (itemsOf entries) := by
  by_cases h : side = target <;> simp [itemsOf, record, h]

theorem serve_cons {t t' : Traversal α n} {side : End} {update : α → α} {item : α}
    (hstep : t.stepWith? side update = some (item, t')) (script : List (End × (α → α))) :
    t.serve ((side, update) :: script) =
      ((side, some item) :: (t'.serve script).1, (t'.serve script).2) := by
  simp [serve, hstep]

/-- The step lemma for scripts: the entry that is handed out first goes to its end. -/
theorem Serves.cons {t t' : Traversal α n} {side : End} {update : α → α} {i : Fin n} {cell : Cell α}
    (hstep : t.stepWith? side update = some (update cell.item, t'))
    (hslots : t'.slots = t.slots.put i (some (onItem update cell)))
    (hentries : t.pendingEntries = side.attach (i, cell) t'.pendingEntries)
    {script : List (End × (α → α))} {front left back : List (Fin n × Cell α)}
    (h : t'.Serves script front left back) :
    t.Serves ((side, update) :: script) (side.record .front (i, cell) front) left
      (side.record .back (i, cell) back) := by
  have hremaining := remaining_stepWith? hstep
  have hitems (target : End) (entries : List (Fin n × Cell α))
      (hrest : target.items (t'.serve script).1 = itemsOf (target.updated script entries)) :
      target.items (t.serve ((side, update) :: script)).1 =
        itemsOf (target.updated ((side, update) :: script) (side.record target (i, cell) entries)) := by
    rw [serve_cons hstep, End.items_cons, hrest, End.updated_cons, End.itemsOf_record]
    rfl
  refine
    { split := ?_
      front_items := hitems .front front h.front_items
      back_items := hitems .back back h.back_items
      answered := ?_
      length_left := ?_
      pending_after := ?_
      exact_after := ?_
      entries_after := ?_ }
  · rw [hentries, h.split]
    cases side <;> simp [End.attach, End.record]
  · rw [serve_cons hstep]
    intro asked target answer hanswer
    cases asked with
    | zero =>
      cases hanswer
      exact iff_of_true rfl (by omega)
    | succ asked =>
      rw [h.answered asked target answer hanswer]
      omega
  · rw [h.length_left, List.length_cons]
    omega
  · rw [serve_cons hstep]
    exact h.pending_after
  · rw [serve_cons hstep]
    exact h.exact_after
  · intro before after hall
    rw [serve_cons hstep, End.updated_cons, End.updated_cons]
    cases side with
    | front =>
      have hput : t'.slots.entries =
          before ++ (i, onItem update cell) :: (t'.pendingEntries ++ after) := by
        rw [hslots]
        exact Slots.entries_put (by simpa [hentries, End.attach] using hall) _
      have hlast := h.entries_after (before ++ [(i, onItem update cell)]) after (by simpa using hput)
      simpa [End.record, onEntry] using hlast
    | back =>
      have hput : t'.slots.entries =
          before ++ t'.pendingEntries ++ (i, onItem update cell) :: after := by
        rw [hslots]
        exact Slots.entries_put (by simpa [hentries, End.attach] using hall) _
      have hlast := h.entries_after before ((i, onItem update cell) :: after) hput
      simpa [End.record, onEntry] using hlast

/-- The run lemma: an exact traversal serves every script. -/
theorem Exact.exists_serves {t : Traversal α n} (h : t.Exact) (script : List (End × (α → α))) :
    ∃ front left back, t.Serves script front left back := by
  induction script generalizing t with
  | nil =>
    exact ⟨[], t.pendingEntries, [],
      { split := by simp
        front_items := rfl
        back_items := rfl
        answered := fun _ _ _ hanswer => absurd hanswer (by simp [serve])
        length_left := h.remaining_eq.symm
        pending_after := rfl
        exact_after := h
        entries_after := fun before after hall => by simpa [serve, End.updated_nil] using hall }⟩
  | cons request script ih =>
    obtain ⟨side, update⟩ := request
    cases hstep : t.stepWith? side update with
    | none =>
      exact ⟨[], [], [], h.serves_of_finished ((h.stepWith?_eq_none_iff side update).1 hstep) _⟩
    | some result =>
      obtain ⟨item, t'⟩ := result
      obtain ⟨i, cell, -, rfl, hslots, hentries⟩ := stepWith?_eq_some hstep
      obtain ⟨front, left, back, hserves⟩ := ih (h.stepWith? hstep)
      exact ⟨_, _, _, hserves.cons hstep hslots hentries⟩

/-- Requests at the front only. -/
def fromFront (updates : List (α → α)) : List (End × (α → α)) := updates.map (.front, ·)

theorem updates_fromFront (updates : List (α → α)) :
    End.front.updates (fromFront updates) = updates := by
  simp [End.updates, fromFront]

/-- The back hands out nothing that it is not asked for. -/
theorem Serves.back_eq_nil {t : Traversal α n} {updates : List (α → α)}
    {front left back : List (Fin n × Cell α)} (h : t.Serves (fromFront updates) front left back) :
    back = [] := by
  have hnone : End.back.items (t.serve (fromFront updates)).1 = [] := by
    refine List.filterMap_eq_nil_iff.2 fun answer hanswer => if_neg ?_
    have hside : answer.1 ∈ (fromFront updates).map (·.1) := by
      rw [← map_fst_serve t (fromFront updates)]
      exact List.mem_map_of_mem hanswer
    simp only [fromFront, List.map_map, List.mem_map, Function.comp_apply] at hside
    obtain ⟨_, -, heq⟩ := hside
    rw [← heq]
    decide
  have hlength := congrArg List.length h.back_items
  rw [hnone, itemsOf, List.length_map, End.updated, length_applyFirst] at hlength
  exact List.eq_nil_of_length_eq_zero hlength.symm

end Traversal

end LinearProbing

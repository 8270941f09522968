-- SUMMARY: What operations leave alone: the sizing of a table, and its number of slots but for a few.
import LinearProbing.Proofs.Table.Run
import Mathlib.Logic.Relation

/-! # Frames

No operation changes what a table does when it has no room. Most leave its number of slots as it is,
too: `Resized` lists the numbers that an operation can lead to. So a table that grows always has
fewer slots than the bound, and one that does not keeps its slots, unless an operation that it does
not offer asks for another number.
-/

namespace LinearProbing

universe u

variable {α : Type u}

theorem EntryUse.sizing_result (use : EntryUse α) (e : Entry α) :
    (use.result e).sizing = e.table.sizing := by
  cases use with
  | orInsertWith item update => cases e <;> rfl
  | andModify update => cases e <;> rfl
  | branch item? update removes =>
    cases e with
    | vacant e => cases item? <;> rfl
    | occupied e => cases removes <;> rfl

theorem EntryUse.capacity_result (use : EntryUse α) (e : Entry α) :
    (use.result e).capacity = e.table.capacity := by
  cases use with
  | orInsertWith item update => cases e <;> rfl
  | andModify update => cases e <;> rfl
  | branch item? update removes =>
    cases e with
    | vacant e => cases item? <;> rfl
    | occupied e => cases removes <;> rfl

namespace Table

variable {t t' : Table α} {hash : UInt64} {accepts : α → Bool}

/-! ## One operation -/

/-- The numbers of slots that an operation can lead to. -/
inductive Resized (t : Table α) : Op α → Nat → Prop
  | stays (op : Op α) : Resized t op t.capacity
  | grows {policy : GrowthPolicy} (op : Op α) {capacity : Nat} (sizing : t.sizing = .growing policy)
      (below : capacity < capacityBound) : Resized t op capacity
  | asked {capacity : Nat} (below : capacity < capacityBound) : Resized t (.grow capacity) capacity
  | shrinks : Resized t .shrinkToFit t.count

theorem lt_bound_of_grow {capacity : Nat} (h : t.grow capacity = .ok t') :
    capacity < capacityBound := by
  unfold grow at h
  split at h
  · cases h
  · split at h
    · cases h
    · next hbelow => exact Nat.lt_of_not_le hbelow

/-- The table in whose slots an operation takes effect: the one it is applied to, or one with more
room for an entry, or one with the number of slots that is asked for. -/
inductive Moves (t : Table α) : Op α → Table α → Prop
  | stays (op : Op α) : Moves t op t
  | entry {hash : UInt64} {accepts : α → Bool} {t' : Table α} (room : MakesRoom t hash accepts t')
      (use : EntryUse α) : Moves t (.entry hash accepts use) t'
  | grow {capacity : Nat} {t' : Table α} (ok : t.grow capacity = .ok t') :
      Moves t (.grow capacity) t'
  | reserve {additional : Nat} {t' : Table α} (ok : t.reserve additional = .ok t') :
      Moves t (.reserve additional) t'
  | shrinkToFit {t' : Table α} (ok : t.shrinkToFit = .ok t') : Moves t .shrinkToFit t'

theorem Moves.rehoused {op : Op α} (h : Moves t op t') (ht : t.WellFormed) : Rehoused t t' := by
  cases h with
  | stays => exact ht.rehoused
  | entry hroom => exact hroom.rehoused ht
  | grow hgrow => exact (ht.grow_eq_ok hgrow).1
  | reserve hreserve => exact ht.reserve_eq_ok hreserve
  | shrinkToFit hshrink => exact (ht.shrinkToFit_eq_ok hshrink).1

theorem MakesRoom.resized (h : MakesRoom t hash accepts t') (ht : t.WellFormed) (op : Op α) :
    Resized t op t'.capacity := by
  cases h with
  | stays => exact .stays op
  | grows hsizing _ henlarge =>
    rw [(ht.grow_eq_ok henlarge).2]
    exact .grows op hsizing (lt_bound_of_grow henlarge)

theorem WellFormed.resized_reserve (h : t.WellFormed) {additional : Nat}
    (hreserve : t.reserve additional = .ok t') : Resized t (.reserve additional) t'.capacity := by
  unfold reserve at hreserve
  split at hreserve
  · cases hreserve
    exact .stays _
  · next policy hsizing =>
    simp only at hreserve
    split at hreserve
    · rw [(h.grow_eq_ok hreserve).2]
      exact .grows _ hsizing (lt_bound_of_grow hreserve)
    · cases hreserve
      exact .stays _

theorem Moves.resized {op : Op α} (h : Moves t op t') (ht : t.WellFormed) :
    Resized t op t'.capacity := by
  cases h with
  | stays => exact .stays op
  | entry hroom => exact hroom.resized ht _
  | grow hgrow =>
    rw [(ht.grow_eq_ok hgrow).2]
    exact .asked (lt_bound_of_grow hgrow)
  | reserve hreserve => exact ht.resized_reserve hreserve
  | shrinkToFit hshrink =>
    rw [(ht.shrinkToFit_eq_ok hshrink).2]
    exact .shrinks

/-- The step lemma: apart from the entries an operation changes nothing that a move has not. -/
theorem WellFormed.exists_moves (h : t.WellFormed) {op : Op α} (hop : op.result? t = some t') :
    ∃ moved, Moves t op moved ∧ t'.sizing = moved.sizing ∧ t'.capacity = moved.capacity := by
  cases op with
  | entry hash accepts use =>
    obtain ⟨e, hentry, rfl⟩ := Option.map_eq_some_iff.1 hop
    obtain ⟨room, hroom, -, hlocates⟩ := h.entry_eq_ok (ok_of_toOption hentry)
    rw [use.sizing_result, use.capacity_result, hlocates.table_eq]
    exact ⟨room, .entry hroom use, rfl, rfl⟩
  | tryEntry hash accepts use =>
    obtain ⟨e, hlocate, rfl⟩ := Option.map_eq_some_iff.1 hop
    have hlocates := h.locate_eq_ok (ok_of_toOption hlocate)
    rw [use.sizing_result, use.capacity_result, hlocates.table_eq]
    exact ⟨t, .stays _, rfl, rfl⟩
  | modify hash accepts update =>
    obtain ⟨⟨item, t'⟩, hmodify, rfl⟩ := Option.map_eq_some_iff.1 hop
    obtain ⟨i, cell, -, -, rfl⟩ := modify?_eq_some hmodify
    exact ⟨t, .stays _, rfl, rfl⟩
  | remove hash accepts =>
    obtain ⟨⟨item, t'⟩, hremove, rfl⟩ := Option.map_eq_some_iff.1 hop
    obtain ⟨i, cell, -, -, rfl⟩ := remove?_eq_some hremove
    exact ⟨t, .stays _, rfl, rfl⟩
  | visit script | clear | drain =>
    cases hop
    exact ⟨t, .stays _, rfl, rfl⟩
  | grow capacity => exact ⟨t', .grow (ok_of_toOption hop), rfl, rfl⟩
  | reserve additional => exact ⟨t', .reserve (ok_of_toOption hop), rfl, rfl⟩
  | shrinkToFit => exact ⟨t', .shrinkToFit (ok_of_toOption hop), rfl, rfl⟩
  | retain select state =>
    obtain ⟨⟨last, t'⟩, hretain, rfl⟩ := Option.map_eq_some_iff.1 hop
    obtain ⟨t₁, hretain₁, -, hsizing, hcapacity, -⟩ := t.retain_spec select state
    rw [ok_of_toOption hretain] at hretain₁
    cases hretain₁
    exact ⟨t, .stays _, hsizing, hcapacity⟩

/-- What an operation may change apart from the entries. -/
theorem WellFormed.frame_result? (h : t.WellFormed) {op : Op α} (hop : op.result? t = some t') :
    t'.sizing = t.sizing ∧ Resized t op t'.capacity := by
  obtain ⟨moved, hmoves, hsizing, hcapacity⟩ := h.exists_moves hop
  rw [hsizing, hcapacity]
  exact ⟨(hmoves.rehoused h).sizing_eq, hmoves.resized h⟩

theorem WellFormed.frame_after (h : t.WellFormed) (op : Op α) :
    (op.after t).sizing = t.sizing ∧ Resized t op (op.after t).capacity := by
  unfold Op.after
  cases hop : op.result? t with
  | some t' => exact h.frame_result? hop
  | none => exact ⟨rfl, .stays op⟩

/-! ## Growing tables -/

/-- The number of slots of a growing table stays below the bound. -/
theorem Reachable.capacity_lt (h : t.Reachable) {policy : GrowthPolicy}
    (hsizing : t.sizing = .growing policy) : t.capacity < capacityBound := by
  induction h with
  | start hstarts =>
    cases hstarts with
    | ofPolicy policy =>
      have hbelow : initialCapacity < capacityBound := by decide
      exact hbelow
    | ofCapacity hok =>
      unfold Table.ofCapacity at hok
      split at hok
      · next hbelow =>
        cases hok
        exact hbelow
      · cases hok
    | ofBound capacity => cases hsizing
  | @step t hreachable op ih =>
    have hwf := hreachable.wellFormed
    obtain ⟨hsame, hresized⟩ := hwf.frame_after op
    have hcapacity := ih (hsame.symm.trans hsizing)
    generalize (op.after t).capacity = capacity at hresized
    cases hresized with
    | stays => exact hcapacity
    | grows _ _ hbelow => exact hbelow
    | asked hbelow => exact hbelow
    | shrinks => exact Nat.lt_of_le_of_lt hwf.count_le hcapacity

/-! ## Several operations -/

/-- Operations of some kind lead from one table to another. -/
def Leads (Allowed : Op α → Prop) : Table α → Table α → Prop :=
  Relation.ReflTransGen fun t t' => ∃ op, Allowed op ∧ t' = op.after t

/-- The operation asks for a number of slots, of a table of any sizing. -/
def Op.Resizes : Op α → Prop
  | .grow _ => True
  | .shrinkToFit => True
  | _ => False

variable {Allowed : Op α → Prop}

theorem Leads.single {op : Op α} (hallowed : Allowed op) : Leads Allowed t (op.after t) :=
  Relation.ReflTransGen.single ⟨op, hallowed, rfl⟩

theorem Leads.of_eq_after (op : Op α) (hallowed : Allowed op) (h : t' = op.after t) :
    Leads Allowed t t' :=
  h ▸ Leads.single hallowed

theorem Leads.mono {Allowed' : Op α → Prop} (h : Leads Allowed t t')
    (hallowed : ∀ op, Allowed op → Allowed' op) : Leads Allowed' t t' := by
  induction h with
  | refl => exact Relation.ReflTransGen.refl
  | tail _ hstep ih =>
    obtain ⟨op, hop, rfl⟩ := hstep
    exact ih.trans (Leads.single (hallowed op hop))

theorem Leads.reachable (h : Leads Allowed t t') (ht : t.Reachable) : t'.Reachable := by
  induction h with
  | refl => exact ht
  | tail _ hstep ih =>
    obtain ⟨op, -, rfl⟩ := hstep
    exact .step ih op

theorem Leads.wellFormed (h : Leads Allowed t t') (ht : t.WellFormed) : t'.WellFormed := by
  induction h with
  | refl => exact ht
  | tail _ hstep ih =>
    obtain ⟨op, -, rfl⟩ := hstep
    exact ih.after op

theorem Leads.sizing_eq (h : Leads Allowed t t') (ht : t.WellFormed) : t'.sizing = t.sizing := by
  induction h with
  | refl => rfl
  | tail hleads hstep ih =>
    obtain ⟨op, -, rfl⟩ := hstep
    exact ((Leads.wellFormed hleads ht).frame_after op).1.trans ih

/-- The table after operations, one after the other. -/
def afterAll (t : Table α) (ops : List (Op α)) : Table α := ops.foldl (fun t op => op.after t) t

theorem leads_afterAll {ops : List (Op α)} (h : ∀ op ∈ ops, Allowed op) :
    Leads Allowed t (t.afterAll ops) := by
  induction ops generalizing t with
  | nil => exact Relation.ReflTransGen.refl
  | cons op ops ih =>
    have hrest : Leads Allowed (op.after t) ((op.after t).afterAll ops) :=
      ih fun op hop => h op (List.mem_cons_of_mem _ hop)
    exact (Leads.single (h op List.mem_cons_self)).trans hrest

/-- A bounded table keeps its slots, unless it is asked for another number. -/
theorem Leads.capacity_eq (h : Leads (fun op : Op α => ¬op.Resizes) t t') (ht : t.WellFormed)
    (hsizing : t.sizing = .bounded) : t'.capacity = t.capacity := by
  induction h with
  | refl => rfl
  | @tail t₁ t₂ hleads hstep ih =>
    obtain ⟨op, hop, rfl⟩ := hstep
    have hwf := Leads.wellFormed hleads ht
    have hbounded : t₁.sizing = .bounded := (Leads.sizing_eq hleads ht).trans hsizing
    obtain ⟨-, hresized⟩ := hwf.frame_after op
    rw [← ih]
    generalize (op.after t₁).capacity = capacity at hresized
    cases hresized with
    | stays => rfl
    | grows _ hgrowing =>
      rw [hbounded] at hgrowing
      cases hgrowing
    | asked => exact absurd trivial hop
    | shrinks => exact absurd trivial hop

end Table

end LinearProbing

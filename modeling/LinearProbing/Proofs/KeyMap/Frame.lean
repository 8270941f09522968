-- SUMMARY: An operation on a map is operations on its table, whatever the function that hashes the keys.
import LinearProbing.Proofs.KeyMap.Operations
import LinearProbing.Proofs.Simulation
import LinearProbing.Proofs.Table.Frame

/-! # Maps as tables

What an operation on a map does to the table of the map can be done by operations on the table. So
what holds of all tables that operations lead to holds of the tables of all maps. Nothing is assumed
of the function that hashes the keys or of their equality.
-/

namespace LinearProbing.KeyMap

universe u v

open Table

variable {K : Type u} {V : Type v}

/-- The entry of the table. -/
def Entry.place : Entry K V → LinearProbing.Entry (K × V)
  | .vacant e => .vacant e.place
  | .occupied e => .occupied e.place

theorem Entry.place_ofPlace (hash : K → UInt64) (key : K) (place : LinearProbing.Entry (K × V)) :
    (ofPlace hash key place).place = place := by
  cases place <;> rfl

/-! ## Uses of an entry -/

/-- All that is done with an occupied entry comes to a change of its pair, and then its removal or
not. -/
theorem OccupiedUse.table_apply (use : OccupiedUse V) (e : OccupiedEntry K V) :
    ∃ update removes, ∀ pair? : Option (K × V),
      (use.apply e).2.table =
        (LinearProbing.EntryUse.branch pair? update removes).result (.occupied e.place) := by
  induction use generalizing e with
  | release =>
    refine ⟨id, false, fun _ => ?_⟩
    rw [LinearProbing.EntryUse.result, OccupiedEntry.modify_id]
    rfl
  | key rest ih | get rest ih => exact ih e
  | modify update rest ih =>
    obtain ⟨update', removes, hresult⟩ := ih (e.modify update)
    refine ⟨update' ∘ updatePair fun _ => update, removes, fun pair? => (hresult pair?).trans ?_⟩
    rw [LinearProbing.EntryUse.result, LinearProbing.EntryUse.result,
      ← OccupiedEntry.modify_modify]
    rfl
  | insert value rest ih =>
    obtain ⟨update', removes, hresult⟩ := ih (e.modify fun _ => value)
    refine ⟨update' ∘ updatePair fun _ _ => value, removes, fun pair? => (hresult pair?).trans ?_⟩
    rw [LinearProbing.EntryUse.result, LinearProbing.EntryUse.result,
      ← OccupiedEntry.modify_modify]
    rfl
  | remove | removeEntry =>
    refine ⟨id, true, fun _ => ?_⟩
    rw [LinearProbing.EntryUse.result, OccupiedEntry.modify_id]
    rfl

theorem EntryUse.table_apply_occupied (use : EntryUse V) (e : OccupiedEntry K V) :
    ∃ update removes, ∀ pair? : Option (K × V),
      (use.apply (.occupied e)).2.table =
        (LinearProbing.EntryUse.branch pair? update removes).result (.occupied e.place) := by
  induction use generalizing e with
  | key => exact OccupiedUse.release.table_apply e
  | orInsertWith value update => exact (OccupiedUse.modify update .release).table_apply e
  | insert value => exact (OccupiedUse.insert value .release).table_apply e
  | andModify update rest ih =>
    obtain ⟨update', removes, hresult⟩ := ih (e.modify update)
    refine ⟨update' ∘ updatePair fun _ => update, removes, fun pair? => (hresult pair?).trans ?_⟩
    rw [LinearProbing.EntryUse.result, LinearProbing.EntryUse.result,
      ← OccupiedEntry.modify_modify]
    rfl
  | branch vacant occupied => exact occupied.table_apply e

theorem EntryUse.table_apply_vacant (use : EntryUse V) (e : VacantEntry K V) :
    ∃ pair?, ∀ update removes,
      (use.apply (.vacant e)).2.table =
        (LinearProbing.EntryUse.branch pair? update removes).result (.vacant e.place) := by
  induction use with
  | key => exact ⟨none, fun _ _ => rfl⟩
  | orInsertWith value update =>
    refine ⟨some (e.key, update (value ())), fun _ _ => ?_⟩
    have hinsert := e.place.modify_insert (e.key, value ()) (updatePair fun _ => update)
    exact congrArg LinearProbing.OccupiedEntry.table hinsert
  | insert value => exact ⟨some (e.key, value), fun _ _ => rfl⟩
  | andModify update rest ih => exact ih
  | branch vacant occupied =>
    cases vacant with
    | intoKey => exact ⟨none, fun _ _ => rfl⟩
    | insert value => exact ⟨some (e.key, value), fun _ _ => rfl⟩

theorem EntryUse.table_apply (use : EntryUse V) (e : Entry K V) :
    ∃ use' : LinearProbing.EntryUse (K × V), (use.apply e).2.table = use'.result e.place := by
  cases e with
  | vacant e =>
    obtain ⟨pair?, hresult⟩ := use.table_apply_vacant e
    exact ⟨_, hresult id false⟩
  | occupied e =>
    obtain ⟨update, removes, hresult⟩ := use.table_apply_occupied e
    exact ⟨_, hresult none⟩

/-! ## Operations -/

/-- The operation asks for another number of slots. -/
def Op.Resizes : Op K V → Prop
  | .shrinkToFit => True
  | _ => False

variable [BEq K] {m : KeyMap K V} {Allowed : Table.Op (K × V) → Prop}

theorem leads_use (hallowed : ∀ hash accepts use, Allowed (.entry hash accepts use)) (key : K)
    (use : EntryUse V) :
    Leads Allowed m.table (attempt m ((m.entry key).map use.apply)).2.table := by
  unfold entry
  cases hentry : m.table.entry (m.hash key) (belongs key) with
  | ok place =>
    obtain ⟨use', hresult⟩ := use.table_apply (Entry.ofPlace m.hash key place)
    rw [Entry.place_ofPlace] at hresult
    refine Leads.of_eq_after _ (hallowed (m.hash key) (belongs key) use') ?_
    rw [Table.Op.after, Table.Op.result?, hentry]
    exact hresult
  | error fault => exact Relation.ReflTransGen.refl

theorem leads_insert (hallowed : ∀ hash accepts use, Allowed (.entry hash accepts use)) (key : K)
    (value : V) {result : Option V × KeyMap K V} (hinsert : m.insert key value = .ok result) :
    Leads Allowed m.table result.2.table := by
  have huse := leads_use (m := m) hallowed key (.insert value)
  rw [← map_insert, hinsert] at huse
  exact huse

/-- Pairs are inserted one after the other, each by an entry. -/
theorem leads_insertAll (hallowed : ∀ hash accepts use, Allowed (.entry hash accepts use))
    (pairs : List (K × V)) : Leads Allowed m.table (m.insertAll pairs).1.table := by
  refine insertEach_induction (fun m' : KeyMap K V => Leads Allowed m.table m'.table) ?_
    Relation.ReflTransGen.refl pairs
  intro m₁ pair old m₂ hleads hinsert
  exact hleads.trans (leads_insert hallowed pair.1 pair.2 hinsert)

/-- The step lemma: only an operation that asks for another number of slots does so of the table. -/
theorem leads_perform (op : Op K V) (m : KeyMap K V) :
    Leads (fun op' => op'.Resizes → op.Resizes) m.table (op.perform m).2.table := by
  have hunchanged (op : Op K V) :
      Leads (fun op' => op'.Resizes → op.Resizes) m.table m.table := Relation.ReflTransGen.refl
  cases op with
  | get key | getEntry key | contains key | occurrences key | find key | toList | count
  | isEmpty | fetch key => exact hunchanged _
  | lookup key =>
    rw [Op.perform]
    cases m.lookup key <;> exact hunchanged _
  | insert key value =>
    rw [Op.perform, map_insert]
    exact leads_use (fun _ _ _ => id) key _
  | getOrInsert key value update =>
    rw [Op.perform, map_getOrInsert]
    exact leads_use (fun _ _ _ => id) key _
  | entry key use => exact leads_use (fun _ _ _ => id) key use
  | tryInsert key value =>
    rw [Op.perform, tryInsert, locate]
    cases hlocate : m.table.locate (m.hash key) (belongs key) with
    | ok place =>
      obtain ⟨use', hresult⟩ := (EntryUse.insert value).table_apply (Entry.ofPlace m.hash key place)
      rw [Entry.place_ofPlace] at hresult
      refine Leads.of_eq_after (.tryEntry (m.hash key) (belongs key) use') id ?_
      rw [Table.Op.after, Table.Op.result?, hlocate]
      exact hresult
    | error error => exact hunchanged _
  | insertAll pairs => exact leads_insertAll (fun _ _ _ => id) pairs
  | modify key update =>
    refine Leads.of_eq_after
      (.modify (m.hash key) (belongs key) (updatePair fun _ => update)) id ?_
    rw [Op.perform, modify?_eq_map, Table.Op.after, Table.Op.result?]
    cases m.table.modify? (m.hash key) (belongs key) (updatePair fun _ => update) <;> rfl
  | remove key =>
    refine Leads.of_eq_after (.remove (m.hash key) (belongs key)) id ?_
    rw [Op.perform, remove?, removeEntry?, Table.Op.after, Table.Op.result?]
    cases m.table.remove? (m.hash key) (belongs key) <;> rfl
  | removeEntry key =>
    refine Leads.of_eq_after (.remove (m.hash key) (belongs key)) id ?_
    rw [Op.perform, removeEntry?, Table.Op.after, Table.Op.result?]
    cases m.table.remove? (m.hash key) (belongs key) <;> rfl
  | retain visit state =>
    refine Leads.of_eq_after (.retain (visitPair visit) state) id ?_
    rw [Op.perform, retain_eq_map, Table.Op.after, Table.Op.result?]
    cases m.table.retain (visitPair visit) state <;> rfl
  | reserve additional =>
    refine Leads.of_eq_after (.reserve additional) id ?_
    rw [Op.perform, reserve, Table.Op.after, Table.Op.result?]
    cases m.table.reserve additional <;> rfl
  | shrinkToFit =>
    refine Leads.of_eq_after .shrinkToFit (fun _ => trivial) ?_
    rw [Op.perform, shrinkToFit, Table.Op.after, Table.Op.result?]
    cases m.table.shrinkToFit <;> rfl
  | clear => exact Leads.of_eq_after .clear id rfl
  | drain => exact Leads.of_eq_after .drain id rfl
  | visitFirst updates => exact Leads.of_eq_after (.visit _) id rfl
  | mapValues update =>
    have hvisit := m.table.traversal.restWith_eq_visit (updatePair update)
    refine Leads.of_eq_after (.visit ((List.replicate m.table.traversal.remaining
      (updatePair update)).map fun update => (.front, update))) id ?_
    rw [Table.Op.after, Table.Op.result?, ← hvisit]
    rfl

/-- The table of a map stays one that operations on tables lead to. -/
theorem reachable_final (h : m.table.Reachable) (ops : List (Op K V)) :
    (final Op.perform m ops).table.Reachable := by
  induction ops generalizing m with
  | nil => exact h
  | cons op ops ih => exact ih ((leads_perform op m).reachable h)

end LinearProbing.KeyMap

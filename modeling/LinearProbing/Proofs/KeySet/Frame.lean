-- SUMMARY: An operation on a set is operations on its table, whatever the function that hashes the keys.
import LinearProbing.Proofs.KeySet.Operations
import LinearProbing.Proofs.Simulation
import LinearProbing.Proofs.Table.Frame

/-! # Sets as tables

As for maps, what an operation on a set does to the table of the set can be done by operations on
the table.
-/

namespace LinearProbing.KeySet

universe u

open Table

variable {K : Type u}

theorem table_add (s : KeySet K) (key : K) (e : Entry K) :
    (s.add key e).2.table = (EntryUse.branch (some key) id false).result e := by
  cases e with
  | vacant e => rfl
  | occupied e =>
    rw [EntryUse.result, OccupiedEntry.modify_id]
    rfl

/-- The operation asks for another number of slots. -/
def Op.Resizes : Op K → Prop
  | .shrinkToFit => True
  | _ => False

variable [BEq K] {s : KeySet K} {Allowed : Table.Op K → Prop}

theorem leads_insert (hallowed : ∀ hash accepts use, Allowed (.entry hash accepts use)) {key : K}
    {result : Bool × KeySet K} (hinsert : s.insert key = .ok result) :
    Leads Allowed s.table result.2.table := by
  unfold insert entry at hinsert
  cases hentry : s.table.entry (s.hash key) (key == ·) with
  | ok e =>
    rw [hentry] at hinsert
    cases hinsert
    refine Leads.of_eq_after _
      (hallowed (s.hash key) (key == ·) (.branch (some key) id false)) ?_
    rw [Table.Op.after, Table.Op.result?, hentry, table_add]
    rfl
  | error fault =>
    rw [hentry] at hinsert
    cases hinsert

theorem leads_insertAll (hallowed : ∀ hash accepts use, Allowed (.entry hash accepts use))
    (keys : List K) : Leads Allowed s.table (s.insertAll keys).1.table := by
  refine insertEach_induction (fun s' : KeySet K => Leads Allowed s.table s'.table) ?_
    Relation.ReflTransGen.refl keys
  intro s₁ key new s₂ hleads hinsert
  exact hleads.trans (leads_insert hallowed hinsert)

/-- The step lemma: only an operation that asks for another number of slots does so of the table. -/
theorem leads_perform (op : Op K) (s : KeySet K) :
    Leads (fun op' => op'.Resizes → op.Resizes) s.table (op.perform s).2.table := by
  have hunchanged (op : Op K) :
      Leads (fun op' => op'.Resizes → op.Resizes) s.table s.table := Relation.ReflTransGen.refl
  cases op with
  | get key | contains key | occurrences key | find key | toList | count | isEmpty =>
    exact hunchanged _
  | insert key =>
    rw [Op.perform]
    cases hinsert : s.insert key with
    | ok result => exact leads_insert (fun _ _ _ => id) hinsert
    | error fault => exact hunchanged _
  | tryInsert key =>
    refine Leads.of_eq_after
      (.tryEntry (s.hash key) (key == ·) (.branch (some key) id false)) id ?_
    rw [Op.perform, tryInsert, locate, Table.Op.after, Table.Op.result?]
    cases s.table.locate (s.hash key) (key == ·) with
    | ok e => exact s.table_add key e
    | error error => rfl
  | replace key =>
    refine Leads.of_eq_after
      (.entry (s.hash key) (key == ·) (.branch (some key) (fun _ => key) false)) id ?_
    rw [Op.perform, replace, entry, Table.Op.after, Table.Op.result?]
    rcases s.table.entry (s.hash key) (key == ·) with fault | ⟨e | e⟩ <;> rfl
  | insertAll keys => exact leads_insertAll (fun _ _ _ => id) keys
  | take key | remove key =>
    refine Leads.of_eq_after (.remove (s.hash key) (key == ·)) id ?_
    rw [Op.perform, take?, Table.Op.after, Table.Op.result?]
    cases s.table.remove? (s.hash key) (key == ·) <;> rfl
  | retain visit state =>
    refine Leads.of_eq_after (.retain (visitKey visit) state) id ?_
    rw [Op.perform, retain_eq_map, Table.Op.after, Table.Op.result?]
    cases s.table.retain (visitKey visit) state <;> rfl
  | reserve additional =>
    refine Leads.of_eq_after (.reserve additional) id ?_
    rw [Op.perform, reserve, Table.Op.after, Table.Op.result?]
    cases s.table.reserve additional <;> rfl
  | shrinkToFit =>
    refine Leads.of_eq_after .shrinkToFit (fun _ => trivial) ?_
    rw [Op.perform, shrinkToFit, Table.Op.after, Table.Op.result?]
    cases s.table.shrinkToFit <;> rfl
  | clear => exact Leads.of_eq_after .clear id rfl
  | drain => exact Leads.of_eq_after .drain id rfl

theorem reachable_final (h : s.table.Reachable) (ops : List (Op K)) :
    (final Op.perform s ops).table.Reachable := by
  induction ops generalizing s with
  | nil => exact h
  | cons op ops ih => exact ih ((leads_perform op s).reachable h)

end LinearProbing.KeySet

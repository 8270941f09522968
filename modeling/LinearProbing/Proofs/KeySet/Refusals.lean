-- SUMMARY: The exact conditions under which a growing set refuses an operation, and what a refusal leaves.
import LinearProbing.Proofs.KeySet.Frame
import LinearProbing.Proofs.Table.Refusals

/-! # Operations that a set refuses

As for maps: a growing set refuses an operation that makes room only if its table does, and what was
done before the refusal stays.
-/

namespace LinearProbing.KeySet

universe u

open Table (fails_iff_false isOk_map)

variable {K : Type u} [BEq K] {s s' : KeySet K} {policy : GrowthPolicy}

/-- The condition under which a growing set refuses an operation. -/
def Op.Refused (policy : GrowthPolicy) (s : KeySet K) : Op K → Prop
  | .insert _ | .replace _ => s.table.Outgrown policy
  | .insertAll keys => ∃ s' fault, StopsAt KeySet.insert s s' keys fault
  | .reserve additional => s.table.Unreservable policy additional
  | _ => False

/-- What is left of a set that has refused an operation. -/
def Op.Leaves (s s' : KeySet K) (fault : Fault) : Op K → Prop
  | .insertAll keys => StopsAt KeySet.insert s s' keys fault
  | _ => s' = s

/-- A fault leaves what was stored before it. -/
theorem leaves_of_perform (op : Op K) {fault : Fault} (h : op.perform s = (.error fault, s')) :
    op.Leaves s s' fault := by
  cases op with
  | insert key | replace key | retain visit state | reserve additional | shrinkToFit =>
    exact eq_of_attempt h
  | insertAll keys => exact concluded_insertEach_eq_error_iff.1 h
  | tryInsert key =>
    rw [Op.perform] at h
    cases htry : s.tryInsert key <;> rw [htry] at h <;> cases h
  | take key | remove key =>
    rw [Op.perform] at h
    cases htake : s.take? key <;> rw [htake] at h <;> cases h
  | get key | contains key | occurrences key | find key | clear | drain | toList | count
  | isEmpty => cases h

/-- A growing set refuses an operation exactly under its condition. -/
theorem perform_fails_iff (h : s.table.Grows policy) (op : Op K) :
    (op.perform s).1.isOk = false ↔ op.Refused policy s := by
  have hwf := h.reachable.wellFormed
  cases op with
  | insert key =>
    rw [Op.perform, isOk_attempt, isOk_map, insert, isOk_map]
    exact h.entry_fails_iff (s.hash key) (key == ·)
  | replace key =>
    rw [Op.perform, isOk_attempt, isOk_map, replace, isOk_map]
    exact h.entry_fails_iff (s.hash key) (key == ·)
  | insertAll keys => exact concluded_insertEach_fails_iff
  | reserve additional =>
    rw [Op.perform, isOk_attempt, isOk_map, reserve, isOk_map]
    exact hwf.reserve_fails_iff h.sizing_eq additional
  | shrinkToFit =>
    rw [Op.perform, isOk_attempt, isOk_map, shrinkToFit, isOk_map]
    exact fails_iff_false hwf.shrinkToFit_isOk
  | retain visit state =>
    rw [Op.perform, isOk_attempt, isOk_map, retain_eq_map, isOk_map]
    exact fails_iff_false (s.table.retain_isOk (visitKey visit) state)
  | tryInsert key =>
    rw [Op.perform]
    cases s.tryInsert key <;> exact fails_iff_false rfl
  | take key | remove key =>
    rw [Op.perform]
    cases s.take? key <;> exact fails_iff_false rfl
  | get key | contains key | occurrences key | find key | clear | drain | toList | count
  | isEmpty => exact fails_iff_false rfl

end LinearProbing.KeySet

-- SUMMARY: The exact conditions under which a growing map refuses an operation, and what a refusal leaves.
import LinearProbing.Proofs.KeyMap.Frame
import LinearProbing.Proofs.Table.Refusals

/-! # Operations that a map refuses

A growing map refuses an operation that makes room only if its table does, and a key that is
expected to be there only if it is not. What was done before the refusal stays: nothing, but for a
series of pairs, of which those before the refused one are stored. Nothing is assumed of the
function that hashes the keys or of their equality.
-/

namespace LinearProbing.KeyMap

universe u v

open Table (fails_iff_false isOk_map)

variable {K : Type u} {V : Type v} [BEq K] {m m' : KeyMap K V} {policy : GrowthPolicy}

/-- The condition under which a growing map refuses an operation. -/
def Op.Refused (policy : GrowthPolicy) (m : KeyMap K V) : Op K V → Prop
  | .insert _ _ | .getOrInsert _ _ _ | .entry _ _ => m.table.Outgrown policy
  | .insertAll pairs => ∃ m' fault, StopsAt store m m' pairs fault
  | .reserve additional => m.table.Unreservable policy additional
  | .fetch key => m.contains key = false
  | _ => False

/-- What is left of a map that has refused an operation. -/
def Op.Leaves (m m' : KeyMap K V) (fault : Fault) : Op K V → Prop
  | .insertAll pairs => StopsAt store m m' pairs fault
  | _ => m' = m

/-- A fault leaves what was stored before it. -/
theorem leaves_of_perform (op : Op K V) {fault : Fault} (h : op.perform m = (.error fault, m')) :
    op.Leaves m m' fault := by
  cases op with
  | insert key value | getOrInsert key value update | entry key use | retain visit state
  | reserve additional | shrinkToFit => exact eq_of_attempt h
  | insertAll pairs => exact concluded_insertEach_eq_error_iff.1 h
  | fetch key => exact (Prod.mk.inj h).2.symm
  | tryInsert key value =>
    rw [Op.perform] at h
    cases htry : m.tryInsert key value <;> rw [htry] at h <;> cases h
  | lookup key =>
    rw [Op.perform] at h
    cases hlookup : m.lookup key <;> rw [hlookup] at h <;> cases h
  | modify key update =>
    rw [Op.perform] at h
    cases hmodify : m.modify? key update <;> rw [hmodify] at h <;> cases h
  | remove key =>
    rw [Op.perform] at h
    cases hremove : m.remove? key <;> rw [hremove] at h <;> cases h
  | removeEntry key =>
    rw [Op.perform] at h
    cases hremove : m.removeEntry? key <;> rw [hremove] at h <;> cases h
  | get key | getEntry key | contains key | occurrences key | find key | clear | drain
  | visitFirst updates | mapValues update | toList | count | isEmpty => cases h

theorem useEntry_fails_iff (h : m.table.Grows policy) (key : K)
    (apply : Entry K V → Answer K V × KeyMap K V) :
    (attempt m ((m.entry key).map apply)).1.isOk = false ↔ m.table.Outgrown policy := by
  rw [isOk_attempt, isOk_map, entry, isOk_map]
  exact h.entry_fails_iff (m.hash key) (belongs key)

theorem fetch_fails_iff (m : KeyMap K V) (key : K) :
    ((Op.fetch key).perform m).1.isOk = false ↔ m.contains key = false := by
  rw [Op.perform, fetch, contains]
  cases m.get? key with
  | none => exact iff_of_true rfl rfl
  | some value => exact iff_of_false Bool.false_ne_true.symm Bool.false_ne_true.symm

/-- A growing map refuses an operation exactly under its condition. -/
theorem perform_fails_iff (h : m.table.Grows policy) (op : Op K V) :
    (op.perform m).1.isOk = false ↔ op.Refused policy m := by
  have hwf := h.reachable.wellFormed
  cases op with
  | insert key value =>
    rw [Op.perform, map_insert]
    exact useEntry_fails_iff h key _
  | getOrInsert key value update =>
    rw [Op.perform, map_getOrInsert]
    exact useEntry_fails_iff h key _
  | entry key use => exact useEntry_fails_iff h key use.apply
  | insertAll pairs => exact concluded_insertEach_fails_iff
  | fetch key => exact fetch_fails_iff m key
  | reserve additional =>
    rw [Op.perform, isOk_attempt, isOk_map, reserve, isOk_map]
    exact hwf.reserve_fails_iff h.sizing_eq additional
  | shrinkToFit =>
    rw [Op.perform, isOk_attempt, isOk_map, shrinkToFit, isOk_map]
    exact fails_iff_false hwf.shrinkToFit_isOk
  | retain visit state =>
    rw [Op.perform, isOk_attempt, isOk_map, retain_eq_map, isOk_map]
    exact fails_iff_false (m.table.retain_isOk (visitPair visit) state)
  | tryInsert key value =>
    rw [Op.perform]
    cases m.tryInsert key value <;> exact fails_iff_false rfl
  | lookup key =>
    rw [Op.perform]
    cases m.lookup key <;> exact fails_iff_false rfl
  | modify key update =>
    rw [Op.perform]
    cases m.modify? key update <;> exact fails_iff_false rfl
  | remove key =>
    rw [Op.perform]
    cases m.remove? key <;> exact fails_iff_false rfl
  | removeEntry key =>
    rw [Op.perform]
    cases m.removeEntry? key <;> exact fails_iff_false rfl
  | get key | getEntry key | contains key | occurrences key | find key | clear | drain
  | visitFirst updates | mapValues update | toList | count | isEmpty =>
    exact fails_iff_false rfl

end LinearProbing.KeyMap

-- SUMMARY: Every operation on a set as a program on its table: it comes to what the operation yields.
import LinearProbing.Proofs.KeySet.Frame
import LinearProbing.Proofs.Program.Operations
import LinearProbing.Proofs.Program.Series

/-! # Programs for sets

An operation on a set is a program on the table of the set, as for maps: keys are stored at an
index, and a series of keys one after the other.
-/

namespace LinearProbing.KeySet

open Program (attempt_eq_ended ended exec exec_bind exec_bind_of_ok exec_entry_bind forEach Handle)

variable {K : Type}

/-- Stores the key in a vacant entry; says whether it was new. -/
def addAt (key : K) : Handle → Program (Table K) (Answer K)
  | .vacant index hash => do
    Program.insertAt index hash key
    pure (.flag true)
  | .occupied _ => pure (.flag false)

/-- Stores the key, also instead of the one in an occupied entry. -/
def replaceAt (key : K) : Handle → Program (Table K) (Answer K)
  | .vacant index hash => do
    Program.insertAt index hash key
    pure (.key none)
  | .occupied index => do
    let old ← Program.itemIn index
    let _ ← Program.changeIn index fun _ => key
    pure (.key (some old))

variable [BEq K]

/-- Adds a key after room is made for it. -/
def store (hash : K → UInt64) (key : K) : Program (Table K) (Answer K) := do
  let handle ← Program.entry (hash key) (key == ·)
  addAt key handle

/-- The stored key that is equal to this one. -/
def search (hash : K → UInt64) (key : K) : Program (Table K) (Option K) :=
  Program.find (hash key) (key == ·)

/-- The program of an operation. -/
def program (hash : K → UInt64) (op : Op K) : Program (Table K) (Answer K) :=
  match op with
  | .insert key => store hash key
  | .tryInsert key => do
    match ← Program.locate (hash key) (key == ·) with
    | some handle => addAt key handle
    | none =>
      let t ← get
      pure (.failed (.capacityExceeded t.capacity))
  | .replace key => do
    let handle ← Program.entry (hash key) (key == ·)
    replaceAt key handle
  | .get key => do
    let key? ← search hash key
    pure (.key key?)
  | .contains key => do
    let key? ← search hash key
    pure (.flag key?.isSome)
  | .occurrences key => do
    let key? ← search hash key
    pure (.number key?.isSome.toNat)
  | .find key => do
    let position ← Program.cursor (hash key) (key == ·)
    let key? ← Program.onSlots (Program.itemAt position)
    pure (.key key?)
  | .take key => do
    let key? ← Program.remove (hash key) (key == ·)
    pure (.key key?)
  | .remove key => do
    let key? ← Program.remove (hash key) (key == ·)
    pure (.flag key?.isSome)
  | .insertAll keys => do
    forEach (store hash) keys
    pure .done
  | .retain visit state => do
    let _ ← Program.retain (visitKey visit) state
    pure .done
  | .reserve additional => do
    Program.reserve additional
    pure .done
  | .shrinkToFit => do
    Program.shrinkToFit
    pure .done
  | .clear => do
    Program.clear
    pure .done
  | .drain => do
    let keys ← Program.drain
    pure (.keys keys)
  | .toList => do
    let keys ← Program.toList
    pure (.keys keys)
  | .count => do
    let t ← get
    pure (.number t.count)
  | .isEmpty => do
    let t ← get
    pure (.flag t.isEmpty)

variable {s : KeySet K}

omit [BEq K] in
theorem exec_addAt (s : KeySet K) (key : K) (e : Entry K) (h : e.table.Addressable) :
    exec (addAt key (.ofEntry e)) e.table =
      .some (.ok (.flag (s.add key e).1), (s.add key e).2.table) := by
  cases e with
  | vacant e => exact exec_bind_of_ok (Program.exec_insertAt e h key) _
  | occupied e => rfl

theorem exec_store (h : s.table.Addressable) (key : K) :
    exec (store s.hash key) s.table =
      ended table (attempt s ((s.insert key).map fun result => (.flag result.1, result.2))) := by
  have hrun : exec (store s.hash key) s.table =
      Program.attempt s.table ((s.table.entry (s.hash key) (key == ·)).map fun e =>
        (.flag (s.add key e).1, (s.add key e).2.table)) :=
    exec_entry_bind h (s.hash key) (key == ·) (s.exec_addAt key)
  rw [hrun, ← attempt_eq_ended, insert, entry]
  cases s.table.entry (s.hash key) (key == ·) <;> rfl

theorem exec_search (h : s.table.Addressable) (key : K) :
    exec (search s.hash key) s.table = .some (.ok (s.get? key), s.table) :=
  Program.exec_find h ..

theorem hash_insert {key : K} {result : Bool × KeySet K} (h : s.insert key = .ok result) :
    result.2.hash = s.hash := by
  unfold insert entry at h
  cases hentry : s.table.entry (s.hash key) (key == ·) with
  | ok e =>
    rw [hentry] at h
    cases h
    cases e <;> rfl
  | error fault =>
    rw [hentry] at h
    cases h

theorem exec_insertAll (h : s.table.Addressable) (keys : List K) :
    exec (forEach (store s.hash) keys) s.table = ended table (concluded () (s.insertAll keys)) := by
  refine Program.exec_forEach Answer.flag
    (fun s' : KeySet K => s'.hash = s.hash ∧ s'.table.Addressable) ?_ ?_ ⟨rfl, h⟩ keys
  · rintro s' key ⟨hhash, hs'⟩
    rw [← hhash]
    exact exec_store hs' key
  · rintro s₁ key new s₂ ⟨hhash, hs₁⟩ hinsert
    have hleads : Table.Leads (fun _ => True) s₁.table s₂.table :=
      leads_insert (fun _ _ _ => trivial) hinsert
    exact ⟨(hash_insert hinsert).trans hhash, hleads.addressable hs₁⟩

theorem exec_replace (h : s.table.Addressable) (key : K) :
    exec (program s.hash (.replace key)) s.table = ended table ((Op.replace key).perform s) := by
  have hrun : exec (program s.hash (.replace key)) s.table =
      Program.attempt s.table ((s.table.entry (s.hash key) (key == ·)).map fun e =>
        (.key e.item?, (EntryUse.branch (some key) (fun _ => key) false).result e)) := by
    refine exec_entry_bind h (s.hash key) (key == ·) ?_
    intro e he
    cases e with
    | vacant e => exact exec_bind_of_ok (Program.exec_insertAt e he key) _
    | occupied e =>
      refine (exec_bind_of_ok (Program.exec_itemIn e) _).trans ?_
      exact exec_bind_of_ok (Program.exec_changeIn e fun _ => key) _
  rw [hrun, Op.perform, replace, entry]
  rcases s.table.entry (s.hash key) (key == ·) with fault | ⟨e | e⟩ <;> rfl

/-- The program of an operation comes to what the operation yields. -/
theorem exec_program (h : s.table.Addressable) (op : Op K) :
    exec (program s.hash op) s.table = ended table (op.perform s) := by
  cases op with
  | insert key => exact exec_store h key
  | tryInsert key =>
    rw [program, exec_bind_of_ok (Program.exec_locate h _ _), Op.perform, tryInsert, locate]
    rcases h.wellFormed.locate_cases (s.hash key) (key == ·) with
      ⟨e, hlocate, hlocates⟩ | ⟨hlocate, -⟩
    · have hrun := s.exec_addAt key e (hlocates.table_eq ▸ h)
      rw [hlocates.table_eq] at hrun
      rw [hlocate]
      exact hrun
    · rw [hlocate]
      exact exec_bind_of_ok (Program.exec_get s.table) _
  | replace key => exact exec_replace h key
  | get key | contains key | occurrences key => exact exec_bind_of_ok (exec_search h key) _
  | find key =>
    have hitem := Program.exec_onSlots (t := s.table) (Program.itemAt (s.cursor key).index)
      (Program.exec_itemAt (s.cursor key))
    rw [program, exec_bind_of_ok (Program.exec_cursor h _ _)]
    exact exec_bind_of_ok hitem _
  | take key | remove key =>
    rw [program, exec_bind, Program.exec_remove h, Op.perform, take?]
    cases s.table.remove? (s.hash key) (key == ·) <;> exact Part.bind_some _ _
  | insertAll keys => exact Program.exec_forEach_concluded (exec_insertAll h keys) Answer.done
  | retain visit state =>
    rw [program, exec_bind, Program.exec_retain h, Op.perform, retain_eq_map]
    cases s.table.retain (visitKey visit) state <;> exact Part.bind_some _ _
  | reserve additional =>
    rw [program, exec_bind, Program.exec_reserve h, Op.perform, reserve]
    cases s.table.reserve additional <;> exact Part.bind_some _ _
  | shrinkToFit =>
    rw [program, exec_bind, Program.exec_shrinkToFit h, Op.perform, shrinkToFit]
    cases s.table.shrinkToFit <;> exact Part.bind_some _ _
  | clear => exact exec_bind_of_ok (Program.exec_clear s.table) _
  | drain => exact exec_bind_of_ok (Program.exec_drain s.table) _
  | toList => exact exec_bind_of_ok (Program.exec_toList s.table) _
  | count | isEmpty => exact exec_bind_of_ok (Program.exec_get s.table) _

end LinearProbing.KeySet

-- SUMMARY: Every operation on a map as a program on its table: it comes to what the operation yields.
import LinearProbing.Proofs.KeyMap.Frame
import LinearProbing.Proofs.Program.Operations
import LinearProbing.Proofs.Program.Series

/-! # Programs for maps

An operation on a map is a program on the table of the map. What a caller does with an entry is done
with an index, and pairs are inserted one after the other in a table that changes with each of them;
so what a fault leaves behind is what the earlier ones have stored.
-/

namespace LinearProbing.KeyMap

open Program (attempt_eq_ended ended exec exec_bind exec_bind_of_ok exec_entry_bind forEach Handle)

variable {K V : Type}

/-! ## Uses of an entry -/

def VacantUse.program (use : VacantUse V) (key : K) (index : Nat) (hash : UInt64) :
    Program (Table (K × V)) (Answer K V) :=
  match use with
  | .intoKey => pure (.key key)
  | .insert value => do
    Program.insertAt index hash (key, value)
    let pair ← Program.itemIn index
    pure (.value (some pair.2))

def OccupiedUse.program (use : OccupiedUse V) (index : Nat) :
    Program (Table (K × V)) (List (Answer K V)) :=
  match use with
  | .release => pure []
  | .key rest => do
    let pair ← Program.itemIn index
    let answers ← rest.program index
    pure (.key pair.1 :: answers)
  | .get rest => do
    let pair ← Program.itemIn index
    let answers ← rest.program index
    pure (.value (some pair.2) :: answers)
  | .modify update rest => do
    let pair ← Program.changeIn index (updatePair fun _ => update)
    let answers ← rest.program index
    pure (.value (some pair.2) :: answers)
  | .insert value rest => do
    let old ← Program.itemIn index
    let _ ← Program.changeIn index (updatePair fun _ _ => value)
    let answers ← rest.program index
    pure (.value (some old.2) :: answers)
  | .remove => do
    let pair ← Program.removeIn index
    pure [.value (some pair.2)]
  | .removeEntry => do
    let pair ← Program.removeIn index
    pure [.pair (some pair)]

/-- What a caller does with the entry of a key. -/
def EntryUse.program (use : EntryUse V) (key : K) (handle : Handle) :
    Program (Table (K × V)) (Answer K V) :=
  match use, handle with
  | .key, .vacant _ _ => pure (.key key)
  | .key, .occupied index => do
    let pair ← Program.itemIn index
    pure (.key pair.1)
  | .orInsertWith value update, handle => do
    let index ← Program.orInsertWith (fun _ => (key, value ())) handle
    let pair ← Program.changeIn index (updatePair fun _ => update)
    pure (.value (some pair.2))
  | .insert value, .vacant index hash => do
    Program.insertAt index hash (key, value)
    pure (.value none)
  | .insert value, .occupied index => do
    let old ← Program.itemIn index
    let _ ← Program.changeIn index (updatePair fun _ _ => value)
    pure (.value (some old.2))
  | .andModify _ rest, .vacant index hash => rest.program key (.vacant index hash)
  | .andModify update rest, .occupied index => do
    let _ ← Program.changeIn index (updatePair fun _ => update)
    rest.program key (.occupied index)
  | .branch vacant _, .vacant index hash => vacant.program key index hash
  | .branch _ occupied, .occupied index => do
    let answers ← occupied.program index
    pure (.all answers)

theorem VacantUse.exec_program (use : VacantUse V) (e : VacantEntry K V)
    (h : e.place.table.Addressable) :
    exec (use.program e.key e.place.index e.place.hash) e.place.table =
      .some (.ok (use.apply e).1, (use.apply e).2.table) := by
  cases use with
  | intoKey => rfl
  | insert value =>
    rw [program, exec_bind_of_ok (Program.exec_insertAt e.place h (e.key, value))]
    exact exec_bind_of_ok (Program.exec_itemIn (e.place.insert (e.key, value))) _

theorem OccupiedUse.exec_program (use : OccupiedUse V) (e : OccupiedEntry K V)
    (h : e.place.table.Addressable) :
    exec (use.program e.place.index) e.place.table =
      .some (.ok (use.apply e).1, (use.apply e).2.table) := by
  induction use generalizing e with
  | release => rfl
  | key rest ih =>
    rw [program, exec_bind_of_ok (Program.exec_itemIn e.place), exec_bind_of_ok (ih e h)]
    rfl
  | get rest ih =>
    rw [program, exec_bind_of_ok (Program.exec_itemIn e.place), exec_bind_of_ok (ih e h)]
    rfl
  | modify update rest ih =>
    have hrest := ih (e.modify update) (Program.addressable_modify h _)
    rw [program, exec_bind_of_ok (Program.exec_changeIn e.place _)]
    exact exec_bind_of_ok hrest _
  | insert value rest ih =>
    have hrest := ih (e.modify fun _ => value) (Program.addressable_modify h _)
    rw [program, exec_bind_of_ok (Program.exec_itemIn e.place),
      exec_bind_of_ok (Program.exec_changeIn e.place _)]
    exact exec_bind_of_ok hrest _
  | remove => exact exec_bind_of_ok (Program.exec_removeIn e.place h) _
  | removeEntry => exact exec_bind_of_ok (Program.exec_removeIn e.place h) _

theorem EntryUse.exec_program (use : EntryUse V) (hash : K → UInt64) (key : K)
    (place : LinearProbing.Entry (K × V)) (h : place.table.Addressable) :
    exec (use.program key (.ofEntry place)) place.table =
      .some (.ok (use.apply (.ofPlace hash key place)).1,
        (use.apply (.ofPlace hash key place)).2.table) := by
  induction use generalizing place with
  | key =>
    cases place with
    | vacant place => rfl
    | occupied place => exact exec_bind_of_ok (Program.exec_itemIn place) _
  | orInsertWith value update =>
    rw [program, exec_bind_of_ok (Program.exec_orInsertWith _ place h),
      exec_bind_of_ok (Program.exec_changeIn _ _)]
    cases place <;> rfl
  | insert value =>
    cases place with
    | vacant place => exact exec_bind_of_ok (Program.exec_insertAt place h (key, value)) _
    | occupied place =>
      refine (exec_bind_of_ok (Program.exec_itemIn place) _).trans ?_
      exact exec_bind_of_ok (Program.exec_changeIn place _) _
  | andModify update rest ih =>
    cases place with
    | vacant place => exact ih (.vacant place) h
    | occupied place =>
      have hrest := ih (.occupied (place.modify (updatePair fun _ => update)))
        (Program.addressable_modify h _)
      exact (exec_bind_of_ok (Program.exec_changeIn place _) _).trans hrest
  | branch vacant occupied =>
    cases place with
    | vacant place => exact vacant.exec_program { hash, key, place } h
    | occupied place => exact exec_bind_of_ok (occupied.exec_program { hash, place } h) _

/-! ## Operations -/

variable [BEq K]

/-- Does with the entry of a key what a caller wants, after room is made for it. -/
def useEntry (hash : K → UInt64) (key : K) (use : EntryUse V) :
    Program (Table (K × V)) (Answer K V) := do
  let handle ← Program.entry (hash key) (belongs key)
  use.program key handle

/-- The stored pair of a key. -/
def search (hash : K → UInt64) (key : K) : Program (Table (K × V)) (Option (K × V)) :=
  Program.find (hash key) (belongs key)

/-- The program of an operation. -/
def program (hash : K → UInt64) (op : Op K V) : Program (Table (K × V)) (Answer K V) :=
  match op with
  | .insert key value => useEntry hash key (.insert value)
  | .tryInsert key value => do
    match ← Program.locate (hash key) (belongs key) with
    | some handle => (EntryUse.insert value).program key handle
    | none =>
      let t ← get
      pure (.failed (.capacityExceeded t.capacity))
  | .get key => do
    let pair? ← search hash key
    pure (.value (pair?.map (·.2)))
  | .getEntry key => do
    let pair? ← search hash key
    pure (.pair pair?)
  | .lookup key => do
    match ← search hash key with
    | some pair => pure (.value (some pair.2))
    | none => pure (.failed .keyNotFound)
  | .fetch key => do
    match ← search hash key with
    | some pair => pure (.value (some pair.2))
    | none => throw (.fault (.unhandled .keyNotFound))
  | .contains key => do
    let pair? ← search hash key
    pure (.flag pair?.isSome)
  | .occurrences key => do
    let pair? ← search hash key
    pure (.number pair?.isSome.toNat)
  | .find key => do
    let position ← Program.cursor (hash key) (belongs key)
    let pair? ← Program.onSlots (Program.itemAt position)
    pure (.pair pair?)
  | .modify key update => do
    let pair? ← Program.modify (hash key) (belongs key) (updatePair fun _ => update)
    pure (.value (pair?.map (·.2)))
  | .getOrInsert key value update => useEntry hash key (.orInsertWith (fun _ => value) update)
  | .remove key => do
    let pair? ← Program.remove (hash key) (belongs key)
    pure (.value (pair?.map (·.2)))
  | .removeEntry key => do
    let pair? ← Program.remove (hash key) (belongs key)
    pure (.pair pair?)
  | .entry key use => useEntry hash key use
  | .insertAll pairs => do
    forEach (fun (key, value) => useEntry hash key (.insert value)) pairs
    pure .done
  | .retain visit state => do
    let _ ← Program.retain (visitPair visit) state
    pure .done
  | .reserve additional => do
    Program.reserve additional
    pure .done
  | .shrinkToFit => do
    Program.shrinkToFit
    pure .done
  | .clear => do
    Program.clear
    pure .done
  | .drain => do
    let pairs ← Program.drain
    pure (.pairs pairs)
  | .visitFirst updates => do
    let pairs ← Program.onTraversal
      (Program.visit (updates.map fun update => (.front, updatePair update)))
    pure (.pairs pairs)
  | .mapValues update => do
    let pairs ← Program.onTraversal (Program.visitAll (updatePair update))
    pure (.pairs pairs)
  | .toList => do
    let pairs ← Program.toList
    pure (.pairs pairs)
  | .count => do
    let t ← get
    pure (.number t.count)
  | .isEmpty => do
    let t ← get
    pure (.flag t.isEmpty)

variable {m : KeyMap K V}

theorem exec_useEntry (h : m.table.Addressable) (key : K) (use : EntryUse V) :
    exec (useEntry m.hash key use) m.table =
      ended table (attempt m ((m.entry key).map use.apply)) := by
  have hrun : exec (useEntry m.hash key use) m.table =
      Program.attempt m.table ((m.table.entry (m.hash key) (belongs key)).map fun place =>
        ((use.apply (.ofPlace m.hash key place)).1,
          (use.apply (.ofPlace m.hash key place)).2.table)) :=
    exec_entry_bind h (m.hash key) (belongs key) fun place hplace =>
      use.exec_program m.hash key place hplace
  rw [hrun, ← attempt_eq_ended, entry]
  cases m.table.entry (m.hash key) (belongs key) <;> rfl

theorem exec_search (h : m.table.Addressable) (key : K) :
    exec (search m.hash key) m.table = .some (.ok (m.getEntry? key), m.table) :=
  Program.exec_find h ..

theorem hash_insert {key : K} {value : V} {result : Option V × KeyMap K V}
    (h : m.insert key value = .ok result) : result.2.hash = m.hash := by
  unfold insert entry at h
  cases hentry : m.table.entry (m.hash key) (belongs key) with
  | ok place =>
    rw [hentry] at h
    cases h
    cases place <;> rfl
  | error fault =>
    rw [hentry] at h
    cases h

theorem exec_insertAll (h : m.table.Addressable) (pairs : List (K × V)) :
    exec (forEach (fun (key, value) => useEntry m.hash key (.insert value)) pairs) m.table =
      ended table (concluded () (m.insertAll pairs)) := by
  refine Program.exec_forEach Answer.value
    (fun m' : KeyMap K V => m'.hash = m.hash ∧ m'.table.Addressable) ?_ ?_ ⟨rfl, h⟩ pairs
  · rintro m' ⟨key, value⟩ ⟨hhash, hm'⟩
    rw [← hhash, exec_useEntry hm', ← map_insert]
    rfl
  · rintro m₁ ⟨key, value⟩ old m₂ ⟨hhash, hm₁⟩ hinsert
    have hleads : Table.Leads (fun _ => True) m₁.table m₂.table :=
      leads_insert (fun _ _ _ => trivial) key value hinsert
    exact ⟨(hash_insert hinsert).trans hhash, hleads.addressable hm₁⟩

/-- The program of an operation comes to what the operation yields. -/
theorem exec_program (h : m.table.Addressable) (op : Op K V) :
    exec (program m.hash op) m.table = ended table (op.perform m) := by
  cases op with
  | insert key value =>
    rw [Op.perform, map_insert]
    exact exec_useEntry h key (.insert value)
  | tryInsert key value =>
    rw [program, exec_bind_of_ok (Program.exec_locate h _ _), Op.perform, tryInsert, locate]
    rcases h.wellFormed.locate_cases (m.hash key) (belongs key) with
      ⟨place, hlocate, hlocates⟩ | ⟨hlocate, -⟩
    · have hplace : place.table.Addressable := hlocates.table_eq ▸ h
      have hrun := (EntryUse.insert value).exec_program m.hash key place hplace
      rw [hlocates.table_eq] at hrun
      rw [hlocate]
      exact hrun
    · rw [hlocate]
      exact exec_bind_of_ok (Program.exec_get m.table) _
  | get key => exact exec_bind_of_ok (exec_search h key) _
  | getEntry key => exact exec_bind_of_ok (exec_search h key) _
  | lookup key =>
    rw [program, exec_bind_of_ok (exec_search h key), Op.perform, lookup, get?]
    cases m.getEntry? key <;> rfl
  | fetch key =>
    rw [program, exec_bind_of_ok (exec_search h key), Op.perform, fetch, get?]
    cases m.getEntry? key <;> rfl
  | contains key =>
    rw [program, exec_bind_of_ok (exec_search h key), Op.perform, contains, get?,
      Option.isSome_map]
    rfl
  | occurrences key =>
    rw [program, exec_bind_of_ok (exec_search h key), Op.perform, occurrences, contains, get?,
      Option.isSome_map]
    rfl
  | find key =>
    have hitem := Program.exec_onSlots (t := m.table) (Program.itemAt (m.cursor key).index)
      (Program.exec_itemAt (m.cursor key))
    rw [program, exec_bind_of_ok (Program.exec_cursor h _ _)]
    exact exec_bind_of_ok hitem _
  | modify key update =>
    rw [program, exec_bind, Program.exec_modify h, Op.perform, modify?_eq_map]
    cases m.table.modify? (m.hash key) (belongs key) (updatePair fun _ => update) <;>
      exact Part.bind_some _ _
  | getOrInsert key value update =>
    rw [Op.perform, map_getOrInsert]
    exact exec_useEntry h key _
  | remove key =>
    rw [program, exec_bind, Program.exec_remove h, Op.perform, remove?, removeEntry?]
    cases m.table.remove? (m.hash key) (belongs key) <;> exact Part.bind_some _ _
  | removeEntry key =>
    rw [program, exec_bind, Program.exec_remove h, Op.perform, removeEntry?]
    cases m.table.remove? (m.hash key) (belongs key) <;> exact Part.bind_some _ _
  | entry key use => exact exec_useEntry h key use
  | insertAll pairs => exact Program.exec_forEach_concluded (exec_insertAll h pairs) Answer.done
  | retain visit state =>
    rw [program, exec_bind, Program.exec_retain h, Op.perform, retain_eq_map]
    cases m.table.retain (visitPair visit) state <;> exact Part.bind_some _ _
  | reserve additional =>
    rw [program, exec_bind, Program.exec_reserve h, Op.perform, reserve]
    cases m.table.reserve additional <;> exact Part.bind_some _ _
  | shrinkToFit =>
    rw [program, exec_bind, Program.exec_shrinkToFit h, Op.perform, shrinkToFit]
    cases m.table.shrinkToFit <;> exact Part.bind_some _ _
  | clear => exact exec_bind_of_ok (Program.exec_clear m.table) _
  | drain => exact exec_bind_of_ok (Program.exec_drain m.table) _
  | visitFirst updates =>
    have hvisit := Program.exec_onTraversal (t := m.table)
      (Program.visit (updates.map fun update => (Traversal.End.front, updatePair update)))
      (Program.exec_visit m.table.traversal _)
    exact exec_bind_of_ok hvisit _
  | mapValues update =>
    have hvisit := Program.exec_onTraversal (t := m.table) (Program.visitAll (updatePair update))
      (Program.exec_visitAll m.table.traversal (updatePair update))
    exact exec_bind_of_ok hvisit _
  | toList => exact exec_bind_of_ok (Program.exec_toList m.table) _
  | count => exact exec_bind_of_ok (Program.exec_get m.table) _
  | isEmpty => exact exec_bind_of_ok (Program.exec_get m.table) _

end LinearProbing.KeyMap

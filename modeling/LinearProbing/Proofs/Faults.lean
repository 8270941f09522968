-- SUMMARY: When an operation on a growing container ends in a fault, what is left then, and that no check fails.
import LinearProbing.Proofs.Containers
import LinearProbing.Proofs.KeyMap.Refusals
import LinearProbing.Proofs.KeySet.Refusals
import LinearProbing.Proofs.Program.Comparison

/-! # Faults of growing containers

The main result about what can go wrong. A fault ends an operation on a growing table, map or set
exactly if the operation is refused, and it leaves the container as it was; a series of insertions
keeps those before the refused one. Everything else comes to what the functions yield. No program
runs for ever, and none ends in a defect: no check of an index, of a counter or of a branch that is
thought to be impossible ever fails.
-/

namespace LinearProbing

open Program (ended_fault_iff exec exists_ended_ok)

/-! ## Tables -/

namespace Table

variable {α : Type} {t : Table α} {policy : GrowthPolicy}

/-- The programs on a table end, in a fault exactly if an operation is refused. -/
structure FaultsExactly (t : Table α) (policy : GrowthPolicy) : Prop where
  faults_iff : ∀ op : Op α,
    (∃ fault, exec (Program.run op) t = .some (.error (.fault fault), t)) ↔ op.Refused policy t
  completes : ∀ op : Op α, ¬op.Refused policy t →
    exec (Program.run op) t = .some (.ok (), op.after t)
  find : ∀ hash accepts,
    exec (Program.find hash accepts) t = .some (.ok (t.find? hash accepts), t)
  cursor : ∀ hash accepts,
    exec (Program.cursor hash accepts) t = .some (.ok (t.cursor hash accepts).index, t)
  item : ∀ c : Cursor α t.capacity,
    exec (Program.itemAt c.index) c.slots = .some (.ok c.item?, c.slots)
  next : ∀ c : Cursor α t.capacity,
    exec (Program.nextPosition c.index) c.slots = .some (.ok c.next.index, c.slots)
  prev : ∀ c : Cursor α t.capacity,
    exec (Program.prevPosition c.index) c.slots = .some (.ok c.prev.index, c.slots)
  toList : exec Program.toList t = .some (.ok t.toList, t)
  visit : ∀ {n : Nat} (traversal : Traversal α n) script,
    exec (Program.visit script) traversal =
      .some (.ok (traversal.visit script).1, (traversal.visit script).2)

theorem Grows.addressable (h : t.Grows policy) : t.Addressable :=
  ⟨h.reachable.wellFormed, h.reachable.capacity_lt h.sizing_eq⟩

theorem Grows.completes (h : t.Grows policy) {op : Op α} (hop : ¬op.Refused policy t) :
    exec (Program.run op) t = .some (.ok (), op.after t) := by
  rw [← h.outcome_fails_iff op] at hop
  rw [Program.exec_run h.addressable, op.after_eq_outcome]
  cases hresult : op.outcome t with
  | ok t' => rfl
  | error fault =>
    rw [hresult] at hop
    exact absurd rfl hop

theorem Grows.faultsExactly (h : t.Grows policy) : t.FaultsExactly policy where
  faults_iff op := by
    rw [← h.outcome_fails_iff op, Program.exec_run h.addressable, Program.attempt_eq_fault_iff,
      isOk_map]
  completes _ hop := h.completes hop
  find := Program.exec_find h.addressable
  cursor := Program.exec_cursor h.addressable
  item := Program.exec_itemAt
  next := Program.exec_nextPosition h.addressable.lt_bound
  prev := Program.exec_prevPosition
  toList := Program.exec_toList t
  visit := Program.exec_visit

/-- A series of insertions into a container stops at the first for which its table would need too
many slots. -/
theorem Grows.outgrown_of_stopsAt {State Item Answer : Type}
    {insert : State → Item → Except Fault (Answer × State)} (table : State → Table α)
    {s s' : State} {items : List Item} {fault : Fault} (h : (table s).Grows policy)
    (hleads : ∀ before, Leads (fun _ => True) (table s) (table (insertEach insert s before).1))
    (hoverflow : ∀ s item, (table s).Grows policy → insert s item = .error fault →
      (table s).Outgrown policy)
    (hstops : StopsAt insert s s' items fault) (hword : 100 * (table s').count < 2 ^ 64) :
    (table s').Outgrown policy := by
  obtain ⟨before, item, after, -, hbefore, hrefused⟩ := hstops
  have hlast := hleads before
  rw [hbefore] at hlast
  have hgrows : (table s').Grows policy :=
    ⟨hlast.reachable h.reachable,
      (hlast.sizing_eq h.reachable.wellFormed).trans h.sizing_eq, hword⟩
  exact hoverflow s' item hgrows hrefused

end Table

/-! ## Maps -/

namespace KeyMap

variable {K V : Type} [BEq K] {m : KeyMap K V} {policy : GrowthPolicy}

/-- The programs on the table of a map end, in a fault exactly if an operation is refused. -/
structure FaultsExactly (m : KeyMap K V) (policy : GrowthPolicy) : Prop where
  faults_iff : ∀ op : Op K V,
    (∃ fault m', exec (program m.hash op) m.table = .some (.error (.fault fault), m'.table) ∧
      op.Leaves m m' fault) ↔ op.Refused policy m
  completes : ∀ op : Op K V, ¬op.Refused policy m → ∃ answer m', op.perform m = (.ok answer, m') ∧
    exec (program m.hash op) m.table = .some (.ok answer, m'.table)
  stops : ∀ pairs m' fault, StopsAt store m m' pairs fault → 100 * m'.count < 2 ^ 64 →
    m'.table.Outgrown policy
  reachable : ∀ op : Op K V, (op.perform m).2.table.Reachable
  equals : ∀ [BEq V] (other : KeyMap K V), other.table.Addressable →
    exec (equals m other) m.table = .some (.ok (m == other), m.table)

theorem faults_iff (h : m.table.Grows policy) (op : Op K V) :
    (∃ fault m', exec (program m.hash op) m.table = .some (.error (.fault fault), m'.table) ∧
      op.Leaves m m' fault) ↔ op.Refused policy m := by
  rw [← perform_fails_iff h op, exec_program h.addressable]
  exact ended_fault_iff fun fault m' hperform => leaves_of_perform op hperform

theorem completes (h : m.table.Grows policy) {op : Op K V} (hop : ¬op.Refused policy m) :
    ∃ answer m', op.perform m = (.ok answer, m') ∧
      exec (program m.hash op) m.table = .some (.ok answer, m'.table) := by
  rw [← perform_fails_iff h op] at hop
  rw [exec_program h.addressable]
  exact exists_ended_ok hop

theorem outgrown_of_insert {key : K} {value : V} {fault : Fault} (h : m.table.Grows policy)
    (hrefused : m.insert key value = .error fault) : m.table.Outgrown policy := by
  refine (perform_fails_iff h (.insert key value)).1 ?_
  rw [Op.perform, hrefused]
  rfl

theorem faultsExactly (h : m.table.Grows policy) : m.FaultsExactly policy where
  faults_iff := faults_iff h
  completes _ hop := completes h hop
  stops _ _ _ hstops hword := Table.Grows.outgrown_of_stopsAt table h
    (leads_insertAll fun _ _ _ => trivial)
    (fun _ _ hgrows hrefused => outgrown_of_insert hgrows hrefused) hstops hword
  reachable op := (leads_perform op m).reachable h.reachable
  equals _ hother := exec_equals hother m.table

end KeyMap

/-! ## Sets -/

namespace KeySet

variable {K : Type} [BEq K] {s : KeySet K} {policy : GrowthPolicy}

/-- The programs on the table of a set end, in a fault exactly if an operation is refused. -/
structure FaultsExactly (s : KeySet K) (policy : GrowthPolicy) : Prop where
  faults_iff : ∀ op : Op K,
    (∃ fault s', exec (program s.hash op) s.table = .some (.error (.fault fault), s'.table) ∧
      op.Leaves s s' fault) ↔ op.Refused policy s
  completes : ∀ op : Op K, ¬op.Refused policy s → ∃ answer s', op.perform s = (.ok answer, s') ∧
    exec (program s.hash op) s.table = .some (.ok answer, s'.table)
  stops : ∀ keys s' fault, StopsAt KeySet.insert s s' keys fault → 100 * s'.count < 2 ^ 64 →
    s'.table.Outgrown policy
  reachable : ∀ op : Op K, (op.perform s).2.table.Reachable
  equals : ∀ other : KeySet K, other.table.Addressable →
    exec (equals s other) s.table = .some (.ok (s == other), s.table)
  disjointFrom : ∀ other : KeySet K, other.table.Addressable →
    exec (disjointFrom s other) s.table = .some (.ok (s.isDisjoint other), s.table)
  within : ∀ other : KeySet K, other.table.Addressable →
    exec (within s other) s.table = .some (.ok (s.isSubset other), s.table) ∧
      exec (within other s) s.table = .some (.ok (s.isSuperset other), s.table)
  union : ∀ other : KeySet K,
    exec (listUnion s other) s.table = .some (.ok (s.union other).rest, s.table)
  intersection : ∀ other : KeySet K, other.table.Addressable →
    exec (listIntersection s other) s.table = .some (.ok (s.intersection other).rest, s.table)
  difference : ∀ other : KeySet K, other.table.Addressable →
    exec (select s other false) s.table = .some (.ok (s.difference other).rest, s.table)
  symmetricDifference : ∀ other : KeySet K, other.table.Addressable →
    exec (listSymmetricDifference s other) s.table =
      .some (.ok (s.symmetricDifference other).rest, s.table)

theorem faults_iff (h : s.table.Grows policy) (op : Op K) :
    (∃ fault s', exec (program s.hash op) s.table = .some (.error (.fault fault), s'.table) ∧
      op.Leaves s s' fault) ↔ op.Refused policy s := by
  rw [← perform_fails_iff h op, exec_program h.addressable]
  exact ended_fault_iff fun fault s' hperform => leaves_of_perform op hperform

theorem completes (h : s.table.Grows policy) {op : Op K} (hop : ¬op.Refused policy s) :
    ∃ answer s', op.perform s = (.ok answer, s') ∧
      exec (program s.hash op) s.table = .some (.ok answer, s'.table) := by
  rw [← perform_fails_iff h op] at hop
  rw [exec_program h.addressable]
  exact exists_ended_ok hop

theorem outgrown_of_insert {key : K} {fault : Fault} (h : s.table.Grows policy)
    (hrefused : s.insert key = .error fault) : s.table.Outgrown policy := by
  refine (perform_fails_iff h (.insert key)).1 ?_
  rw [Op.perform, hrefused]
  rfl

theorem faultsExactly (h : s.table.Grows policy) : s.FaultsExactly policy where
  faults_iff := faults_iff h
  completes _ hop := completes h hop
  stops _ _ _ hstops hword := Table.Grows.outgrown_of_stopsAt table h
    (leads_insertAll fun _ _ _ => trivial)
    (fun _ _ hgrows hrefused => outgrown_of_insert hgrows hrefused) hstops hword
  reachable op := (leads_perform op s).reachable h.reachable
  equals _ hother := exec_equals hother s.table
  disjointFrom _ hother := exec_disjointFrom h.addressable hother s.table
  within _ hother := ⟨exec_within hother s.table, exec_within h.addressable s.table⟩
  union _ := exec_listUnion h.addressable s.table
  intersection _ hother := exec_listIntersection h.addressable hother s.table
  difference _ hother := exec_listDifference hother s.table
  symmetricDifference _ hother := exec_listSymmetricDifference h.addressable hother s.table

end KeySet

/-! ## The main result -/

/-- Growing containers end an operation in a fault exactly if they refuse it. -/
theorem faults_iff_refused (policy : GrowthPolicy) :
    (∀ {α : Type} {t : Table α}, t.Grows policy → t.FaultsExactly policy) ∧
      (∀ {K V : Type} [BEq K] {m : KeyMap K V}, m.table.Grows policy → m.FaultsExactly policy) ∧
      ∀ {K : Type} [BEq K] {s : KeySet K}, s.table.Grows policy → s.FaultsExactly policy :=
  ⟨fun h => h.faultsExactly, fun h => KeyMap.faultsExactly h, fun h => KeySet.faultsExactly h⟩

/-- The steps of this policy lead past the bound, and it wants a hundred slots for an entry. -/
def GrowthPolicy.steep : GrowthPolicy where
  maxLoad := 1
  ratio := 4611686018427387904
  maxLoad_pos := by decide
  maxLoad_lt := by decide
  one_lt_ratio := by decide +kernel

namespace LastDigit

/-- Five pairs, as many as a table with room for four takes before it has to grow. -/
def filledMap : KeyMap LastDigit Nat :=
  final KeyMap.Op.perform (.ofPolicy hash .steep)
    [.reserve 4, .insertAll [(⟨3⟩, 0), (⟨4⟩, 1), (⟨5⟩, 2), (⟨6⟩, 3), (⟨7⟩, 4)]]

/-- Three keys, in a table that takes two more. -/
def filledSet : KeySet LastDigit :=
  final KeySet.Op.perform (.ofPolicy hash .steep) [.reserve 4, .insertAll [⟨3⟩, ⟨4⟩, ⟨5⟩]]

/-- The second one is in the set already, and the fourth would be one too many. -/
def moreKeys : List LastDigit := [⟨6⟩, ⟨13⟩, ⟨7⟩, ⟨8⟩, ⟨9⟩]

theorem grows_filledMap : filledMap.table.Grows .steep where
  reachable := KeyMap.reachable_final (.start (.ofPolicy .steep)) _
  sizing_eq := rfl
  count_word := by decide +kernel

theorem grows_filledSet : filledSet.table.Grows .steep where
  reachable := KeySet.reachable_final (.start (.ofPolicy .steep)) _
  sizing_eq := rfl
  count_word := by decide +kernel

end LastDigit

/-- A table with an entry does not fit into no slots. A map that would have to grow beyond the bound
does not take another key, nor room for many, and it has no value for a key that is not there. A set
takes keys up to the one for which it would have to grow, and hands out those that it has. -/
theorem faults_iff_refused_filled :
    (∃ fault, exec (Program.run (.grow 0)) Table.single =
        .some (.error (.fault fault), Table.single)) ∧
      (∀ op : KeyMap.Op LastDigit Nat,
        op = .insert ⟨8⟩ 5 ∨ op = .reserve (2 ^ 63) ∨ op = .fetch ⟨9⟩ →
          ∃ fault m', exec (KeyMap.program LastDigit.filledMap.hash op) LastDigit.filledMap.table =
            .some (.error (.fault fault), m'.table) ∧ m' = LastDigit.filledMap) ∧
      (∃ fault s', exec (KeySet.program LastDigit.filledSet.hash (.insertAll LastDigit.moreKeys))
            LastDigit.filledSet.table = .some (.error (.fault fault), s'.table) ∧
        StopsAt KeySet.insert LastDigit.filledSet s' LastDigit.moreKeys fault) ∧
      ∃ answer s', (KeySet.Op.take ⟨13⟩).perform LastDigit.filledSet = (.ok answer, s') ∧
        exec (KeySet.program LastDigit.filledSet.hash (.take ⟨13⟩)) LastDigit.filledSet.table =
          .some (.ok answer, s'.table) := by
  have htable : Table.single.Grows .standard :=
    ⟨Table.reachable_single, Table.sizing_single, by decide +kernel⟩
  have htables := (faults_iff_refused .standard).1 htable
  obtain ⟨-, hmaps, hsets⟩ := faults_iff_refused .steep
  have hmap := hmaps LastDigit.grows_filledMap
  have hset := hsets LastDigit.grows_filledSet
  have hnew : LastDigit.filledMap.contains ⟨9⟩ = false := by decide +kernel
  have hstopped : (concluded () (LastDigit.filledSet.insertAll LastDigit.moreKeys)).1.isOk =
      false := by decide +kernel
  refine ⟨(htables.faults_iff _).2 (.inl ?_), ?_, ?_, hset.completes (.take ⟨13⟩) id⟩
  · decide +kernel
  · rintro op (rfl | rfl | rfl)
    · exact (hmap.faults_iff (.insert ⟨8⟩ 5)).2 ⟨by decide +kernel, by decide +kernel⟩
    · exact (hmap.faults_iff (.reserve (2 ^ 63))).2 ⟨by decide +kernel, by decide +kernel⟩
    · exact (hmap.faults_iff (.fetch ⟨9⟩)).2 hnew
  · exact (hset.faults_iff (.insertAll LastDigit.moreKeys)).2
      (concluded_insertEach_fails_iff.1 hstopped)

end LinearProbing

-- SUMMARY: Bounded maps answer as a dictionary of limited capacity, and refuse only what it has no room for.
import LinearProbing.Proofs.Dictionary.Capacity
import LinearProbing.Proofs.KeyMap.Simulation
import LinearProbing.Proofs.Program.KeyMap
import LinearProbing.Proofs.Table.Bounded

/-! # Bounded maps

A bounded map follows a dictionary of at most as many pairs in every operation that it offers,
refusals included. A key that the map holds is never refused, however many pairs there are.
-/

namespace LinearProbing.KeyMap

universe u v

open Dictionary Table

variable {K : Type u} {V : Type v} [BEq K] {hash : K → UInt64} {capacity : Nat} {m : KeyMap K V}
  {pairs : List (K × V)}

/-! ## Operations -/

/-- The operation is one that bounded maps offer. -/
def Op.OfferedByBounded : Op K V → Prop
  | .retain _ _ => False
  | .reserve _ => False
  | .shrinkToFit => False
  | .drain => False
  | _ => True

/-- The operations on bounded maps. -/
inductive BoundedOp (K : Type u) (V : Type v) : Type (max 1 u v)
  | shared (op : Op K V) (offered : op.OfferedByBounded)
  | capacity
  | isFull

def BoundedOp.perform : BoundedOp K V → KeyMap K V → Outcome K V × KeyMap K V
  | .shared op _, m => op.perform m
  | .capacity, m => (.ok (.number m.capacity), m)
  | .isFull, m => (.ok (.flag m.isFull), m)

/-! ## The same operations on a dictionary of limited capacity -/

def Op.modelWithin (capacity : Nat) (op : Op K V) (pairs : List (K × V)) :
    Outcome K V × List (K × V) :=
  match op with
  | .insert key _ | .getOrInsert key _ _ | .entry key _ =>
    unlessFull Prod.fst capacity key pairs (.error (fullFault capacity)) (op.model pairs)
  | .tryInsert key _ =>
    unlessFull Prod.fst capacity key pairs (.ok (.failed (.capacityExceeded capacity)))
      (op.model pairs)
  | .insertAll more =>
    insertWithin Prod.fst insertPair capacity (.ok .done) (.error (fullFault capacity)) pairs more
  | op => op.model pairs

def BoundedOp.model (capacity : Nat) : BoundedOp K V → List (K × V) → Outcome K V × List (K × V)
  | .shared op _, pairs => op.modelWithin capacity pairs
  | .capacity, pairs => (.ok (.number capacity), pairs)
  | .isFull, pairs => (.ok (.flag (pairs.length == capacity)), pairs)

def BoundedOp.OrderFree : BoundedOp K V → Prop
  | .shared op _ => op.OrderFree
  | _ => True

/-! ## The order of the pairs -/

section Order

variable [EquivBEq K] {pairs' : List (K × V)}

theorem inserts_insertPair :
    Inserts Prod.fst (insertPair : List (K × V) → K × V → List (K × V)) where
  distinct pair hd := distinct_insertPair hd pair
  perm pair hd hperm := ((EntryUse.insert pair.2).model_perm pair.1 hd hperm).2
  old pairs pair other hother := by
    rw [insertPair, EntryUse.model] at hother
    cases hstored : stored pair.1 pairs with
    | none =>
      rw [hstored] at hother
      rcases mem_put hother with rfl | hother
      · exact ⟨pair, List.mem_cons_self, rfl⟩
      · exact ⟨other, List.mem_cons_of_mem pair hother, rfl⟩
    | some first =>
      rw [hstored] at hother
      rcases mem_put hother with rfl | hother
      · exact ⟨first, List.mem_cons_of_mem pair (mem_of_lookup_eq_some hstored), rfl⟩
      · exact ⟨other, List.mem_cons_of_mem pair hother, rfl⟩
  kept pairs pair other hother := by
    rw [insertPair, EntryUse.model]
    cases hstored : stored pair.1 pairs with
    | none =>
      rcases List.mem_cons.1 hother with rfl | hother
      · exact ⟨_, List.mem_cons_self, BEq.refl _⟩
      · exact exists_mem_put hother _
    | some first =>
      rcases List.mem_cons.1 hother with rfl | hother
      · have hkey : other.1 == first.1 := beq_of_lookup_eq_some hstored
        exact ⟨_, List.mem_cons_self, hkey⟩
      · exact exists_mem_put hother _

theorem BoundedOp.model_perm {op : BoundedOp K V} (hfree : op.OrderFree)
    (hd : Distinct Prod.fst pairs) (hperm : pairs.Perm pairs') :
    (op.model capacity pairs).1 = (op.model capacity pairs').1 ∧
      (op.model capacity pairs).2.Perm (op.model capacity pairs').2 := by
  cases op with
  | capacity => exact ⟨rfl, hperm⟩
  | isFull =>
    simp only [BoundedOp.model, hperm.length_eq]
    exact ⟨trivial, hperm⟩
  | shared op hoffered =>
    have hmodel := Op.model_perm hfree hd hperm
    cases op with
    | insert key value | getOrInsert key value update | entry key use | tryInsert key value =>
      exact unlessFull_perm hd hperm _ hmodel
    | insertAll more => exact inserts_insertPair.insertWithin_perm hd hperm more
    | _ => exact hmodel

end Order

/-! ## One step -/

/-- A map that keeps this number of slots, each of its pairs stored under the hash of its key. -/
structure BoundedTo (hash : K → UInt64) (capacity : Nat) (m : KeyMap K V) : Prop where
  wellFormed : m.WellFormed hash
  bounded : m.table.Bounded capacity

omit [BEq K] in
theorem items_bounded (hash : K → UInt64) (capacity : Nat) :
    (KeyMap.bounded hash capacity : KeyMap K V).items = [] :=
  items_fresh _ _

theorem boundedTo_bounded (hash : K → UInt64) (capacity : Nat) :
    BoundedTo hash capacity (.bounded hash capacity : KeyMap K V) :=
  ⟨⟨rfl, keyed_fresh _ _⟩, bounded_ofBound capacity⟩

variable [EquivBEq K]

theorem BoundedTo.perform (h : BoundedTo hash capacity m) (hhash : RespectsEquality hash)
    (op : Op K V) (hoffered : op.OfferedByBounded) : BoundedTo hash capacity (op.perform m).2 := by
  have hkeeps : ¬op.Resizes := by
    intro hresizes
    cases op <;> first | exact hresizes | exact hoffered
  refine ⟨((simulation hhash).step m op h.wellFormed).inv, ?_⟩
  refine h.bounded.of_leads h.wellFormed.keyed.wellFormed ?_
  exact (leads_perform op m).mono fun _ hop hresizes => hkeeps (hop hresizes)

omit [EquivBEq K] in
/-- There is room for a key and an entry of it, or neither. -/
theorem BoundedTo.entry_cases (h : BoundedTo hash capacity m) (hhash : RespectsEquality hash)
    (key : K) :
    (¬NoRoom Prod.fst capacity key m.items ∧ ∃ e, m.entry key = .ok e ∧ m.locate key = .ok e ∧
        EntryOf hash key m.items e) ∨
      (NoRoom Prod.fst capacity key m.items ∧
        m.entry key = .error (fullFault capacity) ∧
        m.locate key = .error (.capacityExceeded capacity)) := by
  obtain ⟨⟨rfl, hkeyed⟩, hbounded⟩ := h
  unfold entry locate belongs
  cases hkeyed.boundedCases hhash hbounded key with
  | located place hroom hentry hlocate hplace =>
    exact .inl ⟨hroom, .ofPlace m.hash key place, by rw [hentry]; rfl, by rw [hlocate]; rfl,
      entryOf_ofPlace hplace⟩
  | refused hroom hentry hlocate =>
    exact .inr ⟨hroom, by rw [hentry]; rfl, by rw [hlocate]; rfl⟩

/-- What becomes of a map is as the dictionary has it, refusals included. -/
abbrev FollowsWithin (hash : K → UInt64) (result : Outcome K V × KeyMap K V)
    (expected : Outcome K V × List (K × V)) : Prop :=
  Follows items (WellFormed hash) (fun _ => False) result expected

theorem BoundedTo.follows_use (h : BoundedTo hash capacity m) (hhash : RespectsEquality hash)
    (key : K) (use : EntryUse V) :
    FollowsWithin hash (attempt m ((m.entry key).map use.apply))
      (unlessFull Prod.fst capacity key m.items (.error (fullFault capacity))
        (answered (use.model key m.items))) := by
  unfold unlessFull
  rcases h.entry_cases hhash key with ⟨hroom, e, hentry, -, he⟩ | ⟨hroom, hentry, -⟩
  · rw [hentry, if_neg hroom]
    exact follows_of_becomes (use.becomes hhash he)
  · rw [hentry, if_pos hroom]
    exact .unchanged h.wellFormed rfl

/-- Inserting a pair and trying to come to the same. -/
theorem BoundedTo.insert_cases (h : BoundedTo hash capacity m) (hhash : RespectsEquality hash)
    (key : K) (value : V) :
    (¬NoRoom Prod.fst capacity key m.items ∧ ∃ result, m.insert key value = .ok result ∧
        m.tryInsert key value = .ok result ∧ BoundedTo hash capacity result.2 ∧
        Becomes hash (.value result.1, result.2) ((EntryUse.insert value).model key m.items)) ∨
      (NoRoom Prod.fst capacity key m.items ∧
        m.insert key value = .error (fullFault capacity) ∧
        m.tryInsert key value = .error (.capacityExceeded capacity)) := by
  rcases h.entry_cases hhash key with ⟨hroom, e, hentry, hlocate, he⟩ | ⟨hroom, hentry, hlocate⟩
  · have hinsert : m.insert key value = .ok (e.insert value) := by rw [insert, hentry]; rfl
    have hbounded := h.perform hhash (.insert key value) trivial
    rw [Op.perform, hinsert] at hbounded
    exact .inl ⟨hroom, e.insert value, hinsert, by rw [tryInsert, hlocate]; rfl, hbounded,
      (EntryUse.insert value).becomes hhash he⟩
  · exact .inr ⟨hroom, by rw [insert, hentry]; rfl, by rw [tryInsert, hlocate]; rfl⟩

theorem BoundedTo.follows_tryInsert (h : BoundedTo hash capacity m)
    (hhash : RespectsEquality hash) (key : K) (value : V) :
    FollowsWithin hash ((Op.tryInsert key value).perform m)
      ((Op.tryInsert key value).modelWithin capacity m.items) := by
  rw [Op.perform, Op.modelWithin, unlessFull]
  rcases h.insert_cases hhash key value with
    ⟨hroom, result, -, htry, -, hbecomes⟩ | ⟨hroom, -, htry⟩
  · rw [htry, if_neg hroom]
    exact follows_of_becomes hbecomes
  · rw [htry, if_pos hroom]
    exact .unchanged h.wellFormed rfl

theorem insertsWithin (hhash : RespectsEquality hash) (capacity : Nat) :
    InsertsWithin Prod.fst insertPair capacity items (BoundedTo hash capacity)
      (fullFault capacity) (store (V := V)) where
  inserts := inserts_insertPair
  distinct _ hm := hm.wellFormed.keyed.distinct
  step m pair hm := by
    rcases hm.insert_cases hhash pair.1 pair.2 with
      ⟨hroom, result, hinsert, -, hbounded, hbecomes⟩ | ⟨hroom, hinsert, -⟩
    · exact .inl ⟨hroom, result.1, result.2, hinsert, hbounded, hbecomes.items⟩
    · exact .inr ⟨hroom, hinsert⟩

/-- Pairs are inserted one after the other, and what was inserted before a refusal stays. -/
theorem BoundedTo.follows_insertAll (h : BoundedTo hash capacity m)
    (hhash : RespectsEquality hash) (more : List (K × V)) :
    FollowsWithin hash ((Op.insertAll more).perform m)
      ((Op.insertAll more).modelWithin capacity m.items) := by
  obtain ⟨hlast, hagrees⟩ := (insertsWithin hhash capacity).follows Answer.done h more
  exact ⟨hlast.wellFormed, hagrees⟩

/-- An operation that adds no key is never refused. -/
theorem BoundedTo.follows_of_accepted (h : BoundedTo hash capacity m)
    (hhash : RespectsEquality hash) (op : Op K V) (haccepted : ¬(op.perform m).1.LacksRoom) :
    FollowsWithin hash (op.perform m) (op.model m.items) := by
  obtain ⟨hwf, hagrees⟩ := (simulation hhash).step m op h.wellFormed
  exact ⟨hwf, .inr (hagrees.resolve_left haccepted)⟩

/-- The step lemma. -/
theorem BoundedTo.follows (h : BoundedTo hash capacity m) (hhash : RespectsEquality hash)
    (op : Op K V) (hoffered : op.OfferedByBounded) :
    FollowsWithin hash (op.perform m) (op.modelWithin capacity m.items) := by
  cases op with
  | insert key value =>
    rw [Op.perform, map_insert]
    exact h.follows_use hhash key (.insert value)
  | getOrInsert key value update =>
    rw [Op.perform, map_getOrInsert]
    exact h.follows_use hhash key _
  | entry key use => exact h.follows_use hhash key use
  | tryInsert key value => exact h.follows_tryInsert hhash key value
  | insertAll more => exact h.follows_insertAll hhash more
  | get key | getEntry key | contains key | occurrences key | find key | clear | visitFirst updates
  | mapValues update | toList | count | isEmpty => exact h.follows_of_accepted hhash _ id
  | lookup key =>
    refine h.follows_of_accepted hhash _ ?_
    rw [Op.perform, lookup]
    cases m.get? key <;> exact id
  | fetch key =>
    refine h.follows_of_accepted hhash _ ?_
    rw [Op.perform, fetch]
    cases m.get? key <;> exact id
  | modify key update =>
    refine h.follows_of_accepted hhash _ ?_
    rw [Op.perform]
    cases m.modify? key update <;> exact id
  | remove key =>
    refine h.follows_of_accepted hhash _ ?_
    rw [Op.perform]
    cases m.remove? key <;> exact id
  | removeEntry key =>
    refine h.follows_of_accepted hhash _ ?_
    rw [Op.perform]
    cases m.removeEntry? key <;> exact id
  | retain visit state | reserve additional | shrinkToFit | drain => exact hoffered.elim

/-! ## Every step -/

/-- A bounded map follows the dictionary of its pairs in every operation, and refuses nothing that
the dictionary does not. -/
theorem simulation_bounded (hhash : RespectsEquality hash) (capacity : Nat) :
    Simulation (BoundedOp.perform (K := K) (V := V)) (BoundedOp.model capacity) items
      (BoundedTo hash capacity) (fun _ => False) BoundedOp.OrderFree where
  step m op h := by
    cases op with
    | shared op hoffered =>
      exact ⟨h.perform hhash op hoffered, (h.follows hhash op hoffered).agrees⟩
    | capacity =>
      refine ⟨h, .inr ⟨?_, List.Perm.refl _⟩⟩
      rw [BoundedOp.perform, BoundedOp.model, KeyMap.capacity, h.bounded.capacity_eq]
    | isFull =>
      refine ⟨h, .inr ⟨?_, List.Perm.refl _⟩⟩
      rw [BoundedOp.perform, BoundedOp.model, isFull,
        h.bounded.isFull_eq h.wellFormed.keyed.wellFormed]
      rfl
  reorder m op h hfree order hperm :=
    op.model_perm hfree h.wellFormed.keyed.distinct hperm

theorem boundedTo_final (hhash : RespectsEquality hash) (capacity : Nat)
    (ops : List (BoundedOp K V)) :
    BoundedTo hash capacity (final BoundedOp.perform (.bounded hash capacity) ops) :=
  (simulation_bounded hhash capacity).inv_final (boundedTo_bounded hash capacity) ops

/-! ## Accepted and refused keys -/

/-- Which keys a map of this capacity accepts, and what is left of it when it refuses one. -/
structure AcceptsWithin (capacity : Nat) (m : KeyMap K V) : Prop where
  count_le : m.count ≤ capacity
  insert_isOk : ∀ key value,
    (m.insert key value).isOk = true ↔ m.contains key = true ∨ m.count < capacity
  tryInsert_eq : ∀ key value result,
    m.insert key value = .ok result → m.tryInsert key value = .ok result
  present : ∀ key, m.contains key = true →
    (m.get? key).isSome ∧ (∀ update, (m.modify? key update).isSome) ∧
      (m.removeEntry? key).isSome ∧
      ∀ value, ∃ old m', m.insert key value = .ok (some old, m') ∧ m'.count = m.count
  refused : ∀ key, m.contains key = false → capacity ≤ m.count → ∀ value,
    (Op.tryInsert key value).perform m = (.ok (.failed (.capacityExceeded capacity)), m) ∧
      (Op.insert key value).perform m = (.error (fullFault capacity), m) ∧
      (∀ use, (Op.entry key use).perform m = (.error (fullFault capacity), m)) ∧
      ∀ update, (Op.getOrInsert key value update).perform m = (.error (fullFault capacity), m)
  stops : ∀ pairs m' fault, m.insertAll pairs = (m', some fault) →
    fault = fullFault capacity ∧ StopsAt store m m' pairs fault

theorem BoundedTo.noRoom_iff (h : BoundedTo hash capacity m) (hhash : RespectsEquality hash)
    (key : K) :
    NoRoom Prod.fst capacity key m.items ↔ m.contains key = false ∧ capacity ≤ m.count := by
  rw [h.wellFormed.contains_eq hhash, h.wellFormed.count_eq, Option.isSome_eq_false_iff,
    Option.isNone_iff_eq_none]
  rfl

omit [EquivBEq K] in
/-- A value that is found can be changed, and taken out. -/
theorem modify?_isSome (m : KeyMap K V) (key : K) (update : V → V) :
    (m.modify? key update).isSome = m.contains key := by
  rw [modify?_eq_map, Option.isSome_map, Table.modify?_isSome, contains, get?, Option.isSome_map,
    getEntry?]

omit [EquivBEq K] in
theorem removeEntry?_isSome (m : KeyMap K V) (key : K) :
    (m.removeEntry? key).isSome = m.contains key := by
  unfold removeEntry?
  rw [Option.isSome_map, Table.remove?_isSome, contains, get?, Option.isSome_map, getEntry?]

theorem BoundedTo.insert_present (h : BoundedTo hash capacity m) (hhash : RespectsEquality hash)
    {key : K} (hkey : m.contains key = true) (value : V) :
    ∃ old m', m.insert key value = .ok (some old, m') ∧ m'.count = m.count := by
  rcases h.insert_cases hhash key value with
    ⟨-, ⟨old?, m'⟩, hinsert, -, hbounded, hbecomes⟩ | ⟨hroom, -⟩
  · obtain ⟨hanswer, -, hitems⟩ := hbecomes
    rw [h.wellFormed.contains_eq hhash] at hkey
    obtain ⟨first, hstored⟩ := Option.isSome_iff_exists.1 hkey
    rw [EntryUse.model, hstored] at hanswer hitems
    cases hanswer
    refine ⟨first.2, m', hinsert, ?_⟩
    rw [hbounded.wellFormed.count_eq, h.wellFormed.count_eq, hitems.length_eq]
    exact h.wellFormed.keyed.distinct.length_put (mem_of_lookup_eq_some hstored) (BEq.refl _)
  · rw [((h.noRoom_iff hhash key).1 hroom).1] at hkey
    cases hkey

theorem BoundedTo.refused (h : BoundedTo hash capacity m) (hhash : RespectsEquality hash)
    {key : K} (hkey : m.contains key = false) (hfull : capacity ≤ m.count) (value : V) :
    (Op.tryInsert key value).perform m = (.ok (.failed (.capacityExceeded capacity)), m) ∧
      (Op.insert key value).perform m = (.error (fullFault capacity), m) ∧
      (∀ use, (Op.entry key use).perform m = (.error (fullFault capacity), m)) ∧
      ∀ update, (Op.getOrInsert key value update).perform m =
        (.error (fullFault capacity), m) := by
  rcases h.entry_cases hhash key with ⟨hroom, -⟩ | ⟨-, hentry, hlocate⟩
  · exact absurd ((h.noRoom_iff hhash key).2 ⟨hkey, hfull⟩) hroom
  · refine ⟨?_, ?_, fun use => ?_, fun update => ?_⟩
    · rw [Op.perform, tryInsert, hlocate]
      rfl
    · rw [Op.perform, map_insert, hentry]
      rfl
    · rw [Op.perform, hentry]
      rfl
    · rw [Op.perform, map_getOrInsert, hentry]
      rfl

theorem BoundedTo.acceptsWithin (h : BoundedTo hash capacity m) (hhash : RespectsEquality hash) :
    AcceptsWithin capacity m where
  count_le := h.bounded.capacity_eq ▸ h.wellFormed.keyed.wellFormed.count_le
  insert_isOk key value := by
    rw [← not_noRoom_iff (h.noRoom_iff hhash key)]
    rcases h.insert_cases hhash key value with ⟨hroom, result, hinsert, -⟩ | ⟨hroom, hinsert, -⟩
    · rw [hinsert]
      exact iff_of_true rfl hroom
    · rw [hinsert]
      exact iff_of_false Bool.false_ne_true (not_not_intro hroom)
  tryInsert_eq key value result hok := by
    rcases h.insert_cases hhash key value with ⟨-, result', hinsert, htry, -⟩ | ⟨-, hinsert, -⟩
    · rw [hinsert] at hok
      cases hok
      exact htry
    · rw [hinsert] at hok
      cases hok
  present key hkey := by
    refine ⟨hkey, fun update => ?_, ?_, h.insert_present hhash hkey⟩
    · rwa [modify?_isSome]
    · rwa [removeEntry?_isSome]
  refused key hkey hfull value := h.refused hhash hkey hfull value
  stops pairs m' fault hall := by
    have hstops := insertEach_eq_error_iff.1 hall
    exact ⟨(insertsWithin hhash capacity).eq_of_stopsAt h hstops, hstops⟩

/-! ## Collecting -/

/-- Collecting pairs fails exactly if there are more different keys than slots. -/
theorem insertMany_isOk_iff (hhash : RespectsEquality hash) (capacity : Nat)
    (pairs : List (K × V)) :
    ((KeyMap.bounded hash capacity : KeyMap K V).insertMany pairs).isOk = false ↔
      MoreKeys capacity (pairs.map Prod.fst) :=
  (insertsWithin hhash capacity).collect_isOk_iff (boundedTo_bounded hash capacity)
    (items_bounded hash capacity) pairs

/-- A bounded map is a dictionary of limited capacity: it answers as one, it is clear which keys it
accepts, and it can be made of as many keys as it has slots. -/
structure RefinesBounded (V : Type v) (hash : K → UInt64) (capacity : Nat) : Prop where
  refines : Refines BoundedOp.perform (BoundedOp.model capacity) (fun _ => False)
    BoundedOp.OrderFree (KeyMap.bounded hash capacity : KeyMap K V) []
  accepts : ∀ ops, AcceptsWithin capacity
    (final BoundedOp.perform (KeyMap.bounded hash capacity : KeyMap K V) ops)
  insertMany_isOk : ∀ pairs : List (K × V),
    ((KeyMap.bounded hash capacity : KeyMap K V).insertMany pairs).isOk = false ↔
      MoreKeys capacity (pairs.map Prod.fst)

theorem refinesBounded (hhash : RespectsEquality hash) (capacity : Nat) :
    RefinesBounded V hash capacity where
  refines := by
    have hrefines := (simulation_bounded hhash capacity).refines (boundedTo_bounded (V := V) hash
      capacity)
    rwa [items_bounded] at hrefines
  accepts ops := (boundedTo_final hhash capacity ops).acceptsWithin hhash
  insertMany_isOk := insertMany_isOk_iff hhash capacity

/-! ## Programs -/

section Programs

open Program (ended exec)

variable {K V : Type} [BEq K] {hash : K → UInt64} {m : KeyMap K V}

/-- What the programs on the table of a bounded map come to. One that finds no room for a key stops
with the slots and the count as they were, and one that inserts several pairs with those of the
pairs before. -/
structure ProgramsWithin (capacity : Nat) (m : KeyMap K V) : Prop where
  computes : ∀ op, exec (program m.hash op) m.table = ended table (op.perform m)
  refused : ∀ key, m.contains key = false → capacity ≤ m.count → ∀ value,
    exec (program m.hash (.tryInsert key value)) m.table =
        .some (.ok (.failed (.capacityExceeded capacity)), m.table) ∧
      exec (program m.hash (.insert key value)) m.table =
        .some (.error (.fault (fullFault capacity)), m.table) ∧
      (∀ use, exec (program m.hash (.entry key use)) m.table =
        .some (.error (.fault (fullFault capacity)), m.table)) ∧
      ∀ update, exec (program m.hash (.getOrInsert key value update)) m.table =
        .some (.error (.fault (fullFault capacity)), m.table)
  stops : ∀ pairs m' fault, StopsAt store m m' pairs fault →
    exec (program m.hash (.insertAll pairs)) m.table = .some (.error (.fault fault), m'.table)

theorem BoundedTo.programsWithin [EquivBEq K] (h : BoundedTo hash capacity m)
    (hhash : RespectsEquality hash) (hbelow : capacity < capacityBound) :
    ProgramsWithin capacity m := by
  have haddressable : m.table.Addressable :=
    ⟨h.wellFormed.keyed.wellFormed, h.bounded.capacity_eq ▸ hbelow⟩
  have hrun (op : Op K V) := exec_program haddressable op
  refine ⟨hrun, ?_, ?_⟩
  · intro key hkey hfull value
    obtain ⟨htry, hinsert, hentry, hget⟩ := h.refused hhash hkey hfull value
    refine ⟨?_, ?_, fun use => ?_, fun update => ?_⟩
    · rw [hrun, htry]
      rfl
    · rw [hrun, hinsert]
      rfl
    · rw [hrun, hentry]
      rfl
    · rw [hrun, hget]
      rfl
  · intro pairs m' fault hstops
    rw [hrun, Op.perform, insertAll, insertEach_eq_error_iff.2 hstops]
    rfl

end Programs

end LinearProbing.KeyMap

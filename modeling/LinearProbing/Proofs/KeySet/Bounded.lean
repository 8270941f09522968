-- SUMMARY: Bounded sets answer as a dictionary of limited capacity, and refuse only what it has no room for.
import LinearProbing.Proofs.Dictionary.Capacity
import LinearProbing.Proofs.KeySet.Simulation
import LinearProbing.Proofs.Program.KeySet
import LinearProbing.Proofs.Table.Bounded

/-! # Bounded sets

As for maps: a bounded set follows a dictionary of at most as many keys in every operation that it
offers, refusals included.
-/

namespace LinearProbing.KeySet

universe u

open Dictionary Table

variable {K : Type u} [BEq K] {hash : K → UInt64} {capacity : Nat} {s : KeySet K} {keys : List K}

/-! ## Operations -/

/-- The operation is one that bounded sets offer. -/
def Op.OfferedByBounded : Op K → Prop
  | .replace _ => False
  | .retain _ _ => False
  | .reserve _ => False
  | .shrinkToFit => False
  | .drain => False
  | _ => True

/-- The operations on bounded sets. -/
inductive BoundedOp (K : Type u) : Type (max 1 u)
  | shared (op : Op K) (offered : op.OfferedByBounded)
  | capacity
  | isFull

def BoundedOp.perform : BoundedOp K → KeySet K → Outcome K × KeySet K
  | .shared op _, s => op.perform s
  | .capacity, s => (.ok (.number s.capacity), s)
  | .isFull, s => (.ok (.flag s.isFull), s)

/-! ## The same operations on a dictionary of limited capacity -/

def Op.modelWithin (capacity : Nat) (op : Op K) (keys : List K) : Outcome K × List K :=
  match op with
  | .insert key => unlessFull id capacity key keys (.error (fullFault capacity)) (op.model keys)
  | .tryInsert key =>
    unlessFull id capacity key keys (.ok (.failed (.capacityExceeded capacity))) (op.model keys)
  | .insertAll more =>
    insertWithin id insertKey capacity (.ok .done) (.error (fullFault capacity)) keys more
  | op => op.model keys

def BoundedOp.model (capacity : Nat) : BoundedOp K → List K → Outcome K × List K
  | .shared op _, keys => op.modelWithin capacity keys
  | .capacity, keys => (.ok (.number capacity), keys)
  | .isFull, keys => (.ok (.flag (keys.length == capacity)), keys)

def BoundedOp.OrderFree : BoundedOp K → Prop
  | .shared op _ => op.OrderFree
  | _ => True

/-! ## The order of the keys -/

section Order

variable [EquivBEq K] {keys' : List K}

theorem inserts_insertKey : Inserts id (insertKey : List K → K → List K) where
  distinct key hd := distinct_insertKey hd key
  perm key hd hperm := insertKey_perm hd hperm key
  old keys key other hother := by
    unfold insertKey at hother
    split at hother
    · exact ⟨other, List.mem_cons_of_mem key hother, rfl⟩
    · rcases mem_put hother with rfl | hother
      · exact ⟨other, List.mem_cons_self, rfl⟩
      · exact ⟨other, List.mem_cons_of_mem key hother, rfl⟩
  kept keys key other hother := by
    unfold insertKey
    split
    · next hstored =>
      obtain ⟨first, hfirst⟩ := Option.isSome_iff_exists.1 hstored
      rcases List.mem_cons.1 hother with rfl | hother
      · exact ⟨first, mem_of_lookup_eq_some hfirst, beq_of_lookup_eq_some hfirst⟩
      · exact ⟨other, hother, BEq.refl _⟩
    · rcases List.mem_cons.1 hother with rfl | hother
      · exact ⟨other, List.mem_cons_self, BEq.refl _⟩
      · exact exists_mem_put hother key

theorem BoundedOp.model_perm {op : BoundedOp K} (hfree : op.OrderFree) (hd : Distinct id keys)
    (hperm : keys.Perm keys') :
    (op.model capacity keys).1 = (op.model capacity keys').1 ∧
      (op.model capacity keys).2.Perm (op.model capacity keys').2 := by
  cases op with
  | capacity => exact ⟨rfl, hperm⟩
  | isFull =>
    simp only [BoundedOp.model, hperm.length_eq]
    exact ⟨trivial, hperm⟩
  | shared op hoffered =>
    have hmodel := Op.model_perm hfree hd hperm
    cases op with
    | insert key | tryInsert key => exact unlessFull_perm hd hperm _ hmodel
    | insertAll more => exact inserts_insertKey.insertWithin_perm hd hperm more
    | _ => exact hmodel

end Order

/-! ## One step -/

/-- A set that keeps this number of slots, each of its keys stored under its hash. -/
structure BoundedTo (hash : K → UInt64) (capacity : Nat) (s : KeySet K) : Prop where
  wellFormed : s.WellFormed hash
  bounded : s.table.Bounded capacity

omit [BEq K] in
theorem items_bounded (hash : K → UInt64) (capacity : Nat) :
    (KeySet.bounded hash capacity).items = [] :=
  items_fresh _ _

theorem boundedTo_bounded (hash : K → UInt64) (capacity : Nat) :
    BoundedTo hash capacity (.bounded hash capacity) :=
  ⟨⟨rfl, keyed_fresh _ _⟩, bounded_ofBound capacity⟩

variable [EquivBEq K]

theorem BoundedTo.perform (h : BoundedTo hash capacity s) (hhash : RespectsEquality hash)
    (op : Op K) (hoffered : op.OfferedByBounded) : BoundedTo hash capacity (op.perform s).2 := by
  have hkeeps : ¬op.Resizes := by
    intro hresizes
    cases op <;> first | exact hresizes | exact hoffered
  refine ⟨((simulation hhash).step s op h.wellFormed).inv, ?_⟩
  refine h.bounded.of_leads h.wellFormed.keyed.wellFormed ?_
  exact (leads_perform op s).mono fun _ hop hresizes => hkeeps (hop hresizes)

/-- What becomes of a set is as the dictionary has it, refusals included. -/
abbrev FollowsWithin (hash : K → UInt64) (result : Outcome K × KeySet K)
    (expected : Outcome K × List K) : Prop :=
  Follows items (WellFormed hash) (fun _ => False) result expected

/-- Adding a key and trying to come to the same. -/
theorem BoundedTo.insert_cases (h : BoundedTo hash capacity s) (hhash : RespectsEquality hash)
    (key : K) :
    (¬NoRoom id capacity key s.items ∧ ∃ result, s.insert key = .ok result ∧
        s.tryInsert key = .ok result ∧ BoundedTo hash capacity result.2 ∧
        FollowsWithin hash (.ok (.flag result.1), result.2)
          (.ok (.flag (stored key s.items).isNone), insertKey s.items key)) ∨
      (NoRoom id capacity key s.items ∧ s.insert key = .error (fullFault capacity) ∧
        s.tryInsert key = .error (.capacityExceeded capacity)) := by
  have hperform := h.perform hhash (.insert key) trivial
  obtain ⟨⟨rfl, hkeyed⟩, hbounded⟩ := h
  cases hkeyed.boundedCases hhash hbounded key with
  | located e hroom hentry hlocate hplace =>
    have hinsert : s.insert key = .ok (s.add key e) := by
      rw [insert, entry]
      exact congrArg (Except.map (s.add key)) hentry
    have htry : s.tryInsert key = .ok (s.add key e) := by
      rw [tryInsert, locate]
      exact congrArg (Except.map (s.add key)) hlocate
    rw [Op.perform, hinsert] at hperform
    exact .inl ⟨hroom, s.add key e, hinsert, htry, hperform,
      WellFormed.follows_add ⟨rfl, hkeyed⟩ hplace⟩
  | refused hroom hentry hlocate =>
    refine .inr ⟨hroom, ?_, ?_⟩
    · rw [insert, entry]
      exact congrArg (Except.map (s.add key)) hentry
    · rw [tryInsert, locate]
      exact congrArg (Except.map (s.add key)) hlocate

theorem insertsWithin (hhash : RespectsEquality hash) (capacity : Nat) :
    InsertsWithin id insertKey capacity items (BoundedTo hash capacity) (fullFault capacity)
      insert where
  inserts := inserts_insertKey
  distinct _ hs := hs.wellFormed.keyed.distinct
  step s key hs := by
    rcases hs.insert_cases hhash key with
      ⟨hroom, result, hinsert, -, hbounded, hfollows⟩ | ⟨hroom, hinsert, -⟩
    · exact .inl ⟨hroom, result.1, result.2, hinsert, hbounded,
        (hfollows.agrees.resolve_left id).2⟩
    · exact .inr ⟨hroom, hinsert⟩

/-- Keys are added one after the other, and what was added before a refusal stays. -/
theorem BoundedTo.follows_insertAll (h : BoundedTo hash capacity s)
    (hhash : RespectsEquality hash) (more : List K) :
    FollowsWithin hash ((Op.insertAll more).perform s)
      ((Op.insertAll more).modelWithin capacity s.items) := by
  obtain ⟨hlast, hagrees⟩ := (insertsWithin hhash capacity).follows Answer.done h more
  exact ⟨hlast.wellFormed, hagrees⟩

/-- An operation that adds no key is never refused. -/
theorem BoundedTo.follows_of_accepted (h : BoundedTo hash capacity s)
    (hhash : RespectsEquality hash) (op : Op K) (haccepted : ¬(op.perform s).1.LacksRoom) :
    FollowsWithin hash (op.perform s) (op.model s.items) := by
  obtain ⟨hwf, hagrees⟩ := (simulation hhash).step s op h.wellFormed
  exact ⟨hwf, .inr (hagrees.resolve_left haccepted)⟩

/-- The step lemma. -/
theorem BoundedTo.follows (h : BoundedTo hash capacity s) (hhash : RespectsEquality hash)
    (op : Op K) (hoffered : op.OfferedByBounded) :
    FollowsWithin hash (op.perform s) (op.modelWithin capacity s.items) := by
  cases op with
  | insert key =>
    rw [Op.perform, Op.modelWithin, unlessFull]
    rcases h.insert_cases hhash key with
      ⟨hroom, result, hinsert, -, -, hfollows⟩ | ⟨hroom, hinsert, -⟩
    · rw [hinsert, if_neg hroom]
      exact hfollows
    · rw [hinsert, if_pos hroom]
      exact .unchanged h.wellFormed rfl
  | tryInsert key =>
    rw [Op.perform, Op.modelWithin, unlessFull]
    rcases h.insert_cases hhash key with
      ⟨hroom, result, -, htry, -, hfollows⟩ | ⟨hroom, -, htry⟩
    · rw [htry, if_neg hroom]
      exact hfollows
    · rw [htry, if_pos hroom]
      exact .unchanged h.wellFormed rfl
  | insertAll more => exact h.follows_insertAll hhash more
  | get key | contains key | occurrences key | find key | clear | toList | count | isEmpty =>
    exact h.follows_of_accepted hhash _ id
  | take key | remove key =>
    refine h.follows_of_accepted hhash _ ?_
    rw [Op.perform]
    cases s.take? key <;> exact id
  | replace key | retain visit state | reserve additional | shrinkToFit | drain =>
    exact hoffered.elim

/-! ## Every step -/

/-- A bounded set follows the dictionary of its keys in every operation, and refuses nothing that
the dictionary does not. -/
theorem simulation_bounded (hhash : RespectsEquality hash) (capacity : Nat) :
    Simulation (BoundedOp.perform (K := K)) (BoundedOp.model capacity) items
      (BoundedTo hash capacity) (fun _ => False) BoundedOp.OrderFree where
  step s op h := by
    cases op with
    | shared op hoffered =>
      exact ⟨h.perform hhash op hoffered, (h.follows hhash op hoffered).agrees⟩
    | capacity =>
      refine ⟨h, .inr ⟨?_, List.Perm.refl _⟩⟩
      rw [BoundedOp.perform, BoundedOp.model, KeySet.capacity, h.bounded.capacity_eq]
    | isFull =>
      refine ⟨h, .inr ⟨?_, List.Perm.refl _⟩⟩
      rw [BoundedOp.perform, BoundedOp.model, isFull,
        h.bounded.isFull_eq h.wellFormed.keyed.wellFormed]
      rfl
  reorder s op h hfree order hperm :=
    op.model_perm hfree h.wellFormed.keyed.distinct hperm

theorem boundedTo_final (hhash : RespectsEquality hash) (capacity : Nat)
    (ops : List (BoundedOp K)) :
    BoundedTo hash capacity (final BoundedOp.perform (.bounded hash capacity) ops) :=
  (simulation_bounded hhash capacity).inv_final (boundedTo_bounded hash capacity) ops

/-! ## Accepted and refused keys -/

/-- Which keys a set of this capacity accepts, and what is left of it when it refuses one. -/
structure AcceptsWithin (capacity : Nat) (s : KeySet K) : Prop where
  count_le : s.count ≤ capacity
  insert_isOk : ∀ key, (s.insert key).isOk = true ↔ s.contains key = true ∨ s.count < capacity
  tryInsert_eq : ∀ key result, s.insert key = .ok result → s.tryInsert key = .ok result
  present : ∀ key, s.contains key = true →
    (s.get? key).isSome ∧ (s.take? key).isSome ∧
      ∃ s', s.insert key = .ok (false, s') ∧ s'.count = s.count
  refused : ∀ key, s.contains key = false → capacity ≤ s.count →
    (Op.tryInsert key).perform s = (.ok (.failed (.capacityExceeded capacity)), s) ∧
      (Op.insert key).perform s = (.error (fullFault capacity), s)
  stops : ∀ keys s' fault, s.insertAll keys = (s', some fault) →
    fault = fullFault capacity ∧ StopsAt insert s s' keys fault

theorem BoundedTo.noRoom_iff (h : BoundedTo hash capacity s) (hhash : RespectsEquality hash)
    (key : K) :
    NoRoom id capacity key s.items ↔ s.contains key = false ∧ capacity ≤ s.count := by
  rw [h.wellFormed.contains_eq hhash, h.wellFormed.count_eq, Option.isSome_eq_false_iff,
    Option.isNone_iff_eq_none]
  rfl

omit [EquivBEq K] in
/-- A key that is found can be taken out. -/
theorem take?_isSome (s : KeySet K) (key : K) : (s.take? key).isSome = s.contains key := by
  rw [take?, Option.isSome_map, Table.remove?_isSome, contains, get?]

theorem BoundedTo.insert_present (h : BoundedTo hash capacity s) (hhash : RespectsEquality hash)
    {key : K} (hkey : s.contains key = true) :
    ∃ s', s.insert key = .ok (false, s') ∧ s'.count = s.count := by
  rcases h.insert_cases hhash key with
    ⟨-, ⟨new, s'⟩, hinsert, -, hbounded, hfollows⟩ | ⟨hroom, -⟩
  · obtain ⟨hanswer, hitems⟩ := hfollows.agrees.resolve_left id
    rw [h.wellFormed.contains_eq hhash] at hkey
    have hnew : new = false := by
      obtain ⟨first, hstored⟩ := Option.isSome_iff_exists.1 hkey
      rw [hstored] at hanswer
      cases hanswer
      rfl
    rw [insertKey, if_pos hkey] at hitems
    refine ⟨s', hnew ▸ hinsert, ?_⟩
    rw [hbounded.wellFormed.count_eq, h.wellFormed.count_eq]
    exact hitems.length_eq
  · rw [((h.noRoom_iff hhash key).1 hroom).1] at hkey
    cases hkey

theorem BoundedTo.acceptsWithin (h : BoundedTo hash capacity s) (hhash : RespectsEquality hash) :
    AcceptsWithin capacity s where
  count_le := h.bounded.capacity_eq ▸ h.wellFormed.keyed.wellFormed.count_le
  insert_isOk key := by
    rw [← not_noRoom_iff (h.noRoom_iff hhash key)]
    rcases h.insert_cases hhash key with ⟨hroom, result, hinsert, -⟩ | ⟨hroom, hinsert, -⟩
    · rw [hinsert]
      exact iff_of_true rfl hroom
    · rw [hinsert]
      exact iff_of_false Bool.false_ne_true (not_not_intro hroom)
  tryInsert_eq key result hok := by
    rcases h.insert_cases hhash key with ⟨-, result', hinsert, htry, -⟩ | ⟨-, hinsert, -⟩
    · rw [hinsert] at hok
      cases hok
      exact htry
    · rw [hinsert] at hok
      cases hok
  present key hkey := by
    refine ⟨hkey, ?_, h.insert_present hhash hkey⟩
    rwa [take?_isSome]
  refused key hkey hfull := by
    rcases h.insert_cases hhash key with ⟨hroom, -⟩ | ⟨-, hinsert, htry⟩
    · exact absurd ((h.noRoom_iff hhash key).2 ⟨hkey, hfull⟩) hroom
    · refine ⟨?_, ?_⟩
      · rw [Op.perform, htry]
      · rw [Op.perform, hinsert]
        rfl
  stops keys s' fault hall := by
    have hstops := insertEach_eq_error_iff.1 hall
    exact ⟨(insertsWithin hhash capacity).eq_of_stopsAt h hstops, hstops⟩

/-! ## Collecting -/

/-- Collecting keys fails exactly if there are more different ones than slots. -/
theorem insertMany_isOk_iff (hhash : RespectsEquality hash) (capacity : Nat) (keys : List K) :
    ((KeySet.bounded hash capacity).insertMany keys).isOk = false ↔ MoreKeys capacity keys := by
  have hcollect := (insertsWithin hhash capacity).collect_isOk_iff
    (boundedTo_bounded hash capacity) (items_bounded hash capacity) keys
  rwa [List.map_id] at hcollect

/-- A bounded set is a dictionary of limited capacity: it answers as one, it is clear which keys it
accepts, and it can be made of as many keys as it has slots. -/
structure RefinesBounded (hash : K → UInt64) (capacity : Nat) : Prop where
  refines : Refines BoundedOp.perform (BoundedOp.model capacity) (fun _ => False)
    BoundedOp.OrderFree (KeySet.bounded hash capacity) []
  accepts : ∀ ops,
    AcceptsWithin capacity (final BoundedOp.perform (KeySet.bounded hash capacity) ops)
  insertMany_isOk : ∀ keys : List K,
    ((KeySet.bounded hash capacity).insertMany keys).isOk = false ↔ MoreKeys capacity keys

theorem refinesBounded (hhash : RespectsEquality hash) (capacity : Nat) :
    RefinesBounded hash capacity where
  refines := by
    have hrefines := (simulation_bounded hhash capacity).refines (boundedTo_bounded hash capacity)
    rwa [items_bounded] at hrefines
  accepts ops := (boundedTo_final hhash capacity ops).acceptsWithin hhash
  insertMany_isOk := insertMany_isOk_iff hhash capacity

/-! ## Programs -/

section Programs

open Program (ended exec)

variable {K : Type} [BEq K] {hash : K → UInt64} {s : KeySet K}

/-- What the programs on the table of a bounded set come to, as for maps. -/
structure ProgramsWithin (capacity : Nat) (s : KeySet K) : Prop where
  computes : ∀ op, exec (program s.hash op) s.table = ended table (op.perform s)
  refused : ∀ key, s.contains key = false → capacity ≤ s.count →
    exec (program s.hash (.tryInsert key)) s.table =
        .some (.ok (.failed (.capacityExceeded capacity)), s.table) ∧
      exec (program s.hash (.insert key)) s.table =
        .some (.error (.fault (fullFault capacity)), s.table)
  stops : ∀ keys s' fault, StopsAt insert s s' keys fault →
    exec (program s.hash (.insertAll keys)) s.table = .some (.error (.fault fault), s'.table)

theorem BoundedTo.programsWithin [EquivBEq K] (h : BoundedTo hash capacity s)
    (hhash : RespectsEquality hash) (hbelow : capacity < capacityBound) :
    ProgramsWithin capacity s := by
  have haddressable : s.table.Addressable :=
    ⟨h.wellFormed.keyed.wellFormed, h.bounded.capacity_eq ▸ hbelow⟩
  have hrun (op : Op K) := exec_program haddressable op
  refine ⟨hrun, ?_, ?_⟩
  · intro key hkey hfull
    obtain ⟨htry, hinsert⟩ := (h.acceptsWithin hhash).refused key hkey hfull
    refine ⟨?_, ?_⟩
    · rw [hrun, htry]
      rfl
    · rw [hrun, hinsert]
      rfl
  · intro keys s' fault hstops
    rw [hrun, Op.perform, insertAll, insertEach_eq_error_iff.2 hstops]
    rfl

end Programs

end LinearProbing.KeySet

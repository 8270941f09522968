-- SUMMARY: Every operation on a set is either refused for want of room or as its dictionary has it.
import LinearProbing.Proofs.KeySet.Operations
import LinearProbing.Proofs.Simulation

/-! # Simulation of sets

The keys of a set are kept in a keyed table in which each key is its own item. As for maps, each
operation preserves that and is as the dictionary of the keys has it, unless there is no room.
-/

namespace LinearProbing.KeySet

universe u

open Dictionary Table

variable {K : Type u} [BEq K] {hash : K → UInt64} {s : KeySet K} {keys : List K}

/-- The keys in slot order. -/
def items (s : KeySet K) : List K := s.table.items

/-- Each key is stored under its hash, and no two keys are equal. -/
structure WellFormed (hash : K → UInt64) (s : KeySet K) : Prop where
  hash_eq : s.hash = hash
  keyed : Keyed hash id s.table

/-- The result of an operation on a set is as the model has it, unless it is refused. -/
abbrev FollowsModel (hash : K → UInt64) (result : Outcome K × KeySet K)
    (expected : Outcome K × List K) : Prop :=
  Follows items (WellFormed hash) Outcome.LacksRoom result expected

/-- The table of a set gives way to another with these keys. -/
theorem follows_withTable (h : s.WellFormed hash) {Refused : Outcome K → Prop} {table : Table K}
    (hkeyed : Keyed hash id table) (hperm : table.items.Perm keys) {outcome outcome' : Outcome K}
    (houtcome : outcome = outcome') :
    Follows items (WellFormed hash) Refused (outcome, { s with table }) (outcome', keys) :=
  ⟨⟨h.hash_eq, hkeyed⟩, .inr ⟨houtcome, hperm⟩⟩

variable [EquivBEq K]

/-! ## Lookups -/

theorem WellFormed.get?_eq (h : s.WellFormed hash) (hhash : RespectsEquality hash) (key : K) :
    s.get? key = stored key s.items := by
  obtain ⟨rfl, hkeyed⟩ := h
  exact hkeyed.find?_eq hhash key

theorem WellFormed.contains_eq (h : s.WellFormed hash) (hhash : RespectsEquality hash) (key : K) :
    s.contains key = (stored key s.items).isSome := by
  rw [contains, h.get?_eq hhash]

theorem WellFormed.item?_cursor (h : s.WellFormed hash) (hhash : RespectsEquality hash) (key : K) :
    (s.cursor key).item? = stored key s.items := by
  obtain ⟨rfl, hkeyed⟩ := h
  exact hkeyed.item?_cursor hhash key

/-! ## Insertions -/

/-- Storing a key in its entry adds it, unless there is an equal one. -/
theorem WellFormed.follows_add (h : s.WellFormed hash) {Refused : Outcome K → Prop} {key : K}
    {e : Entry K} (he : EntryFor hash id key s.items e) :
    Follows items (WellFormed hash) Refused (.ok (.flag (s.add key e).1), (s.add key e).2)
      (.ok (.flag (stored key s.items).isNone), insertKey s.items key) := by
  have hstored : stored key s.items = e.item? := he.lookup_eq
  rw [insertKey, hstored]
  cases e with
  | vacant e =>
    have hinsert : EntryFor hash id key (put id key s.items) (.occupied (e.insert key)) :=
      he.insert rfl
    exact follows_withTable h hinsert.keyed hinsert.items_perm rfl
  | occupied e => exact follows_withTable h he.keyed he.items_perm rfl

theorem WellFormed.entry_cases (h : s.WellFormed hash) (hhash : RespectsEquality hash) (key : K) :
    (∃ e, s.entry key = .ok e ∧ EntryFor hash id key s.items e) ∨
      ∃ fault, s.entry key = .error fault ∧ fault.LacksRoom := by
  obtain ⟨rfl, hkeyed⟩ := h
  exact hkeyed.entry_cases hhash key

/-- Adding a key succeeds as the model has it, or is refused. -/
theorem WellFormed.insert_cases (h : s.WellFormed hash) (hhash : RespectsEquality hash) (key : K) :
    (∃ new s', s.insert key = .ok (new, s') ∧ FollowsModel hash (.ok (.flag new), s')
        (.ok (.flag (stored key s.items).isNone), insertKey s.items key)) ∨
      ∃ fault, s.insert key = .error fault ∧ fault.LacksRoom := by
  unfold insert
  rcases h.entry_cases hhash key with ⟨e, hentry, he⟩ | ⟨fault, hentry, hlacks⟩
  · exact .inl ⟨_, _, by rw [hentry]; rfl, h.follows_add he⟩
  · exact .inr ⟨fault, by rw [hentry]; rfl, hlacks⟩

theorem WellFormed.follows_insert (h : s.WellFormed hash) (hhash : RespectsEquality hash)
    (key : K) : FollowsModel hash ((Op.insert key).perform s) ((Op.insert key).model s.items) := by
  rw [Op.perform]
  rcases h.insert_cases hhash key with ⟨new, s', hinsert, hs'⟩ | ⟨fault, hinsert, hlacks⟩
  · rw [hinsert]
    exact hs'
  · rw [hinsert]
    exact ⟨h, .inl hlacks⟩

theorem WellFormed.follows_tryInsert (h : s.WellFormed hash) (hhash : RespectsEquality hash)
    (key : K) :
    FollowsModel hash ((Op.tryInsert key).perform s) ((Op.tryInsert key).model s.items) := by
  rw [Op.perform, tryInsert]
  have hcases : (∃ e, s.locate key = .ok e ∧ EntryFor hash id key s.items e) ∨
      s.locate key = .error (.capacityExceeded s.capacity) := by
    obtain ⟨rfl, hkeyed⟩ := h
    exact hkeyed.locate_cases hhash key
  rcases hcases with ⟨e, hlocate, he⟩ | hlocate
  · rw [hlocate]
    exact h.follows_add he
  · rw [hlocate]
    exact Follows.refused h trivial

theorem WellFormed.follows_replace (h : s.WellFormed hash) (hhash : RespectsEquality hash)
    (key : K) :
    FollowsModel hash ((Op.replace key).perform s) ((Op.replace key).model s.items) := by
  rw [Op.perform, replace]
  rcases h.entry_cases hhash key with ⟨e, hentry, he⟩ | ⟨fault, hentry, hlacks⟩
  · have hstored : stored key s.items = e.item? := he.lookup_eq
    rw [hentry, Op.model, hstored]
    cases e with
    | vacant e =>
      have hinsert : EntryFor hash id key (put id key s.items) (.occupied (e.insert key)) :=
        he.insert rfl
      exact follows_withTable h hinsert.keyed hinsert.items_perm rfl
    | occupied e =>
      have hkey : key == e.item := by
        cases he with
        | occupied _ _ hkey => exact hkey
      have hmodify := he.modify hhash (fun _ => key) hkey
      exact follows_withTable h hmodify.keyed hmodify.items_perm rfl
  · rw [hentry]
    exact ⟨h, .inl hlacks⟩

omit [EquivBEq K] in
theorem distinct_insertKey (hd : Distinct id keys) (key : K) :
    Distinct id (insertKey keys key) := by
  unfold insertKey
  split
  · exact hd
  · exact distinct_put hd key

theorem insertKey_perm {keys' : List K} (hd : Distinct id keys) (hperm : keys.Perm keys')
    (key : K) : (insertKey keys key).Perm (insertKey keys' key) := by
  have hstored : stored key keys = stored key keys' := hd.lookup_perm hperm key
  simp only [insertKey, hstored]
  split
  · exact hperm
  · exact put_perm hperm

theorem foldl_insertKey_perm {keys' : List K} (hd : Distinct id keys) (hperm : keys.Perm keys')
    (more : List K) : (more.foldl insertKey keys).Perm (more.foldl insertKey keys') := by
  induction more generalizing keys keys' with
  | nil => exact hperm
  | cons key more ih => exact ih (distinct_insertKey hd key) (insertKey_perm hd hperm key)

/-- Keys are added one after the other up to the first that finds no room. -/
theorem WellFormed.follows_insertAll (h : s.WellFormed hash) (hhash : RespectsEquality hash)
    (more : List K) :
    FollowsModel hash ((Op.insertAll more).perform s) ((Op.insertAll more).model s.items) := by
  refine follows_insertEach ?_ ?_ h more
  · intro s key hs
    rcases hs.insert_cases hhash key with ⟨new, s', hinsert, hs'⟩ | ⟨fault, hinsert, hlacks⟩
    · exact .inl ⟨new, s', hinsert, hs'.inv, (hs'.agrees.resolve_left id).2⟩
    · exact .inr ⟨fault, hinsert, hlacks⟩
  · intro s order more hs hperm
    exact foldl_insertKey_perm hs.keyed.distinct hperm more

/-! ## Removals -/

theorem WellFormed.take?_cases (h : s.WellFormed hash) (hhash : RespectsEquality hash) (key : K) :
    (∃ old s', s.take? key = some (old, s') ∧ stored key s.items = some old ∧
        s'.WellFormed hash ∧ s'.items.Perm (erase id key s.items)) ∨
      (s.take? key = none ∧ stored key s.items = none ∧ erase id key s.items = s.items) := by
  obtain ⟨rfl, hkeyed⟩ := h
  unfold take?
  rcases hkeyed.remove?_cases hhash key with
    ⟨old, t', hremove, hlookup, hkeyed', hperm⟩ | ⟨hremove, hlookup⟩
  · have hremove' : s.table.remove? (s.hash key) (key == ·) = some (old, t') := hremove
    left
    exact ⟨old, { s with table := t' }, by rw [hremove']; rfl, hlookup, ⟨rfl, hkeyed'⟩, hperm⟩
  · have hremove' : s.table.remove? (s.hash key) (key == ·) = none := hremove
    right
    exact ⟨by rw [hremove']; rfl, hlookup, erase_of_lookup_eq_none hlookup⟩

theorem WellFormed.follows_take (h : s.WellFormed hash) (hhash : RespectsEquality hash) (key : K) :
    FollowsModel hash ((Op.take key).perform s) ((Op.take key).model s.items) := by
  rw [Op.perform, Op.model]
  rcases h.take?_cases hhash key with
    ⟨old, s', htake, hstored, hs', hperm⟩ | ⟨htake, hstored, herase⟩
  · rw [htake, hstored]
    exact ⟨hs', .inr ⟨rfl, hperm⟩⟩
  · rw [htake, hstored, herase]
    exact Follows.unchanged h rfl

theorem WellFormed.follows_remove (h : s.WellFormed hash) (hhash : RespectsEquality hash)
    (key : K) : FollowsModel hash ((Op.remove key).perform s) ((Op.remove key).model s.items) := by
  rw [Op.perform, Op.model]
  rcases h.take?_cases hhash key with
    ⟨old, s', htake, hstored, hs', hperm⟩ | ⟨htake, hstored, herase⟩
  · rw [htake, hstored]
    exact ⟨hs', .inr ⟨rfl, hperm⟩⟩
  · rw [htake, hstored, herase]
    exact Follows.unchanged h rfl

/-! ## Slots -/

/-- The keys of a set move to another table. -/
theorem WellFormed.follows_rehoused (h : s.WellFormed hash) {table : Table K}
    (hrehoused : Rehoused s.table table) (answer : Answer K) :
    FollowsModel hash (.ok answer, { s with table }) (.ok answer, s.items) :=
  follows_withTable h (h.keyed.of_perm hrehoused.wellFormed hrehoused.cells_perm)
    (items_perm hrehoused.cells_perm) rfl

theorem WellFormed.follows_reserve (h : s.WellFormed hash) (additional : Nat) :
    FollowsModel hash ((Op.reserve additional).perform s)
      ((Op.reserve additional).model s.items) := by
  rw [Op.perform, reserve]
  rcases h.keyed.wellFormed.reserve_cases additional with ⟨t', hreserve, hrehoused⟩ | ⟨_, hreserve⟩
  · rw [hreserve]
    exact h.follows_rehoused hrehoused .done
  · rw [hreserve]
    exact Follows.refused h trivial

theorem WellFormed.follows_shrinkToFit (h : s.WellFormed hash) :
    FollowsModel hash (Op.shrinkToFit.perform s) (Op.shrinkToFit.model s.items) := by
  obtain ⟨t', hshrink, hrehoused, -⟩ := h.keyed.wellFormed.shrinkToFit_spec
  rw [Op.perform, shrinkToFit, hshrink]
  exact h.follows_rehoused hrehoused .done

/-! ## Visits -/

omit [EquivBEq K] in
theorem WellFormed.toList_eq (h : s.WellFormed hash) : s.toList = s.items :=
  h.keyed.wellFormed.toList_eq_items

theorem WellFormed.follows_retain (h : s.WellFormed hash) {σ : Type}
    (visit : σ → K → σ × Bool) (state : σ) :
    FollowsModel hash ((Op.retain visit state).perform s)
      ((Op.retain visit state).model s.items) := by
  have hvisit : ∀ state (a b : K), (visitKey visit state a).2 = some b → id b = id a := by
    intro state a b hb
    unfold visitKey at hb
    split at hb
    · exact (Option.some.inj hb).symm
    · cases hb
  obtain ⟨last, t', hretain, hkeyed, hperm⟩ := h.keyed.retain hvisit state
  rw [Op.perform, retain_eq_map, hretain]
  exact follows_withTable h hkeyed hperm rfl

omit [EquivBEq K] in
theorem WellFormed.count_eq (h : s.WellFormed hash) : s.count = s.items.length := by
  rw [count, h.keyed.wellFormed.count_eq, items, length_items]

omit [EquivBEq K] in
theorem WellFormed.isEmpty_eq (h : s.WellFormed hash) : s.isEmpty = s.items.isEmpty := by
  have hcount : s.table.count = s.items.length := h.count_eq
  rw [isEmpty, Table.isEmpty, hcount]
  cases s.items <;> rfl

/-! ## All operations -/

/-- An operation that does not show the order of the keys gives the same for every order. -/
theorem Op.model_perm {op : Op K} (hfree : op.OrderFree) {keys' : List K} (hd : Distinct id keys)
    (hperm : keys.Perm keys') :
    (op.model keys).1 = (op.model keys').1 ∧ (op.model keys).2.Perm (op.model keys').2 := by
  have hstored (key : K) : stored key keys = stored key keys' := hd.lookup_perm hperm key
  cases op with
  | insert key | tryInsert key =>
    simp only [Op.model, hstored]
    exact ⟨trivial, insertKey_perm hd hperm key⟩
  | replace key =>
    simp only [Op.model, hstored]
    exact ⟨trivial, put_perm hperm⟩
  | get key | contains key | occurrences key | find key =>
    simp only [Op.model, hstored]
    exact ⟨trivial, hperm⟩
  | take key | remove key =>
    simp only [Op.model, hstored]
    exact ⟨trivial, erase_perm hperm⟩
  | insertAll more => exact ⟨rfl, foldl_insertKey_perm hd hperm more⟩
  | retain visit state =>
    obtain ⟨keep, hkeep⟩ := hfree
    have hvisit : ∀ state (key : K), (visitKey visit state key).2 =
        if keep key then some key else none := by
      intro state key
      rw [visitKey, hkeep]
    refine ⟨rfl, ?_⟩
    simp only [Op.model, sift_eq_filterMap hvisit]
    exact hperm.filterMap _
  | reserve additional | shrinkToFit => exact ⟨rfl, hperm⟩
  | clear => exact ⟨rfl, List.Perm.refl _⟩
  | drain =>
    refine ⟨?_, List.Perm.refl _⟩
    simp only [Op.model, Multiset.coe_eq_coe.2 hperm]
  | toList =>
    refine ⟨?_, hperm⟩
    simp only [Op.model, Multiset.coe_eq_coe.2 hperm]
  | count =>
    simp only [Op.model, hperm.length_eq]
    exact ⟨trivial, hperm⟩
  | isEmpty =>
    simp only [Op.model, hperm.isEmpty_eq]
    exact ⟨trivial, hperm⟩

theorem simulation (hhash : RespectsEquality hash) :
    Simulation (Op.perform (K := K)) Op.model items (WellFormed hash) Outcome.LacksRoom
      Op.OrderFree where
  step s op h := by
    cases op with
    | insert key => exact h.follows_insert hhash key
    | tryInsert key => exact h.follows_tryInsert hhash key
    | replace key => exact h.follows_replace hhash key
    | get key => exact Follows.unchanged h (by rw [h.get?_eq hhash])
    | contains key => exact Follows.unchanged h (by rw [h.contains_eq hhash])
    | occurrences key =>
      simp only [Op.perform, Op.model, occurrences, h.contains_eq hhash]
      cases stored key s.items <;> exact Follows.unchanged h rfl
    | find key => exact Follows.unchanged h (by rw [h.item?_cursor hhash])
    | take key => exact h.follows_take hhash key
    | remove key => exact h.follows_remove hhash key
    | insertAll more => exact h.follows_insertAll hhash more
    | retain visit state => exact h.follows_retain visit state
    | reserve additional => exact h.follows_reserve additional
    | shrinkToFit => exact h.follows_shrinkToFit
    | clear =>
      exact follows_withTable h (keyed_clear s.table) (List.Perm.of_eq (items_clear s.table)) rfl
    | drain =>
      have hanswer : s.traversal.rest = s.items := h.toList_eq
      simp only [Op.perform, Op.model, drain, hanswer]
      exact follows_withTable h (keyed_clear s.table) (List.Perm.of_eq (items_clear s.table)) rfl
    | toList => exact Follows.unchanged h (by rw [h.toList_eq])
    | count => exact Follows.unchanged h (by rw [h.count_eq])
    | isEmpty => exact Follows.unchanged h (by rw [h.isEmpty_eq])
  reorder s op h hfree order hperm := op.model_perm hfree h.keyed.distinct hperm

/-! ## Starts -/

/-- The sets that a program can start with. -/
structure Starts (hash : K → UInt64) (s : KeySet K) : Prop where
  hash_eq : s.hash = hash
  table : s.table.Starts

omit [EquivBEq K] in
theorem Starts.wellFormed (h : s.Starts hash) : s.WellFormed hash := ⟨h.hash_eq, h.table.keyed⟩

omit [BEq K] [EquivBEq K] in
theorem Starts.items_eq_nil (h : s.Starts hash) : s.items = [] := h.table.items_eq_nil

/-- The sets that operations lead to, in any order, if equal keys have equal hashes. -/
structure Reached (s : KeySet K) : Prop where
  respects : RespectsEquality s.hash
  run : ∃ start ops, Starts s.hash start ∧ s = final Op.perform start ops

theorem Reached.wellFormed (h : s.Reached) : s.WellFormed s.hash := by
  obtain ⟨start, ops, hstart, hfinal⟩ := h.run
  have hinv := (simulation h.respects).inv_final hstart.wellFormed ops
  rwa [← hfinal] at hinv

end LinearProbing.KeySet

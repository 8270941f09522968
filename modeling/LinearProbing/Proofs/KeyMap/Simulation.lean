-- SUMMARY: Every operation on a map is either refused for want of room or as its dictionary has it.
import LinearProbing.Proofs.KeyMap.Refinement

/-! # Simulation of maps

One lemma for each kind of operation: lookups, uses of an entry, removals, series of insertions and
visits. Together they make a `Simulation` of maps by their pairs.
-/

namespace LinearProbing.KeyMap

universe u v

open Dictionary Table

variable {K : Type u} {V : Type v} [BEq K] {hash : K → UInt64} {m : KeyMap K V}
  {pairs : List (K × V)}

/-- The result of an operation on a map is as the model has it, unless it is refused. -/
abbrev FollowsModel (hash : K → UInt64) (result : Outcome K V × KeyMap K V)
    (expected : Outcome K V × List (K × V)) : Prop :=
  Follows items (WellFormed hash) Outcome.LacksRoom result expected

theorem follows_of_becomes {Refused : Outcome K V → Prop} {result : Answer K V × KeyMap K V}
    {expected : Answer K V × List (K × V)} (h : Becomes hash result expected) :
    Follows items (WellFormed hash) Refused (.ok result.1, result.2) (answered expected) :=
  ⟨h.wellFormed, .inr ⟨congrArg Except.ok h.answer, h.items⟩⟩

/-- The table of a map gives way to another with these pairs. -/
theorem becomes_withTable (h : m.WellFormed hash) {table : Table (K × V)}
    (hkeyed : Keyed hash Prod.fst table) (hperm : table.items.Perm pairs) (answer : Answer K V) :
    Becomes hash (answer, { m with table }) (answer, pairs) :=
  ⟨rfl, ⟨h.hash_eq, hkeyed⟩, hperm⟩

variable [EquivBEq K]

/-! ## Lookups -/

theorem WellFormed.getEntry?_eq (h : m.WellFormed hash) (hhash : RespectsEquality hash) (key : K) :
    m.getEntry? key = stored key m.items := by
  obtain ⟨rfl, hkeyed⟩ := h
  exact hkeyed.find?_eq hhash key

theorem WellFormed.get?_eq (h : m.WellFormed hash) (hhash : RespectsEquality hash) (key : K) :
    m.get? key = (stored key m.items).map (·.2) := by
  rw [get?, h.getEntry?_eq hhash]

theorem WellFormed.contains_eq (h : m.WellFormed hash) (hhash : RespectsEquality hash) (key : K) :
    m.contains key = (stored key m.items).isSome := by
  rw [contains, h.get?_eq hhash, Option.isSome_map]

theorem WellFormed.item?_cursor (h : m.WellFormed hash) (hhash : RespectsEquality hash) (key : K) :
    (m.cursor key).item? = stored key m.items := by
  obtain ⟨rfl, hkeyed⟩ := h
  exact hkeyed.item?_cursor hhash key

/-! ## Entries -/

theorem WellFormed.entry_cases (h : m.WellFormed hash) (hhash : RespectsEquality hash) (key : K) :
    (∃ e, m.entry key = .ok e ∧ EntryOf hash key m.items e) ∨
      ∃ fault, m.entry key = .error fault ∧ fault.LacksRoom := by
  obtain ⟨rfl, hkeyed⟩ := h
  unfold entry belongs
  rcases hkeyed.entry_cases hhash key with ⟨place, hentry, hplace⟩ | ⟨fault, hentry, hlacks⟩
  · exact .inl ⟨_, by rw [hentry]; rfl, entryOf_ofPlace hplace⟩
  · exact .inr ⟨fault, by rw [hentry]; rfl, hlacks⟩

omit [EquivBEq K] in
theorem WellFormed.locate_cases (h : m.WellFormed hash) (hhash : RespectsEquality hash) (key : K) :
    (∃ e, m.locate key = .ok e ∧ EntryOf hash key m.items e) ∨
      m.locate key = .error (.capacityExceeded m.capacity) := by
  obtain ⟨rfl, hkeyed⟩ := h
  unfold locate belongs
  rcases hkeyed.locate_cases hhash key with ⟨place, hlocate, hplace⟩ | hlocate
  · exact .inl ⟨_, by rw [hlocate]; rfl, entryOf_ofPlace hplace⟩
  · exact .inr (by rw [hlocate]; rfl)

theorem WellFormed.follows_use (h : m.WellFormed hash) (hhash : RespectsEquality hash) (key : K)
    (use : EntryUse V) :
    FollowsModel hash (attempt m ((m.entry key).map use.apply))
      (answered (use.model key m.items)) := by
  rcases h.entry_cases hhash key with ⟨e, hentry, he⟩ | ⟨fault, hentry, hlacks⟩
  · rw [hentry]
    exact follows_of_becomes (use.becomes hhash he)
  · rw [hentry]
    exact ⟨h, .inl hlacks⟩

theorem WellFormed.insert_cases (h : m.WellFormed hash) (hhash : RespectsEquality hash) (key : K)
    (value : V) :
    (∃ old m', m.insert key value = .ok (old, m') ∧
        Becomes hash (.value old, m') ((EntryUse.insert value).model key m.items)) ∨
      ∃ fault, m.insert key value = .error fault ∧ fault.LacksRoom := by
  unfold insert
  rcases h.entry_cases hhash key with ⟨e, hentry, he⟩ | ⟨fault, hentry, hlacks⟩
  · exact .inl ⟨_, _, by rw [hentry]; rfl, (EntryUse.insert value).becomes hhash he⟩
  · exact .inr ⟨fault, by rw [hentry]; rfl, hlacks⟩

theorem WellFormed.follows_insert (h : m.WellFormed hash) (hhash : RespectsEquality hash) (key : K)
    (value : V) :
    FollowsModel hash ((Op.insert key value).perform m)
      ((Op.insert key value).model m.items) := by
  rw [Op.perform]
  rcases h.insert_cases hhash key value with ⟨old, m', hinsert, hm'⟩ | ⟨fault, hinsert, hlacks⟩
  · rw [hinsert]
    exact follows_of_becomes hm'
  · rw [hinsert]
    exact ⟨h, .inl hlacks⟩

theorem WellFormed.follows_tryInsert (h : m.WellFormed hash) (hhash : RespectsEquality hash)
    (key : K) (value : V) :
    FollowsModel hash ((Op.tryInsert key value).perform m)
      ((Op.tryInsert key value).model m.items) := by
  rw [Op.perform, tryInsert]
  rcases h.locate_cases hhash key with ⟨e, hlocate, he⟩ | hlocate
  · rw [hlocate]
    exact follows_of_becomes ((EntryUse.insert value).becomes hhash he)
  · rw [hlocate]
    exact Follows.refused h trivial

/-- Pairs are inserted one after the other up to the first that finds no room. -/
theorem WellFormed.follows_insertAll (h : m.WellFormed hash) (hhash : RespectsEquality hash)
    (more : List (K × V)) :
    FollowsModel hash ((Op.insertAll more).perform m) ((Op.insertAll more).model m.items) := by
  refine follows_insertEach ?_ ?_ h more
  · intro m pair hm
    rcases hm.insert_cases hhash pair.1 pair.2 with
      ⟨old, m', hinsert, hm'⟩ | ⟨fault, hinsert, hlacks⟩
    · exact .inl ⟨old, m', hinsert, hm'.wellFormed, hm'.items⟩
    · exact .inr ⟨fault, hinsert, hlacks⟩
  · intro m order more hm hperm
    exact foldl_insertPair_perm hm.keyed.distinct hperm more

/-! ## Changes and removals -/

theorem WellFormed.follows_modify (h : m.WellFormed hash) (hhash : RespectsEquality hash) (key : K)
    (update : V → V) :
    FollowsModel hash ((Op.modify key update).perform m)
      ((Op.modify key update).model m.items) := by
  obtain ⟨rfl, hkeyed⟩ := h
  rw [Op.perform, Op.model, modify?_eq_map]
  unfold belongs
  rcases hkeyed.modify?_cases hhash key (updatePair fun _ => update) (fun _ => rfl) with
    ⟨pair, t', hmodify, hlookup, hkeyed', hperm⟩ | ⟨hmodify, hlookup⟩
  · have hstored : stored key m.items = some pair := hlookup
    rw [hmodify, hstored]
    exact follows_of_becomes (becomes_withTable ⟨rfl, hkeyed⟩ hkeyed' hperm _)
  · have hstored : stored key m.items = none := hlookup
    rw [hmodify, hstored]
    exact Follows.unchanged ⟨rfl, hkeyed⟩ rfl

theorem WellFormed.removeEntry?_cases (h : m.WellFormed hash) (hhash : RespectsEquality hash)
    (key : K) :
    (∃ pair m', m.removeEntry? key = some (pair, m') ∧ stored key m.items = some pair ∧
        m'.WellFormed hash ∧ m'.items.Perm (erase Prod.fst key m.items)) ∨
      (m.removeEntry? key = none ∧ stored key m.items = none ∧
        erase Prod.fst key m.items = m.items) := by
  obtain ⟨rfl, hkeyed⟩ := h
  unfold removeEntry? belongs
  rcases hkeyed.remove?_cases hhash key with
    ⟨pair, t', hremove, hlookup, hkeyed', hperm⟩ | ⟨hremove, hlookup⟩
  · left
    exact ⟨pair, { m with table := t' }, by rw [hremove]; rfl, hlookup, ⟨rfl, hkeyed'⟩, hperm⟩
  · right
    exact ⟨by rw [hremove]; rfl, hlookup, erase_of_lookup_eq_none hlookup⟩

theorem WellFormed.follows_removeEntry (h : m.WellFormed hash) (hhash : RespectsEquality hash)
    (key : K) :
    FollowsModel hash ((Op.removeEntry key).perform m)
      ((Op.removeEntry key).model m.items) := by
  rw [Op.perform, Op.model]
  rcases h.removeEntry?_cases hhash key with
    ⟨pair, m', hremove, hstored, hm', hperm⟩ | ⟨hremove, hstored, herase⟩
  · rw [hremove, hstored]
    exact ⟨hm', .inr ⟨rfl, hperm⟩⟩
  · rw [hremove, hstored, herase]
    exact Follows.unchanged h rfl

theorem WellFormed.follows_remove (h : m.WellFormed hash) (hhash : RespectsEquality hash)
    (key : K) :
    FollowsModel hash ((Op.remove key).perform m) ((Op.remove key).model m.items) := by
  rw [Op.perform, Op.model, remove?]
  rcases h.removeEntry?_cases hhash key with
    ⟨pair, m', hremove, hstored, hm', hperm⟩ | ⟨hremove, hstored, herase⟩
  · rw [hremove, hstored]
    exact ⟨hm', .inr ⟨rfl, hperm⟩⟩
  · rw [hremove, hstored, herase]
    exact Follows.unchanged h rfl

/-! ## Slots -/

/-- The pairs of a map move to another table. -/
theorem WellFormed.follows_rehoused (h : m.WellFormed hash) {table : Table (K × V)}
    (hrehoused : Rehoused m.table table) (answer : Answer K V) :
    FollowsModel hash (.ok answer, { m with table }) (.ok answer, m.items) :=
  follows_of_becomes (becomes_withTable h
    (h.keyed.of_perm hrehoused.wellFormed hrehoused.cells_perm)
    (items_perm hrehoused.cells_perm) answer)

theorem WellFormed.follows_reserve (h : m.WellFormed hash) (additional : Nat) :
    FollowsModel hash ((Op.reserve additional).perform m)
      ((Op.reserve additional).model m.items) := by
  rw [Op.perform, reserve]
  rcases h.keyed.wellFormed.reserve_cases additional with ⟨t', hreserve, hrehoused⟩ | ⟨_, hreserve⟩
  · rw [hreserve]
    exact h.follows_rehoused hrehoused .done
  · rw [hreserve]
    exact Follows.refused h trivial

theorem WellFormed.follows_shrinkToFit (h : m.WellFormed hash) :
    FollowsModel hash (Op.shrinkToFit.perform m) (Op.shrinkToFit.model m.items) := by
  obtain ⟨t', hshrink, hrehoused, -⟩ := h.keyed.wellFormed.shrinkToFit_spec
  rw [Op.perform, shrinkToFit, hshrink]
  exact h.follows_rehoused hrehoused .done

/-! ## Visits -/

omit [EquivBEq K] in
theorem WellFormed.toList_eq (h : m.WellFormed hash) : m.toList = m.items :=
  h.keyed.wellFormed.toList_eq_items

theorem WellFormed.follows_retain (h : m.WellFormed hash) {σ : Type}
    (visit : σ → K → V → σ × Option V) (state : σ) :
    FollowsModel hash ((Op.retain visit state).perform m)
      ((Op.retain visit state).model m.items) := by
  have hvisit : ∀ state (a b : K × V), (visitPair visit state a).2 = some b → b.1 = a.1 := by
    intro state a b hb
    obtain ⟨value, -, rfl⟩ := Option.map_eq_some_iff.1 hb
    rfl
  obtain ⟨last, t', hretain, hkeyed, hperm⟩ := h.keyed.retain hvisit state
  rw [Op.perform, retain_eq_map, hretain]
  exact follows_of_becomes (becomes_withTable h hkeyed hperm .done)

theorem WellFormed.follows_visitFirst (h : m.WellFormed hash) (updates : List (K → V → V)) :
    FollowsModel hash ((Op.visitFirst updates).perform m)
      ((Op.visitFirst updates).model m.items) := by
  have hupdates : ∀ update ∈ updates.map updatePair, ∀ a : K × V, (update a).1 = a.1 := by
    intro update hmem a
    obtain ⟨source, -, rfl⟩ := List.mem_map.1 hmem
    rfl
  obtain ⟨hanswer, hkeyed, hperm⟩ := h.keyed.visit_front hupdates
  rw [List.map_map, List.length_map] at hanswer
  rw [List.map_map] at hkeyed hperm
  refine ⟨⟨h.hash_eq, hkeyed⟩, .inr ⟨?_, hperm⟩⟩
  exact congrArg (fun pairs : List (K × V) => (.ok (.pairs pairs) : Outcome K V)) hanswer

theorem WellFormed.follows_mapValues (h : m.WellFormed hash) (update : K → V → V) :
    FollowsModel hash ((Op.mapValues update).perform m)
      ((Op.mapValues update).model m.items) := by
  obtain ⟨hkeyed, hperm⟩ := h.keyed.mapItems (updatePair update) fun _ => rfl
  have hanswer : (m.traversal.restWith (updatePair update)).1 =
      m.items.map (updatePair update) := by
    rw [items, Table.items, List.map_map]
    exact (h.keyed.wellFormed.restWith_traversal (updatePair update)).1
  refine ⟨⟨h.hash_eq, hkeyed⟩, .inr ⟨?_, hperm⟩⟩
  exact congrArg (fun pairs : List (K × V) => (.ok (.pairs pairs) : Outcome K V)) hanswer

omit [EquivBEq K] in
theorem WellFormed.count_eq (h : m.WellFormed hash) : m.count = m.items.length := by
  rw [count, h.keyed.wellFormed.count_eq, items, length_items]

omit [EquivBEq K] in
theorem WellFormed.isEmpty_eq (h : m.WellFormed hash) : m.isEmpty = m.items.isEmpty := by
  have hcount : m.table.count = m.items.length := h.count_eq
  rw [isEmpty, Table.isEmpty, hcount]
  cases m.items <;> rfl

/-! ## All operations -/

theorem simulation (hhash : RespectsEquality hash) :
    Simulation (Op.perform (K := K) (V := V)) Op.model items (WellFormed hash) Outcome.LacksRoom
      Op.OrderFree where
  step m op h := by
    cases op with
    | insert key value => exact h.follows_insert hhash key value
    | tryInsert key value => exact h.follows_tryInsert hhash key value
    | get key => exact Follows.unchanged h (by rw [h.get?_eq hhash])
    | getEntry key => exact Follows.unchanged h (by rw [h.getEntry?_eq hhash])
    | lookup key =>
      simp only [Op.perform, Op.model, lookup, h.get?_eq hhash]
      cases stored key m.items <;> exact Follows.unchanged h rfl
    | fetch key =>
      simp only [Op.perform, Op.model, fetch, h.get?_eq hhash]
      cases stored key m.items <;> exact Follows.unchanged h rfl
    | contains key => exact Follows.unchanged h (by rw [h.contains_eq hhash])
    | occurrences key =>
      simp only [Op.perform, Op.model, occurrences, h.contains_eq hhash]
      cases stored key m.items <;> exact Follows.unchanged h rfl
    | find key => exact Follows.unchanged h (by rw [h.item?_cursor hhash])
    | modify key update => exact h.follows_modify hhash key update
    | getOrInsert key value update =>
      rw [Op.perform, map_getOrInsert]
      exact h.follows_use hhash key _
    | remove key => exact h.follows_remove hhash key
    | removeEntry key => exact h.follows_removeEntry hhash key
    | entry key use => exact h.follows_use hhash key use
    | insertAll pairs => exact h.follows_insertAll hhash pairs
    | retain visit state => exact h.follows_retain visit state
    | reserve additional => exact h.follows_reserve additional
    | shrinkToFit => exact h.follows_shrinkToFit
    | clear =>
      exact follows_of_becomes (becomes_withTable h (keyed_clear m.table)
        (List.Perm.of_eq (items_clear m.table)) .done)
    | drain =>
      have hanswer : m.traversal.rest = m.items := h.toList_eq
      simp only [Op.perform, Op.model, drain, hanswer]
      exact follows_of_becomes (becomes_withTable h (keyed_clear m.table)
        (List.Perm.of_eq (items_clear m.table)) _)
    | visitFirst updates => exact h.follows_visitFirst updates
    | mapValues update => exact h.follows_mapValues update
    | toList => exact Follows.unchanged h (by rw [h.toList_eq])
    | count => exact Follows.unchanged h (by rw [h.count_eq])
    | isEmpty => exact Follows.unchanged h (by rw [h.isEmpty_eq])
  reorder m op h hfree order hperm := op.model_perm hfree h.keyed.distinct hperm

/-! ## Starts -/

/-- The maps that a program can start with. -/
structure Starts (hash : K → UInt64) (m : KeyMap K V) : Prop where
  hash_eq : m.hash = hash
  table : m.table.Starts

omit [EquivBEq K] in
theorem Starts.wellFormed (h : m.Starts hash) : m.WellFormed hash := ⟨h.hash_eq, h.table.keyed⟩

omit [BEq K] [EquivBEq K] in
theorem Starts.items_eq_nil (h : m.Starts hash) : m.items = [] := h.table.items_eq_nil

/-- The maps that operations lead to, in any order, if equal keys have equal hashes. -/
structure Reached (m : KeyMap K V) : Prop where
  respects : RespectsEquality m.hash
  run : ∃ start ops, Starts m.hash start ∧ m = final Op.perform start ops

theorem Reached.wellFormed (h : m.Reached) : m.WellFormed m.hash := by
  obtain ⟨start, ops, hstart, hfinal⟩ := h.run
  have hinv := (simulation h.respects).inv_final hstart.wellFormed ops
  rwa [← hfinal] at hinv

end LinearProbing.KeyMap

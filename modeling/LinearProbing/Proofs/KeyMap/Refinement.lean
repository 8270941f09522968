-- SUMMARY: Maps follow the dictionary of their pairs in every operation.
import LinearProbing.Proofs.KeyMap.Operations
import LinearProbing.Proofs.Simulation

/-! # Maps as dictionaries

The pairs of a map are kept in a keyed table. Each operation preserves that, and, unless there is no
room for another pair, it answers and changes the pairs as the same operation does on a dictionary.
-/

namespace LinearProbing.KeyMap

universe u v w

open Dictionary Table

variable {K : Type u} {V : Type v} [BEq K] {hash : K → UInt64} {key : K}
  {m : KeyMap K V} {pairs : List (K × V)}

/-- The pairs in slot order. -/
def items (m : KeyMap K V) : List (K × V) := m.table.items

/-- Each pair is stored under the hash of its key, and no two keys are equal. -/
structure WellFormed (hash : K → UInt64) (m : KeyMap K V) : Prop where
  hash_eq : m.hash = hash
  keyed : Keyed hash Prod.fst m.table

/-- What becomes of a map is as the model has it. -/
structure Becomes {A : Type w} (hash : K → UInt64) (result : A × KeyMap K V)
    (expected : A × List (K × V)) : Prop where
  answer : result.1 = expected.1
  wellFormed : result.2.WellFormed hash
  items : result.2.items.Perm expected.2

/-! ## Uses of an entry -/

/-- The entry of a key in a map with these pairs. -/
inductive EntryOf (hash : K → UInt64) (key : K) (pairs : List (K × V)) : Entry K V → Prop
  | vacant {e : VacantEntry K V} (hash_eq : e.hash = hash) (key_eq : e.key = key)
      (place : EntryFor hash Prod.fst key pairs (.vacant e.place)) :
      EntryOf hash key pairs (.vacant e)
  | occupied {e : OccupiedEntry K V} (hash_eq : e.hash = hash)
      (place : EntryFor hash Prod.fst key pairs (.occupied e.place)) :
      EntryOf hash key pairs (.occupied e)

theorem entryOf_ofPlace {place : LinearProbing.Entry (K × V)}
    (h : EntryFor hash Prod.fst key pairs place) :
    EntryOf hash key pairs (.ofPlace hash key place) := by
  cases place with
  | vacant place => exact .vacant rfl rfl h
  | occupied place => exact .occupied rfl h

theorem EntryOf.key_eq {e : VacantEntry K V} (h : EntryOf hash key pairs (.vacant e)) :
    e.key = key := by
  cases h with
  | vacant _ hkey => exact hkey

theorem Becomes.preceded {result : List (Answer K V) × KeyMap K V}
    {expected : List (Answer K V) × List (K × V)} (h : Becomes hash result expected)
    (answer : Answer K V) :
    Becomes hash (KeyMap.preceded answer result) (KeyMap.preceded answer expected) :=
  ⟨congrArg (answer :: ·) h.answer, h.wellFormed, h.items⟩

theorem becomes_vacant {e : VacantEntry K V} (h : EntryOf hash key pairs (.vacant e))
    {A : Type w} (answer : A) : Becomes hash (answer, (Entry.vacant e).map) (answer, pairs) := by
  cases h with
  | vacant hhash _ hplace => exact ⟨rfl, ⟨hhash, hplace.keyed⟩, hplace.items_perm⟩

theorem becomes_occupied {e : OccupiedEntry K V} (h : EntryOf hash key pairs (.occupied e))
    {A : Type w} (answer : A) : Becomes hash (answer, e.map) (answer, pairs) := by
  cases h with
  | occupied hhash hplace => exact ⟨rfl, ⟨hhash, hplace.keyed⟩, hplace.items_perm⟩

variable [EquivBEq K]

theorem stored_of_vacant {e : VacantEntry K V} (h : EntryOf hash key pairs (.vacant e)) :
    stored key pairs = none := by
  cases h with
  | vacant _ _ hplace => exact hplace.lookup_eq

theorem stored_of_occupied {e : OccupiedEntry K V} (h : EntryOf hash key pairs (.occupied e)) :
    stored key pairs = some (e.key, e.value) := by
  cases h with
  | occupied _ hplace => exact hplace.lookup_eq

theorem EntryOf.insert {e : VacantEntry K V} (h : EntryOf hash key pairs (.vacant e))
    (value : V) :
    EntryOf hash key (put Prod.fst (key, value) pairs) (.occupied (e.insert value)) := by
  cases h with
  | vacant hhash hkey hplace =>
    subst hkey
    exact .occupied hhash (hplace.insert rfl)

theorem EntryOf.modify (hhash : RespectsEquality hash) {e : OccupiedEntry K V}
    (h : EntryOf hash key pairs (.occupied e)) (update : V → V) :
    EntryOf hash key (put Prod.fst (e.key, update e.value) pairs)
      (.occupied (e.modify update)) := by
  cases h with
  | occupied heq hplace =>
    exact .occupied heq (hplace.modify hhash (updatePair fun _ => update) (BEq.refl _))

theorem VacantUse.becomes (use : VacantUse V) {e : VacantEntry K V}
    (h : EntryOf hash key pairs (.vacant e)) :
    Becomes hash (use.apply e) (use.model key pairs) := by
  cases use with
  | intoKey =>
    obtain rfl := h.key_eq
    exact becomes_vacant h _
  | insert value => exact becomes_occupied (h.insert value) _

theorem OccupiedUse.becomes (hhash : RespectsEquality hash) (use : OccupiedUse V)
    {e : OccupiedEntry K V} (h : EntryOf hash key pairs (.occupied e)) :
    Becomes hash (use.apply e) (use.model key (e.key, e.value) pairs) := by
  induction use generalizing e pairs with
  | release => exact becomes_occupied h _
  | key rest ih => exact (ih h).preceded _
  | get rest ih => exact (ih h).preceded _
  | modify update rest ih => exact (ih (h.modify hhash update)).preceded _
  | insert value rest ih => exact (ih (h.modify hhash fun _ => value)).preceded _
  | remove =>
    cases h with
    | occupied heq hplace =>
      obtain ⟨hkeyed, hperm⟩ := hplace.remove
      exact ⟨rfl, ⟨heq, hkeyed⟩, hperm⟩
  | removeEntry =>
    cases h with
    | occupied heq hplace =>
      obtain ⟨hkeyed, hperm⟩ := hplace.remove
      exact ⟨rfl, ⟨heq, hkeyed⟩, hperm⟩

theorem EntryUse.becomes (hhash : RespectsEquality hash) (use : EntryUse V) {e : Entry K V}
    (h : EntryOf hash key pairs e) : Becomes hash (use.apply e) (use.model key pairs) := by
  induction use generalizing e pairs with
  | key =>
    cases e with
    | vacant e =>
      rw [EntryUse.model, stored_of_vacant h]
      exact (VacantUse.intoKey (V := V)).becomes h
    | occupied e =>
      rw [EntryUse.model, stored_of_occupied h]
      exact becomes_occupied h _
  | orInsertWith value update =>
    cases e with
    | vacant e =>
      rw [EntryUse.model, stored_of_vacant h]
      obtain rfl := h.key_eq
      have hmodify : EntryOf hash e.key
          (put Prod.fst (e.key, update (value ())) (put Prod.fst (e.key, value ()) pairs))
          (.occupied ((e.insert (value ())).modify update)) :=
        (h.insert (value ())).modify hhash update
      have hkey : Prod.fst (e.key, update (value ())) == Prod.fst (e.key, value ()) :=
        BEq.refl e.key
      rw [put_put hkey] at hmodify
      exact becomes_occupied hmodify _
    | occupied e =>
      rw [EntryUse.model, stored_of_occupied h]
      exact becomes_occupied (h.modify hhash update) _
  | insert value =>
    cases e with
    | vacant e =>
      rw [EntryUse.model, stored_of_vacant h]
      exact becomes_occupied (h.insert value) _
    | occupied e =>
      rw [EntryUse.model, stored_of_occupied h]
      exact becomes_occupied (h.modify hhash fun _ => value) _
  | andModify update rest ih =>
    cases e with
    | vacant e =>
      rw [EntryUse.model, stored_of_vacant h]
      exact ih h
    | occupied e =>
      rw [EntryUse.model, stored_of_occupied h]
      exact ih (h.modify hhash update)
  | branch vacant occupied =>
    cases e with
    | vacant e =>
      rw [EntryUse.model, stored_of_vacant h]
      exact vacant.becomes h
    | occupied e =>
      rw [EntryUse.model, stored_of_occupied h]
      obtain ⟨hanswers, hwf, hpairs⟩ := occupied.becomes hhash h
      exact ⟨congrArg Answer.all hanswers, hwf, hpairs⟩

/-! ## The order of the pairs -/

theorem stored_perm {pairs' : List (K × V)} (hd : Distinct Prod.fst pairs)
    (hperm : pairs.Perm pairs') (key : K) : stored key pairs = stored key pairs' :=
  hd.lookup_perm hperm key

omit [BEq K] [EquivBEq K] in
theorem preceded_perm {first second : List (Answer K V) × List (K × V)} (answer : Answer K V)
    (h : first.1 = second.1 ∧ first.2.Perm second.2) :
    (preceded answer first).1 = (preceded answer second).1 ∧
      (preceded answer first).2.Perm (preceded answer second).2 :=
  ⟨congrArg (answer :: ·) h.1, h.2⟩

omit [EquivBEq K] in
theorem OccupiedUse.model_perm (use : OccupiedUse V) (pair : K × V) {pairs' : List (K × V)}
    (hperm : pairs.Perm pairs') :
    (use.model key pair pairs).1 = (use.model key pair pairs').1 ∧
      (use.model key pair pairs).2.Perm (use.model key pair pairs').2 := by
  induction use generalizing pair pairs pairs' with
  | release => exact ⟨rfl, hperm⟩
  | key rest ih => exact preceded_perm _ (ih pair hperm)
  | get rest ih => exact preceded_perm _ (ih pair hperm)
  | modify update rest ih => exact preceded_perm _ (ih _ (put_perm hperm))
  | insert value rest ih => exact preceded_perm _ (ih _ (put_perm hperm))
  | remove => exact ⟨rfl, erase_perm hperm⟩
  | removeEntry => exact ⟨rfl, erase_perm hperm⟩

theorem EntryUse.model_perm (use : EntryUse V) (key : K) {pairs pairs' : List (K × V)}
    (hd : Distinct Prod.fst pairs) (hperm : pairs.Perm pairs') :
    (use.model key pairs).1 = (use.model key pairs').1 ∧
      (use.model key pairs).2.Perm (use.model key pairs').2 := by
  have hstored := stored_perm hd hperm key
  induction use generalizing pairs pairs' with
  | key =>
    rw [EntryUse.model, EntryUse.model, hstored]
    exact ⟨rfl, hperm⟩
  | orInsertWith value update =>
    simp only [EntryUse.model, hstored]
    split
    · exact ⟨rfl, put_perm hperm⟩
    · exact ⟨rfl, put_perm hperm⟩
  | insert value =>
    simp only [EntryUse.model, hstored]
    split
    · exact ⟨rfl, put_perm hperm⟩
    · exact ⟨rfl, put_perm hperm⟩
  | andModify update rest ih =>
    simp only [EntryUse.model, hstored]
    split
    · exact ih hd hperm hstored
    · exact ih (distinct_put hd _) (put_perm hperm)
        (stored_perm (distinct_put hd _) (put_perm hperm) key)
  | branch vacant occupied =>
    simp only [EntryUse.model, hstored]
    split
    · cases vacant with
      | intoKey => exact ⟨rfl, hperm⟩
      | insert value => exact ⟨rfl, put_perm hperm⟩
    · obtain ⟨hanswers, hpairs⟩ := occupied.model_perm _ hperm
      exact ⟨congrArg Answer.all hanswers, hpairs⟩

omit [EquivBEq K] in
theorem distinct_insertPair (hd : Distinct Prod.fst pairs) (pair : K × V) :
    Distinct Prod.fst (insertPair pairs pair) := by
  unfold insertPair
  rw [EntryUse.model]
  split
  · exact distinct_put hd _
  · exact distinct_put hd _

theorem foldl_insertPair_perm {pairs' : List (K × V)} (hd : Distinct Prod.fst pairs)
    (hperm : pairs.Perm pairs') (more : List (K × V)) :
    (more.foldl insertPair pairs).Perm (more.foldl insertPair pairs') := by
  induction more generalizing pairs pairs' with
  | nil => exact hperm
  | cons pair more ih =>
    exact ih (distinct_insertPair hd pair)
      ((EntryUse.insert pair.2).model_perm pair.1 hd hperm).2

/-- An operation that does not show the order of the pairs gives the same for every order. -/
theorem Op.model_perm {op : Op K V} (hfree : op.OrderFree) {pairs' : List (K × V)}
    (hd : Distinct Prod.fst pairs) (hperm : pairs.Perm pairs') :
    (op.model pairs).1 = (op.model pairs').1 ∧ (op.model pairs).2.Perm (op.model pairs').2 := by
  have hstored (key : K) : stored key pairs = stored key pairs' := stored_perm hd hperm key
  have huse (key : K) (use : EntryUse V) :
      (answered (use.model key pairs)).1 = (answered (use.model key pairs')).1 ∧
        (answered (use.model key pairs)).2.Perm (answered (use.model key pairs')).2 := by
    obtain ⟨hanswer, hpairs⟩ := use.model_perm key hd hperm
    exact ⟨congrArg Except.ok hanswer, hpairs⟩
  cases op with
  | insert key value => exact huse key _
  | tryInsert key value => exact huse key _
  | getOrInsert key value update => exact huse key _
  | entry key use => exact huse key use
  | get key | getEntry key | contains key | occurrences key | find key =>
    simp only [Op.model, hstored]
    exact ⟨trivial, hperm⟩
  | lookup key | fetch key =>
    simp only [Op.model, hstored]
    split
    · exact ⟨rfl, hperm⟩
    · exact ⟨rfl, hperm⟩
  | modify key update =>
    simp only [Op.model, hstored]
    split
    · exact ⟨rfl, hperm⟩
    · exact ⟨rfl, put_perm hperm⟩
  | remove key | removeEntry key =>
    simp only [Op.model, hstored]
    exact ⟨trivial, erase_perm hperm⟩
  | insertAll more => exact ⟨rfl, foldl_insertPair_perm hd hperm more⟩
  | retain visit state =>
    obtain ⟨keep, hkeep⟩ := hfree
    have hvisit : ∀ state (pair : K × V), (visitPair visit state pair).2 =
        (keep pair.1 pair.2).map (pair.1, ·) := by
      intro state pair
      rw [visitPair, hkeep]
    refine ⟨rfl, ?_⟩
    simp only [Op.model, sift_eq_filterMap hvisit]
    exact hperm.filterMap _
  | reserve additional | shrinkToFit => exact ⟨rfl, hperm⟩
  | clear => exact ⟨rfl, List.Perm.refl _⟩
  | drain =>
    refine ⟨?_, List.Perm.refl _⟩
    simp only [Op.model, Multiset.coe_eq_coe.2 hperm]
  | visitFirst updates => exact hfree.elim
  | mapValues update =>
    refine ⟨?_, hperm.map _⟩
    simp only [Op.model, Multiset.coe_eq_coe.2 (hperm.map (updatePair update))]
  | toList =>
    refine ⟨?_, hperm⟩
    simp only [Op.model, Multiset.coe_eq_coe.2 hperm]
  | count => 
    simp only [Op.model, hperm.length_eq]
    exact ⟨trivial, hperm⟩
  | isEmpty =>
    simp only [Op.model, hperm.isEmpty_eq]
    exact ⟨trivial, hperm⟩

end LinearProbing.KeyMap

-- SUMMARY: Unions, intersections and differences of sets list exactly the keys they should, each once.
import LinearProbing.Proofs.Equality
import LinearProbing.Proofs.KeySet.Listing

/-! # Set algebra

A combination of two sets lists the stored keys of one or both, in slot order. What it lists is
said here in terms of what the sets hold, without slots and hashes: `shared` are the keys of one set
that are in the other, `missing` those that are not. As no two keys of a set are equal and a
lookup in the other set is complete, each class of equal keys is represented once.
-/

namespace LinearProbing

universe u

open Dictionary

variable {K : Type u} [BEq K]

/-! ## Keys of two lists -/

namespace Dictionary

variable {keys others : List K} {key : K}

/-- There is an equal key. -/
def Has (keys : List K) (key : K) : Prop := ∃ stored ∈ keys, key == stored

/-- The keys that the others have. -/
def shared (keys others : List K) : List K := keys.filter fun key => others.any (key == ·)

/-- The keys that the others do not have. -/
def missing (keys others : List K) : List K := keys.filter fun key => !others.any (key == ·)

theorem any_eq_true_iff_has : others.any (key == ·) = true ↔ Has others key := List.any_eq_true

theorem mem_missing : key ∈ missing keys others ↔ key ∈ keys ∧ ¬Has others key := by
  rw [missing, List.mem_filter, Bool.not_eq_true', ← Bool.not_eq_true, any_eq_true_iff_has]

theorem has_append : Has (keys ++ others) key ↔ Has keys key ∨ Has others key := by
  simp only [Has, List.mem_append, or_and_right, exists_or]

theorem missing_eq_nil_iff : missing keys others = [] ↔ ∀ key ∈ keys, Has others key := by
  rw [missing, List.filter_eq_nil_iff]
  simp only [Bool.not_eq_true', Bool.not_eq_false, any_eq_true_iff_has]

theorem shared_eq_nil_iff : shared keys others = [] ↔ ∀ key ∈ keys, ¬Has others key := by
  rw [shared, List.filter_eq_nil_iff]
  simp only [any_eq_true_iff_has]

theorem distinct_shared (h : Distinct id keys) (others : List K) :
    Distinct id (shared keys others) :=
  List.Pairwise.filter _ h

theorem distinct_missing (h : Distinct id keys) (others : List K) :
    Distinct id (missing keys others) :=
  List.Pairwise.filter _ h

/-- A filter that cannot tell equal keys apart keeps or drops a class of equal keys as a whole. -/
theorem has_filter {keep : K → Bool} (hkeep : ∀ a b, a == b → keep a = keep b) :
    Has (keys.filter keep) key ↔ Has keys key ∧ keep key = true := by
  constructor
  · rintro ⟨stored, hmem, hkey⟩
    obtain ⟨hstored, hkept⟩ := List.mem_filter.1 hmem
    exact ⟨⟨stored, hstored, hkey⟩, (hkeep key stored hkey).trans hkept⟩
  · rintro ⟨⟨stored, hmem, hkey⟩, hkept⟩
    exact ⟨stored, List.mem_filter.2 ⟨hmem, (hkeep key stored hkey).symm.trans hkept⟩, hkey⟩

variable [EquivBEq K]

theorem has_of_mem (h : key ∈ keys) : Has keys key := ⟨key, h, BEq.refl key⟩

theorem eq_nil_iff_not_has : keys = [] ↔ ∀ key, ¬Has keys key := by
  constructor
  · rintro rfl key ⟨stored, hmem, -⟩
    cases hmem
  · intro h
    apply List.eq_nil_iff_forall_not_mem.2
    intro key hmem
    exact h key (has_of_mem hmem)

theorem any_congr {key' : K} (hkey : key == key') :
    others.any (key == ·) = others.any (key' == ·) := by
  simp only [BEq.congr_left hkey]

theorem has_shared : Has (shared keys others) key ↔ Has keys key ∧ Has others key := by
  rw [shared, has_filter fun a b hab => any_congr hab, any_eq_true_iff_has]

theorem has_missing : Has (missing keys others) key ↔ Has keys key ∧ ¬Has others key := by
  rw [missing, has_filter fun a b hab => congrArg (!·) (any_congr hab), Bool.not_eq_true',
    ← Bool.not_eq_true, any_eq_true_iff_has]

/-- Lists of different keys that have no key in common. -/
theorem distinct_append (h : Distinct id keys) (h' : Distinct id others)
    (hdisjoint : ∀ key ∈ others, ¬Has keys key) : Distinct id (keys ++ others) := by
  refine List.pairwise_append.2 ⟨h, h', ?_⟩
  intro a ha b hb
  apply Bool.eq_false_iff.2
  intro hab
  exact hdisjoint b hb ⟨a, ha, BEq.symm hab⟩

end Dictionary

/-! ## What a combination lists -/

/-- The listing yields these keys in this order, and they represent each class of equal keys for
which `P` holds once, and no other. -/
structure Listing.Lists (l : Listing K) (keys : List K) (P : K → Prop) : Prop where
  yields : l.Yields keys
  distinct : Distinct id keys
  has_iff : ∀ key, Has keys key ↔ P key

namespace KeySet

variable {hash hash' : K → UInt64} {a b : KeySet K}

theorem WellFormed.exact_everyKey (h : a.WellFormed hash) : a.everyKey.Exact := by
  have hkeys : a.traversal.rest = a.items := h.toList_eq
  exact h.count_eq.trans (congrArg List.length hkeys).symm

theorem WellFormed.exact_selection (h : a.WellFormed hash) (b : KeySet K) (wanted : Bool) :
    (a.selection b wanted).Exact :=
  h.exact_everyKey

theorem WellFormed.keys_everyKey (h : a.WellFormed hash) : a.everyKey.keys = a.items := by
  have hall : a.everyKey.keys = a.toList := List.filter_eq_self.2 fun _ _ => rfl
  rw [hall, h.toList_eq]

variable [EquivBEq K]

theorem WellFormed.contains_eq_any (h : b.WellFormed hash) (hhash : RespectsEquality hash)
    (key : K) : b.contains key = b.items.any (key == ·) := by
  rw [Bool.eq_iff_iff, h.contains_iff hhash, any_eq_true_iff_has, Has]

theorem WellFormed.keys_selection (h : a.WellFormed hash) (h' : b.WellFormed hash')
    (hhash' : RespectsEquality hash') (wanted : Bool) :
    (a.selection b wanted).keys =
      if wanted then shared a.items b.items else missing a.items b.items := by
  have hkeys : (a.selection b wanted).keys =
      a.toList.filter fun key => b.contains key == wanted := rfl
  rw [hkeys, h.toList_eq]
  simp only [h'.contains_eq_any hhash']
  cases wanted with
  | true =>
    simp only [beq_true, if_true]
    rfl
  | false =>
    simp only [beq_false, Bool.false_eq_true, if_false]
    rfl

/-- The keys of the smaller set that the other has, of the first one if both have equally many. -/
def common (a b : KeySet K) : List K :=
  if a.items.length ≤ b.items.length then shared a.items b.items else shared b.items a.items

theorem WellFormed.rest_union (h : a.WellFormed hash) (hhash : RespectsEquality hash)
    (h' : b.WellFormed hash') :
    (a.union b).rest = a.items ++ missing b.items a.items := by
  rw [Listing.rest_eq, union, List.flatMap_cons, List.flatMap_singleton, h.keys_everyKey,
    h'.keys_selection h hhash, if_neg Bool.false_ne_true]

theorem WellFormed.rest_difference (h : a.WellFormed hash) (h' : b.WellFormed hash')
    (hhash' : RespectsEquality hash') : (a.difference b).rest = missing a.items b.items := by
  rw [Listing.rest_eq, difference, List.flatMap_singleton, h.keys_selection h' hhash',
    if_neg Bool.false_ne_true]

theorem WellFormed.rest_symmetricDifference (h : a.WellFormed hash) (hhash : RespectsEquality hash)
    (h' : b.WellFormed hash') (hhash' : RespectsEquality hash') :
    (a.symmetricDifference b).rest = missing a.items b.items ++ missing b.items a.items := by
  rw [Listing.rest_eq, symmetricDifference, List.flatMap_cons, List.flatMap_singleton,
    h.keys_selection h' hhash', h'.keys_selection h hhash, if_neg Bool.false_ne_true,
    if_neg Bool.false_ne_true]

theorem WellFormed.rest_intersection (h : a.WellFormed hash) (hhash : RespectsEquality hash)
    (h' : b.WellFormed hash') (hhash' : RespectsEquality hash') :
    (a.intersection b).rest = common a b := by
  rw [Listing.rest_eq, intersection, List.flatMap_singleton, common, h.count_eq, h'.count_eq]
  split
  · rw [h.keys_selection h' hhash', if_pos rfl]
  · rw [h'.keys_selection h hhash, if_pos rfl]

theorem has_common {key : K} : Has (common a b) key ↔ Has a.items key ∧ Has b.items key := by
  unfold common
  split
  · exact has_shared
  · exact has_shared.trans and_comm

omit [EquivBEq K] in
theorem distinct_common (h : Distinct id a.items) (h' : Distinct id b.items) :
    Distinct id (common a b) := by
  unfold common
  split
  · exact distinct_shared h _
  · exact distinct_shared h' _

/-! ## The combinations -/

/-- The combinations of two sets list their keys in slot order, without omission and
repetition. -/
structure Combines (a b : KeySet K) : Prop where
  union : (a.union b).Lists (a.items ++ missing b.items a.items)
    fun key => Has a.items key ∨ Has b.items key
  /-- The smaller set is walked, the first one if both have equally many keys. -/
  intersection : (a.intersection b).Lists (common a b)
    fun key => Has a.items key ∧ Has b.items key
  difference : (a.difference b).Lists (missing a.items b.items)
    fun key => Has a.items key ∧ ¬Has b.items key
  symmetricDifference : (a.symmetricDifference b).Lists
    (missing a.items b.items ++ missing b.items a.items)
    fun key => Has a.items key ∧ ¬Has b.items key ∨ Has b.items key ∧ ¬Has a.items key

theorem WellFormed.combines (h : a.WellFormed hash) (hhash : RespectsEquality hash)
    (h' : b.WellFormed hash') (hhash' : RespectsEquality hash') : a.Combines b := by
  have hd : Distinct id a.items := h.keyed.distinct
  have hd' : Distinct id b.items := h'.keyed.distinct
  have hselection := h.exact_selection b
  have hselection' := h'.exact_selection a
  refine ⟨?_, ?_, ?_, ?_⟩
  · have hexact : (a.union b).Exact :=
      List.forall_mem_cons.2 ⟨h.exact_everyKey, List.forall_mem_singleton.2 (hselection' false)⟩
    refine ⟨h.rest_union hhash h' ▸ hexact.yields, ?_, ?_⟩
    · refine distinct_append hd (distinct_missing hd' _) ?_
      intro key hkey
      exact (mem_missing.1 hkey).2
    · intro key
      rw [has_append, has_missing]
      tauto
  · have hexact : (a.intersection b).Exact := by
      refine List.forall_mem_singleton.2 ?_
      split
      · exact hselection true
      · exact hselection' true
    refine ⟨h.rest_intersection hhash h' hhash' ▸ hexact.yields, distinct_common hd hd', ?_⟩
    intro key
    exact has_common
  · have hexact : (a.difference b).Exact := List.forall_mem_singleton.2 (hselection false)
    refine ⟨h.rest_difference h' hhash' ▸ hexact.yields, distinct_missing hd _, ?_⟩
    intro key
    exact has_missing
  · have hexact : (a.symmetricDifference b).Exact :=
      List.forall_mem_cons.2 ⟨hselection false, List.forall_mem_singleton.2 (hselection' false)⟩
    refine ⟨h.rest_symmetricDifference hhash h' hhash' ▸ hexact.yields, ?_, ?_⟩
    · refine distinct_append (distinct_missing hd _) (distinct_missing hd' _) ?_
      intro key hkey hhas
      exact (mem_missing.1 hkey).2 (has_missing.1 hhas).1
    · intro key
      rw [has_append, has_missing, has_missing]

/-! ## The comparisons -/

/-- The comparisons of two sets say what they hold, and agree with the combinations. -/
structure Compares (a b : KeySet K) : Prop where
  isDisjoint_iff : a.isDisjoint b = true ↔ ∀ key, ¬(Has a.items key ∧ Has b.items key)
  isDisjoint_iff_intersection : a.isDisjoint b = true ↔ (a.intersection b).next.1 = none
  isSubset_iff : a.isSubset b = true ↔ ∀ key, Has a.items key → Has b.items key
  isSubset_iff_difference : a.isSubset b = true ↔ (a.difference b).next.1 = none
  isSuperset_iff : a.isSuperset b = true ↔ ∀ key, Has b.items key → Has a.items key
  isSuperset_iff_isSubset : a.isSuperset b = true ↔ b.isSubset a = true

theorem WellFormed.isSubset_iff (h : a.WellFormed hash) (h' : b.WellFormed hash')
    (hhash' : RespectsEquality hash') :
    a.isSubset b = true ↔ missing a.items b.items = [] := by
  have hd : Distinct id a.items := h.keyed.distinct
  rw [isSubset, h.count_eq, h'.count_eq, missing_eq_nil_iff]
  split
  · next hfewer =>
    refine iff_of_false Bool.false_ne_true ?_
    intro hall
    exact Nat.not_le_of_lt hfewer (hd.length_le hall)
  · rw [List.all_eq_true, h.toList_eq]
    simp only [h'.contains_eq_any hhash', any_eq_true_iff_has]

theorem all_not_contains_iff (h : a.WellFormed hash) (h' : b.WellFormed hash')
    (hhash' : RespectsEquality hash') :
    (a.toList.all fun key => !b.contains key) = true ↔ shared a.items b.items = [] := by
  rw [List.all_eq_true, h.toList_eq, shared_eq_nil_iff]
  simp only [h'.contains_eq_any hhash', Bool.not_eq_true', ← Bool.not_eq_true,
    any_eq_true_iff_has]

theorem WellFormed.isDisjoint_iff (h : a.WellFormed hash) (hhash : RespectsEquality hash)
    (h' : b.WellFormed hash') (hhash' : RespectsEquality hash') :
    a.isDisjoint b = true ↔ common a b = [] := by
  rw [isDisjoint, common, h.count_eq, h'.count_eq]
  split
  · exact all_not_contains_iff h h' hhash'
  · exact all_not_contains_iff h' h hhash

theorem WellFormed.isSubset_iff_has (h : a.WellFormed hash) (h' : b.WellFormed hash')
    (hhash' : RespectsEquality hash') :
    a.isSubset b = true ↔ ∀ key, Has a.items key → Has b.items key := by
  rw [h.isSubset_iff h' hhash', eq_nil_iff_not_has]
  simp only [has_missing, not_and, not_not]

theorem WellFormed.compares (h : a.WellFormed hash) (hhash : RespectsEquality hash)
    (h' : b.WellFormed hash') (hhash' : RespectsEquality hash') : a.Compares b where
  isDisjoint_iff := by
    rw [h.isDisjoint_iff hhash h' hhash', eq_nil_iff_not_has]
    simp only [has_common]
  isDisjoint_iff_intersection := by
    rw [h.isDisjoint_iff hhash h' hhash', Listing.next_eq_none_iff,
      h.rest_intersection hhash h' hhash']
  isSubset_iff := h.isSubset_iff_has h' hhash'
  isSubset_iff_difference := by
    rw [h.isSubset_iff h' hhash', Listing.next_eq_none_iff, h.rest_difference h' hhash']
  isSuperset_iff := h'.isSubset_iff_has h hhash
  isSuperset_iff_isSubset := Iff.rfl

/-- Combinations and comparisons of two sets are those of the keys they hold, whatever their hash
functions, capacities and histories. -/
theorem Reached.algebra_exact (ha : a.Reached) (hb : b.Reached) : a.Combines b ∧ a.Compares b :=
  ⟨ha.wellFormed.combines ha.respects hb.wellFormed hb.respects,
    ha.wellFormed.compares ha.respects hb.wellFormed hb.respects⟩

end KeySet

namespace LastDigit

/-- Two keys in a set that can grow. -/
def grownSet : KeySet LastDigit :=
  final KeySet.Op.perform (.growing hash) [.insert ⟨3⟩, .insert ⟨14⟩, .insert ⟨23⟩]

theorem reached_grownSet : grownSet.Reached where
  respects := respectsEquality_hash
  run := ⟨.growing hash, _, ⟨rfl, .ofPolicy .standard⟩, rfl⟩

/-- Two keys in a set of two slots in which all hashes are equal. -/
def crowdedSet : KeySet LastDigit :=
  final KeySet.Op.perform (.bounded (fun _ => 0) 2) [.insert ⟨25⟩, .insert ⟨13⟩]

theorem reached_crowdedSet : crowdedSet.Reached where
  respects _ _ _ := rfl
  run := ⟨.bounded (fun _ => 0) 2, _, ⟨rfl, .ofBound 2⟩, rfl⟩

end LastDigit

/-- Of the two equal keys, that of the first set is listed. -/
theorem algebra_exact_lastDigit :
    (LastDigit.crowdedSet.union LastDigit.grownSet).Yields [⟨13⟩, ⟨25⟩, ⟨14⟩] ∧
      ¬∀ key, ¬(Has LastDigit.crowdedSet.items key ∧ Has LastDigit.grownSet.items key) := by
  obtain ⟨hcombines, hcompares⟩ :=
    KeySet.Reached.algebra_exact LastDigit.reached_crowdedSet LastDigit.reached_grownSet
  have hkeys : LastDigit.crowdedSet.items ++
      missing LastDigit.grownSet.items LastDigit.crowdedSet.items = [⟨13⟩, ⟨25⟩, ⟨14⟩] := rfl
  refine ⟨hkeys ▸ hcombines.union.yields, ?_⟩
  rw [← hcompares.isDisjoint_iff]
  decide +kernel

end LinearProbing

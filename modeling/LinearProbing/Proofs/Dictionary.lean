-- SUMMARY: Dictionaries as lists of items with different keys: looking up, storing, erasing, sifting.
import Mathlib.Data.List.Perm.Basic

/-! # Dictionaries

What a map or a set holds, without slots and hashes: a list of items whose keys are different. The
order of the items has no meaning, so everything here that is not a visit of the items gives the
same for a list and for any other order of it.
-/

namespace LinearProbing.Dictionary

universe u v w

variable {K : Type u} {α : Type v} [BEq K] (keyOf : α → K)

/-- No two items have equal keys. -/
def Distinct (items : List α) : Prop := items.Pairwise fun a b => (keyOf a == keyOf b) = false

/-- The item with this key. -/
def lookup (key : K) (items : List α) : Option α := items.find? fun a => key == keyOf a

/-- The items with other keys. -/
def erase (key : K) (items : List α) : List α := items.filter fun a => !(key == keyOf a)

/-- Stores an item, instead of the one with its key. -/
def put (item : α) (items : List α) : List α := item :: erase keyOf (keyOf item) items

variable {keyOf} {items items' rest : List α} {a b : α} {key : K}

/-! ## Distinct keys -/

section Distinct

variable [EquivBEq K]

theorem Distinct.perm (h : Distinct keyOf items) (hperm : items.Perm items') :
    Distinct keyOf items' :=
  hperm.pairwise h fun hab => by rwa [BEq.comm]

/-- An item and the others, none of which has its key. -/
theorem Distinct.ne_of_perm_cons (h : Distinct keyOf items) (hperm : items.Perm (a :: rest))
    (hkey : key == keyOf a) (hb : b ∈ rest) : (key == keyOf b) = false := by
  rw [BEq.congr_left hkey]
  exact (List.pairwise_cons.1 (h.perm hperm)).1 b hb

theorem Distinct.eq_of_beq (h : Distinct keyOf items) (ha : a ∈ items) (hb : b ∈ items)
    (hkey : key == keyOf a) (hkey' : key == keyOf b) : a = b := by
  obtain ⟨before, after, rfl⟩ := List.append_of_mem ha
  rcases List.mem_cons.1 (List.perm_middle.mem_iff.1 hb) with hab | hrest
  · exact hab.symm
  · have hne := h.ne_of_perm_cons List.perm_middle hkey hrest
    rw [hkey'] at hne
    cases hne

omit [EquivBEq K] in
/-- Items whose keys are among different keys, in the same order, have different keys. -/
theorem Distinct.of_sublist (h : Distinct keyOf items)
    (hkeys : (items'.map keyOf).Sublist (items.map keyOf)) : Distinct keyOf items' := by
  have hall : (items.map keyOf).Pairwise fun a b => (a == b) = false := List.pairwise_map.2 h
  exact List.pairwise_map.1 (hall.sublist hkeys)

/-- Another item with an equal key can take the place of an item. -/
theorem Distinct.replace (h : Distinct keyOf (a :: rest)) (hkey : keyOf b == keyOf a) :
    Distinct keyOf (b :: rest) := by
  obtain ⟨hne, hrest⟩ := List.pairwise_cons.1 h
  refine List.pairwise_cons.2 ⟨?_, hrest⟩
  intro c hc
  rw [BEq.congr_left hkey]
  exact hne c hc

end Distinct

/-! ## Looking up -/

theorem lookup_eq_none_iff :
    lookup keyOf key items = none ↔ ∀ a ∈ items, (key == keyOf a) = false := by
  simp [lookup]

theorem mem_of_lookup_eq_some (h : lookup keyOf key items = some a) : a ∈ items :=
  List.mem_of_find?_eq_some h

theorem beq_of_lookup_eq_some (h : lookup keyOf key items = some a) : key == keyOf a :=
  List.find?_some (p := fun a => key == keyOf a) h

theorem Distinct.lookup_eq_some [EquivBEq K] (h : Distinct keyOf items) (ha : a ∈ items)
    (hkey : key == keyOf a) : lookup keyOf key items = some a := by
  cases hlookup : lookup keyOf key items with
  | none =>
    have hne := lookup_eq_none_iff.1 hlookup a ha
    rw [hkey] at hne
    cases hne
  | some b =>
    rw [h.eq_of_beq (mem_of_lookup_eq_some hlookup) ha (beq_of_lookup_eq_some hlookup) hkey]

theorem Distinct.lookup_perm [EquivBEq K] (h : Distinct keyOf items) (hperm : items.Perm items')
    (key : K) : lookup keyOf key items = lookup keyOf key items' := by
  symm
  cases hlookup : lookup keyOf key items with
  | none =>
    rw [lookup_eq_none_iff] at hlookup ⊢
    intro a ha
    exact hlookup a (hperm.mem_iff.2 ha)
  | some a =>
    exact (h.perm hperm).lookup_eq_some (hperm.mem_iff.1 (mem_of_lookup_eq_some hlookup))
      (beq_of_lookup_eq_some hlookup)

/-! ## Storing and erasing -/

theorem erase_perm (hperm : items.Perm items') :
    (erase keyOf key items).Perm (erase keyOf key items') :=
  hperm.filter _

theorem put_perm (hperm : items.Perm items') : (put keyOf a items).Perm (put keyOf a items') :=
  (erase_perm hperm).cons a

theorem distinct_erase (h : Distinct keyOf items) (key : K) :
    Distinct keyOf (erase keyOf key items) :=
  List.Pairwise.filter _ h

theorem distinct_put (h : Distinct keyOf items) (a : α) : Distinct keyOf (put keyOf a items) := by
  refine List.pairwise_cons.2 ⟨?_, distinct_erase h (keyOf a)⟩
  intro b hb
  simpa using (List.mem_filter.1 hb).2

theorem erase_of_lookup_eq_none (h : lookup keyOf key items = none) :
    erase keyOf key items = items := by
  apply List.filter_eq_self.2
  intro a ha
  rw [lookup_eq_none_iff.1 h a ha]
  rfl

theorem mem_put (h : b ∈ put keyOf a items) : b = a ∨ b ∈ items :=
  (List.mem_cons.1 h).imp_right fun hb => (List.mem_filter.1 hb).1

/-- Storing an item loses no key. -/
theorem exists_mem_put [EquivBEq K] (h : b ∈ items) (a : α) :
    ∃ c ∈ put keyOf a items, keyOf b == keyOf c := by
  cases hkey : keyOf a == keyOf b with
  | true => exact ⟨a, List.mem_cons_self, BEq.symm hkey⟩
  | false =>
    refine ⟨b, List.mem_cons_of_mem a (List.mem_filter.2 ⟨h, ?_⟩), BEq.refl _⟩
    rw [hkey]
    rfl

theorem put_of_lookup_eq_none (h : lookup keyOf (keyOf a) items = none) :
    put keyOf a items = a :: items := by
  rw [put, erase_of_lookup_eq_none h]

/-- Of two items with equal keys the one that is stored last stays. -/
theorem put_put [EquivBEq K] (hkey : keyOf b == keyOf a) :
    put keyOf b (put keyOf a items) = put keyOf b items := by
  have hsame (c : α) : (keyOf b == keyOf c) = (keyOf a == keyOf c) := BEq.congr_left hkey
  simp only [put, erase, List.filter_cons, hsame, BEq.refl, List.filter_filter, Bool.and_self,
    Bool.not_true, Bool.false_eq_true, if_false]

theorem Distinct.erase_of_perm_cons [EquivBEq K] (h : Distinct keyOf items)
    (hperm : items.Perm (a :: rest)) (hkey : key == keyOf a) :
    (erase keyOf key items).Perm rest := by
  have hrest : lookup keyOf key rest = none := by
    rw [lookup_eq_none_iff]
    intro b hb
    exact h.ne_of_perm_cons hperm hkey hb
  calc (erase keyOf key items).Perm (erase keyOf key (a :: rest)) := erase_perm hperm
    List.Perm _ rest := by
      rw [erase, List.filter_cons_of_neg (by simp [hkey])]
      exact List.Perm.of_eq (erase_of_lookup_eq_none hrest)

theorem Distinct.put_of_perm_cons [EquivBEq K] (h : Distinct keyOf items)
    (hperm : items.Perm (a :: rest)) (hkey : keyOf b == keyOf a) :
    (put keyOf b items).Perm (b :: rest) :=
  (h.erase_of_perm_cons hperm hkey).cons b

omit [BEq K] in
theorem exists_perm_cons (ha : a ∈ items) : ∃ rest, items.Perm (a :: rest) := by
  obtain ⟨before, after, rfl⟩ := List.append_of_mem ha
  exact ⟨before ++ after, List.perm_middle⟩

/-- Storing an item instead of one with its key leaves as many items. -/
theorem Distinct.length_put [EquivBEq K] (h : Distinct keyOf items) (ha : a ∈ items)
    (hkey : keyOf b == keyOf a) : (put keyOf b items).length = items.length := by
  obtain ⟨rest, hperm⟩ := exists_perm_cons ha
  rw [(h.put_of_perm_cons hperm hkey).length_eq, hperm.length_eq, List.length_cons,
    List.length_cons]

/-! ## Comparing contents -/

section Comparing

/-- Items with different keys are at most as many as a list that has an equal key for each. -/
theorem Distinct.length_le [EquivBEq K] {β : Type w} {keyOf' : β → K} {others : List β}
    (h : Distinct keyOf items) (hkeys : ∀ a ∈ items, ∃ b ∈ others, keyOf a == keyOf' b) :
    items.length ≤ others.length := by
  induction items generalizing others with
  | nil => exact Nat.zero_le _
  | cons a items ih =>
    obtain ⟨hne, hdistinct⟩ := List.pairwise_cons.1 h
    obtain ⟨b, hb, hab⟩ := hkeys a List.mem_cons_self
    obtain ⟨rest, hperm⟩ := exists_perm_cons hb
    -- The partner of another item is not `b`: both would have the key of `a`.
    have hrest : ∀ c ∈ items, ∃ d ∈ rest, keyOf c == keyOf' d := by
      intro c hc
      obtain ⟨d, hd, hcd⟩ := hkeys c (List.mem_cons_of_mem a hc)
      rcases List.mem_cons.1 (hperm.mem_iff.1 hd) with rfl | hd
      · have hac : keyOf a == keyOf c := BEq.trans hab (BEq.symm hcd)
        rw [hne c hc] at hac
        cases hac
      · exact ⟨d, hd, hcd⟩
    rw [hperm.length_eq]
    exact Nat.succ_le_succ (ih hdistinct hrest)

/-- The same keys, up to equality, with related items. -/
structure SameItems (keyOf : α → K) (related : α → α → Prop) (items items' : List α) : Prop where
  left : ∀ a ∈ items, ∃ b ∈ items', keyOf a == keyOf b ∧ related a b
  right : ∀ b ∈ items', ∃ a ∈ items, keyOf b == keyOf a ∧ related a b

variable {related : α → α → Prop} {items'' : List α}

theorem SameItems.refl [ReflBEq K] (hrelated : ∀ a, related a a) (items : List α) :
    SameItems keyOf related items items where
  left a ha := ⟨a, ha, BEq.refl _, hrelated a⟩
  right a ha := ⟨a, ha, BEq.refl _, hrelated a⟩

theorem SameItems.symm (hrelated : ∀ a b, related a b → related b a)
    (h : SameItems keyOf related items items') : SameItems keyOf related items' items where
  left b hb := by
    obtain ⟨a, ha, hkey, hab⟩ := h.right b hb
    exact ⟨a, ha, hkey, hrelated a b hab⟩
  right a ha := by
    obtain ⟨b, hb, hkey, hab⟩ := h.left a ha
    exact ⟨b, hb, hkey, hrelated a b hab⟩

theorem SameItems.trans [EquivBEq K]
    (hrelated : ∀ a b c, related a b → related b c → related a c)
    (h : SameItems keyOf related items items') (h' : SameItems keyOf related items' items'') :
    SameItems keyOf related items items'' where
  left a ha := by
    obtain ⟨b, hb, hkey, hab⟩ := h.left a ha
    obtain ⟨c, hc, hkey', hbc⟩ := h'.left b hb
    exact ⟨c, hc, BEq.trans hkey hkey', hrelated a b c hab hbc⟩
  right c hc := by
    obtain ⟨b, hb, hkey', hbc⟩ := h'.right c hc
    obtain ⟨a, ha, hkey, hab⟩ := h.right b hb
    exact ⟨a, ha, BEq.trans hkey' hkey, hrelated a b c hab hbc⟩

variable [EquivBEq K]

theorem SameItems.length_eq (h : SameItems keyOf related items items')
    (hd : Distinct keyOf items) (hd' : Distinct keyOf items') : items.length = items'.length := by
  have hleft : ∀ a ∈ items, ∃ b ∈ items', keyOf a == keyOf b := by
    intro a ha
    obtain ⟨b, hb, hkey, -⟩ := h.left a ha
    exact ⟨b, hb, hkey⟩
  have hright : ∀ b ∈ items', ∃ a ∈ items, keyOf b == keyOf a := by
    intro b hb
    obtain ⟨a, ha, hkey, -⟩ := h.right b hb
    exact ⟨a, ha, hkey⟩
  exact Nat.le_antisymm (hd.length_le hleft) (hd'.length_le hright)

/-- Between equally many items with different keys, it is enough to find a partner for each item of
one side. -/
theorem sameItems_iff (hd : Distinct keyOf items) (hd' : Distinct keyOf items') :
    SameItems keyOf related items items' ↔
      items.length = items'.length ∧
        ∀ a ∈ items, ∃ b ∈ items', keyOf a == keyOf b ∧ related a b := by
  constructor
  · intro h
    exact ⟨h.length_eq hd hd', h.left⟩
  · rintro ⟨hlength, hleft⟩
    refine ⟨hleft, ?_⟩
    intro b hb
    obtain ⟨rest, hperm⟩ := exists_perm_cons hb
    by_contra hnone
    -- Without `b`, there are too few items left for all partners.
    have hothers : ∀ a ∈ items, ∃ c ∈ rest, keyOf a == keyOf c := by
      intro a ha
      obtain ⟨c, hc, hkey, hac⟩ := hleft a ha
      rcases List.mem_cons.1 (hperm.mem_iff.1 hc) with rfl | hc
      · exact absurd ⟨a, ha, BEq.symm hkey, hac⟩ hnone
      · exact ⟨c, hc, hkey⟩
    have hle := hd.length_le hothers
    rw [hlength, hperm.length_eq, List.length_cons] at hle
    exact Nat.not_succ_le_self _ hle

end Comparing

/-! ## Sifting -/

/-- Visits the items in order with a running state and keeps the new items that the visit yields. -/
def sift {σ : Type w} (visit : σ → α → σ × Option α) : (state : σ) → List α → List α
  | _, [] => []
  | state, a :: rest => (visit state a).2.toList ++ sift visit (visit state a).1 rest

/-- A visit whose answer does not depend on its state treats every item on its own. -/
theorem sift_eq_filterMap {σ : Type w} {visit : σ → α → σ × Option α} {keep : α → Option α}
    (h : ∀ state a, (visit state a).2 = keep a) (state : σ) (items : List α) :
    sift visit state items = items.filterMap keep := by
  induction items generalizing state with
  | nil => rfl
  | cons a rest ih =>
    rw [sift, h, ih]
    cases hkeep : keep a <;> simp [hkeep]

end LinearProbing.Dictionary

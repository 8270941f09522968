-- SUMMARY: Dictionaries of limited capacity: which items they refuse, alone and one after the other.
import LinearProbing.Proofs.Dictionary

/-! # Dictionaries of limited capacity

A dictionary that holds a limited number of items has no room for a new key once there are so many.
Items that are stored one after the other are refused from the first such key on; that happens
exactly if there are more different keys among them than the dictionary can hold.
-/

namespace LinearProbing.Dictionary

universe u v w

variable {K : Type u} {α : Type v} {γ : Type w} [BEq K] {keyOf : α → K}
  {items items' more : List α} {key : K} {capacity : Nat}

/-! ## One item -/

/-- The key is new, and there are as many items as there may be. -/
def NoRoom (keyOf : α → K) (capacity : Nat) (key : K) (items : List α) : Prop :=
  lookup keyOf key items = none ∧ capacity ≤ items.length

instance (capacity : Nat) (key : K) (items : List α) :
    Decidable (NoRoom keyOf capacity key items) :=
  inferInstanceAs (Decidable (_ ∧ _))

theorem Distinct.noRoom_perm [EquivBEq K] (h : Distinct keyOf items) (hperm : items.Perm items')
    (capacity : Nat) (key : K) :
    NoRoom keyOf capacity key items ↔ NoRoom keyOf capacity key items' := by
  unfold NoRoom
  rw [h.lookup_perm hperm key, hperm.length_eq]

/-- There is room for a key that is there already, and for every key as long as there are fewer
items than there may be. -/
theorem not_noRoom_iff {present : Bool} {count : Nat}
    (h : NoRoom keyOf capacity key items ↔ present = false ∧ capacity ≤ count) :
    ¬NoRoom keyOf capacity key items ↔ present = true ∨ count < capacity := by
  rw [h, not_and_or, Bool.not_eq_false, Nat.not_le]

/-- What becomes of the items, unless there is no room for the key. -/
def unlessFull (keyOf : α → K) (capacity : Nat) (key : K) (items : List α) (refusal : γ)
    (result : γ × List α) : γ × List α :=
  if NoRoom keyOf capacity key items then (refusal, items) else result

theorem unlessFull_perm [EquivBEq K] (hd : Distinct keyOf items) (hperm : items.Perm items')
    (refusal : γ) {result result' : γ × List α}
    (hresult : result.1 = result'.1 ∧ result.2.Perm result'.2) :
    (unlessFull keyOf capacity key items refusal result).1 =
        (unlessFull keyOf capacity key items' refusal result').1 ∧
      (unlessFull keyOf capacity key items refusal result).2.Perm
        (unlessFull keyOf capacity key items' refusal result').2 := by
  unfold unlessFull
  by_cases hroom : NoRoom keyOf capacity key items
  · rw [if_pos hroom, if_pos ((hd.noRoom_perm hperm capacity key).1 hroom)]
    exact ⟨rfl, hperm⟩
  · rw [if_neg hroom, if_neg (mt (hd.noRoom_perm hperm capacity key).2 hroom)]
    exact hresult

/-! ## Items one after the other -/

/-- A way to store an item for its key, unless there is one. -/
structure Inserts (keyOf : α → K) (insert : List α → α → List α) : Prop where
  distinct : ∀ {items} a, Distinct keyOf items → Distinct keyOf (insert items a)
  perm : ∀ {items items'} a, Distinct keyOf items → items.Perm items' →
    (insert items a).Perm (insert items' a)
  old : ∀ items a, ∀ b ∈ insert items a, ∃ c ∈ a :: items, keyOf b = keyOf c
  kept : ∀ items a, ∀ b ∈ a :: items, ∃ c ∈ insert items a, keyOf b == keyOf c

/-- Stores items one after the other, up to the first whose key has no room. -/
def insertWithin (keyOf : α → K) (insert : List α → α → List α) (capacity : Nat)
    (done refusal : γ) : List α → List α → γ × List α
  | items, [] => (done, items)
  | items, a :: more =>
    unlessFull keyOf capacity (keyOf a) items refusal
      (insertWithin keyOf insert capacity done refusal (insert items a) more)

/-- There are more different keys than this. -/
def MoreKeys (capacity : Nat) (keys : List K) : Prop :=
  ∃ different, Distinct id different ∧ different ⊆ keys ∧ capacity < different.length

theorem MoreKeys.mono {keys keys' : List K} (h : MoreKeys capacity keys) (hsub : keys ⊆ keys') :
    MoreKeys capacity keys' := by
  obtain ⟨different, hdistinct, hkeys, hlength⟩ := h
  exact ⟨different, hdistinct, List.Subset.trans hkeys hsub, hlength⟩

variable {insert : List α → α → List α} {done refusal : γ} [EquivBEq K]

theorem Inserts.insertWithin_perm (h : Inserts keyOf insert) (hd : Distinct keyOf items)
    (hperm : items.Perm items') (more : List α) :
    (insertWithin keyOf insert capacity done refusal items more).1 =
        (insertWithin keyOf insert capacity done refusal items' more).1 ∧
      (insertWithin keyOf insert capacity done refusal items more).2.Perm
        (insertWithin keyOf insert capacity done refusal items' more).2 := by
  induction more generalizing items items' with
  | nil => exact ⟨rfl, hperm⟩
  | cons a more ih =>
    exact unlessFull_perm hd hperm refusal (ih (h.distinct a hd) (h.perm a hd hperm))

/-- Storing an item that there is room for leaves no more items than there may be. -/
theorem Inserts.length_le (h : Inserts keyOf insert) (hd : Distinct keyOf items)
    (hlength : items.length ≤ capacity) {a : α}
    (hroom : ¬NoRoom keyOf capacity (keyOf a) items) : (insert items a).length ≤ capacity := by
  have hold (others : List α) (ha : ∃ c ∈ others, keyOf a == keyOf c) (hsub : items ⊆ others) :
      (insert items a).length ≤ others.length := by
    have hkeys : ∀ b ∈ insert items a, ∃ c ∈ others, keyOf b == keyOf c := by
      intro b hb
      obtain ⟨c, hc, hkey⟩ := h.old items a b hb
      rw [hkey]
      rcases List.mem_cons.1 hc with rfl | hc
      · exact ha
      · exact ⟨c, hsub hc, BEq.refl _⟩
    exact (h.distinct a hd).length_le hkeys
  cases hlookup : lookup keyOf (keyOf a) items with
  | none =>
    have hfew : items.length < capacity := Nat.lt_of_not_le fun hfull => hroom ⟨hlookup, hfull⟩
    have hmore := hold (a :: items) ⟨a, List.mem_cons_self, BEq.refl _⟩
      (List.subset_cons_self a items)
    exact Nat.le_trans hmore hfew
  | some b =>
    have ha : ∃ c ∈ items, keyOf a == keyOf c :=
      ⟨b, mem_of_lookup_eq_some hlookup, beq_of_lookup_eq_some hlookup⟩
    exact Nat.le_trans (hold items ha (List.Subset.refl _)) hlength

omit [EquivBEq K] in
/-- A refused key and those of the items that are there are more different keys than there may be. -/
theorem moreKeys_of_noRoom (hd : Distinct keyOf items) (hroom : NoRoom keyOf capacity key items) :
    MoreKeys capacity (key :: items.map keyOf) := by
  obtain ⟨hnew, hfull⟩ := hroom
  refine ⟨key :: items.map keyOf, List.pairwise_cons.2 ⟨?_, ?_⟩, List.Subset.refl _, ?_⟩
  · intro key' hkey'
    obtain ⟨a, ha, rfl⟩ := List.mem_map.1 hkey'
    exact lookup_eq_none_iff.1 hnew a ha
  · exact List.pairwise_map.2 hd
  · rw [List.length_cons, List.length_map]
    exact Nat.lt_succ_of_le hfull

/-- Either all items are stored and their keys are few enough, or one is refused and there are too
many. -/
theorem Inserts.insertWithin_cases (h : Inserts keyOf insert) (hd : Distinct keyOf items)
    (hlength : items.length ≤ capacity) (done refusal : γ) (more : List α) :
    ((insertWithin keyOf insert capacity done refusal items more).1 = done ∧
        ∃ stored : List α, stored.length ≤ capacity ∧
          ∀ b ∈ items ++ more, ∃ c ∈ stored, keyOf b == keyOf c) ∨
      ((insertWithin keyOf insert capacity done refusal items more).1 = refusal ∧
        MoreKeys capacity ((items ++ more).map keyOf)) := by
  induction more generalizing items with
  | nil =>
    refine .inl ⟨rfl, items, hlength, fun b hb => ⟨b, ?_, BEq.refl _⟩⟩
    rwa [List.append_nil] at hb
  | cons a more ih =>
    rw [insertWithin, unlessFull]
    by_cases hroom : NoRoom keyOf capacity (keyOf a) items
    · rw [if_pos hroom]
      refine .inr ⟨rfl, (moreKeys_of_noRoom hd hroom).mono ?_⟩
      intro key hkey
      simp only [List.mem_cons, List.map_append, List.map_cons, List.mem_append] at hkey ⊢
      tauto
    · rw [if_neg hroom]
      rcases ih (h.distinct a hd) (h.length_le hd hlength hroom) with
        ⟨hdone, stored, hstored, hkeys⟩ | ⟨hrefusal, hmany⟩
      · refine .inl ⟨hdone, stored, hstored, fun b hb => ?_⟩
        have hsource : b ∈ a :: items ∨ b ∈ more := by
          simp only [List.mem_append, List.mem_cons] at hb ⊢
          tauto
        rcases hsource with hb | hb
        · obtain ⟨c, hc, hkey⟩ := h.kept items a b hb
          obtain ⟨d, hd', hkey'⟩ := hkeys c (List.mem_append_left _ hc)
          exact ⟨d, hd', BEq.trans hkey hkey'⟩
        · exact hkeys b (List.mem_append_right _ hb)
      · refine .inr ⟨hrefusal, hmany.mono ?_⟩
        intro key hkey
        obtain ⟨b, hb, rfl⟩ := List.mem_map.1 hkey
        rcases List.mem_append.1 hb with hb | hb
        · obtain ⟨c, hc, hsame⟩ := h.old items a b hb
          rw [hsame]
          refine List.mem_map_of_mem ?_
          simp only [List.mem_append, List.mem_cons] at hc ⊢
          tauto
        · exact List.mem_map_of_mem (List.mem_append_right _ (List.mem_cons_of_mem a hb))

/-- Items are refused exactly if there are more different keys than there may be items. -/
theorem Inserts.insertWithin_eq_refusal_iff (h : Inserts keyOf insert) (hne : done ≠ refusal)
    (hd : Distinct keyOf items) (hlength : items.length ≤ capacity) (more : List α) :
    (insertWithin keyOf insert capacity done refusal items more).1 = refusal ↔
      MoreKeys capacity ((items ++ more).map keyOf) := by
  rcases h.insertWithin_cases hd hlength done refusal more with
    ⟨hdone, stored, hstored, hkeys⟩ | ⟨hrefusal, hmany⟩
  · refine ⟨fun hrefusal => absurd (hdone.symm.trans hrefusal) hne, ?_⟩
    rintro ⟨different, hdistinct, hsub, hlarge⟩
    have hstored_keys : ∀ key ∈ different, ∃ c ∈ stored, id key == keyOf c := by
      intro key hkey
      obtain ⟨b, hb, rfl⟩ := List.mem_map.1 (hsub hkey)
      exact hkeys b hb
    have hle := hdistinct.length_le hstored_keys
    omega
  · exact ⟨fun _ => hmany, fun _ => hrefusal⟩

end LinearProbing.Dictionary

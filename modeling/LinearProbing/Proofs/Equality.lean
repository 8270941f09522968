-- SUMMARY: Maps and sets are equal exactly if their contents are.
import LinearProbing.KeyMap.Equality
import LinearProbing.KeySet.Algebra
import LinearProbing.Proofs.Containers

/-! # Equality of containers

Two containers are compared by the number of their keys and by looking up the keys of one in the
other. Both store each key once, so that the one direction gives the other: nothing is left over in
the second container when each key of the first has found a partner there. The hash functions, the
capacities and the histories of the two need not have anything in common.
-/

namespace LinearProbing

universe u v

open Dictionary

variable {K : Type u} {V : Type v} [BEq K]

namespace KeyMap

variable [BEq V] {hash hash' : K → UInt64} {a b : KeyMap K V}

/-- The same keys, up to equality, with equal values. -/
def SameContents (a b : KeyMap K V) : Prop :=
  SameItems Prod.fst (fun pair pair' : K × V => pair'.2 == pair.2) a.items b.items

variable [EquivBEq K]

theorem WellFormed.get?_beq_some (h : b.WellFormed hash) (hhash : RespectsEquality hash) (key : K)
    (value : V) :
    (b.get? key == some value) = true ↔ ∃ pair ∈ b.items, key == pair.1 ∧ pair.2 == value := by
  rw [h.get?_eq hhash]
  constructor
  · intro hget
    cases hstored : stored key b.items with
    | none =>
      rw [hstored] at hget
      cases hget
    | some pair =>
      rw [hstored] at hget
      exact ⟨pair, mem_of_lookup_eq_some hstored, beq_of_lookup_eq_some hstored, hget⟩
  · rintro ⟨pair, hpair, hkey, hvalue⟩
    have hstored : stored key b.items = some pair := h.keyed.distinct.lookup_eq_some hpair hkey
    rw [hstored]
    exact hvalue

theorem WellFormed.beq_iff (ha : a.WellFormed hash) (hb : b.WellFormed hash')
    (hhash' : RespectsEquality hash') : (a == b) = true ↔ a.SameContents b := by
  have hbeq : (a == b) = (a.count == b.count &&
      a.toList.all fun pair => b.get? pair.1 == some pair.2) := rfl
  have hda : Distinct Prod.fst a.items := ha.keyed.distinct
  have hdb : Distinct Prod.fst b.items := hb.keyed.distinct
  rw [hbeq, SameContents, sameItems_iff hda hdb, Bool.and_eq_true,
    beq_iff_eq, ha.count_eq, hb.count_eq, ha.toList_eq, List.all_eq_true]
  simp only [hb.get?_beq_some hhash']

end KeyMap

namespace KeySet

variable {hash hash' : K → UInt64} {a b : KeySet K}

/-- The same keys, up to equality. -/
def SameContents (a b : KeySet K) : Prop :=
  SameItems id (fun _ _ : K => True) a.items b.items

variable [EquivBEq K]

theorem WellFormed.contains_iff (h : b.WellFormed hash) (hhash : RespectsEquality hash) (key : K) :
    b.contains key = true ↔ ∃ key' ∈ b.items, key == key' := by
  rw [h.contains_eq hhash]
  constructor
  · intro hsome
    obtain ⟨key', hstored⟩ := Option.isSome_iff_exists.1 hsome
    exact ⟨key', mem_of_lookup_eq_some hstored, beq_of_lookup_eq_some hstored⟩
  · rintro ⟨key', hmem, hkey⟩
    have hstored : stored key b.items = some key' := h.keyed.distinct.lookup_eq_some hmem hkey
    rw [hstored]
    rfl

theorem WellFormed.beq_iff (ha : a.WellFormed hash) (hb : b.WellFormed hash')
    (hhash' : RespectsEquality hash') : (a == b) = true ↔ a.SameContents b := by
  have hbeq : (a == b) = (a.count == b.count && a.toList.all b.contains) := rfl
  have hda : Distinct id a.items := ha.keyed.distinct
  have hdb : Distinct id b.items := hb.keyed.distinct
  rw [hbeq, SameContents, sameItems_iff hda hdb, Bool.and_eq_true,
    beq_iff_eq, ha.count_eq, hb.count_eq, ha.toList_eq, List.all_eq_true]
  simp only [hb.contains_iff hhash', and_true]
  rfl

end KeySet

/-! ## The relation -/

variable [EquivBEq K]

/-- Two maps are equal exactly if they hold the same keys with equal values, and two sets exactly if
they hold the same keys. So equality is as reflexive, symmetric and transitive as it is on values. -/
theorem beq_iff_sameContents [BEq V] :
    ((∀ a b : KeyMap K V, a.Reached → b.Reached → ((a == b) = true ↔ a.SameContents b)) ∧
      ((∀ v : V, v == v) → ∀ a : KeyMap K V, a.Reached → a == a) ∧
      ((∀ v w : V, v == w → w == v) →
        ∀ a b : KeyMap K V, a.Reached → b.Reached → a == b → b == a) ∧
      ((∀ v w x : V, v == w → w == x → v == x) →
        ∀ a b c : KeyMap K V, a.Reached → b.Reached → c.Reached → a == b → b == c → a == c)) ∧
    ((∀ a b : KeySet K, a.Reached → b.Reached → ((a == b) = true ↔ a.SameContents b)) ∧
      (∀ a : KeySet K, a.Reached → a == a) ∧
      (∀ a b : KeySet K, a.Reached → b.Reached → a == b → b == a) ∧
      (∀ a b c : KeySet K, a.Reached → b.Reached → c.Reached → a == b → b == c → a == c)) := by
  have hmaps (a b : KeyMap K V) (ha : a.Reached) (hb : b.Reached) :
      (a == b) = true ↔ a.SameContents b := ha.wellFormed.beq_iff hb.wellFormed hb.respects
  have hsets (a b : KeySet K) (ha : a.Reached) (hb : b.Reached) :
      (a == b) = true ↔ a.SameContents b := ha.wellFormed.beq_iff hb.wellFormed hb.respects
  refine ⟨⟨hmaps, ?_, ?_, ?_⟩, hsets, ?_, ?_, ?_⟩
  · intro hrefl a ha
    exact (hmaps a a ha ha).2 (.refl (fun pair => hrefl pair.2) a.items)
  · intro hsymm a b ha hb hab
    exact (hmaps b a hb ha).2
      (((hmaps a b ha hb).1 hab).symm fun pair pair' => hsymm pair'.2 pair.2)
  · intro htrans a b c ha hb hc hab hbc
    exact (hmaps a c ha hc).2
      (((hmaps a b ha hb).1 hab).trans
        (fun pair pair' pair'' h h' => htrans pair''.2 pair'.2 pair.2 h' h)
        ((hmaps b c hb hc).1 hbc))
  · intro a ha
    exact (hsets a a ha ha).2 (.refl (fun _ => trivial) a.items)
  · intro a b ha hb hab
    exact (hsets b a hb ha).2 (((hsets a b ha hb).1 hab).symm fun _ _ _ => trivial)
  · intro a b c ha hb hc hab hbc
    exact (hsets a c ha hc).2
      (((hsets a b ha hb).1 hab).trans (fun _ _ _ _ _ => trivial) ((hsets b c hb hc).1 hbc))

namespace LastDigit

/-- One pair in a map that has grown. -/
def grownMap : KeyMap LastDigit Nat := final KeyMap.Op.perform emptyMap [.insert ⟨3⟩ 5]

theorem reached_grownMap : grownMap.Reached where
  respects := respectsEquality_hash
  run := ⟨emptyMap, _, starts_emptyMap, rfl⟩

/-- An equal pair in a bounded map that was full and in which all hashes are equal. -/
def crowdedMap : KeyMap LastDigit Nat :=
  final KeyMap.Op.perform (.bounded (fun _ => 0) 2) [.insert ⟨4⟩ 6, .insert ⟨13⟩ 5, .remove ⟨24⟩]

theorem reached_crowdedMap : crowdedMap.Reached where
  respects _ _ _ := rfl
  run := ⟨.bounded (fun _ => 0) 2, _, ⟨rfl, .ofBound 2⟩, rfl⟩

end LastDigit

theorem beq_iff_sameContents_lastDigit :
    LastDigit.grownMap.SameContents LastDigit.crowdedMap ∧
      LastDigit.crowdedMap == LastDigit.grownMap := by
  obtain ⟨⟨hmaps, -, hsymm, -⟩, -⟩ := beq_iff_sameContents (K := LastDigit) (V := Nat)
  have hequal : LastDigit.grownMap == LastDigit.crowdedMap := by decide +kernel
  refine ⟨?_, ?_⟩
  · exact (hmaps _ _ LastDigit.reached_grownMap LastDigit.reached_crowdedMap).1 hequal
  · exact hsymm (fun v w => BEq.symm) _ _ LastDigit.reached_grownMap LastDigit.reached_crowdedMap
      hequal

end LinearProbing

-- SUMMARY: What holds of every table, map and set after any operations, and which answers they give.
import LinearProbing.Proofs.KeyMap.Simulation
import LinearProbing.Proofs.KeySet.Simulation

/-! # Containers after any operations

The two main results about whole runs. Whatever the operations, a container counts its entries, no
entry is out of reach of a lookup, and a map or a set stores each key once and under its hash.
Unless an operation finds no room, the answers of a map or a set are those of a dictionary.
-/

namespace LinearProbing

universe u v w

/-! ## Invariants -/

namespace Table

variable {K : Type u} {α : Type v} [BEq K] {hash : K → UInt64} {keyOf : α → K} {t : Table α}

/-- The counter is right, and no slot from the home of an entry up to the entry is empty. -/
structure Sound (t : Table α) : Prop where
  count_eq : t.count = t.slots.occupied.card
  count_le : t.count ≤ t.capacity
  walk : ∀ i cell, t.slots.get i = some cell →
    ∀ steps ≤ Cyclic.distance (home cell.hash i.pos) i,
      (t.slots.get (Cyclic.next^[steps] (home cell.hash i.pos))).isSome

/-- Moreover each hash is that of the key, and the keys in two slots are not equal. -/
structure SoundFor (hash : K → UInt64) (keyOf : α → K) (t : Table α) : Prop extends Sound t where
  hash_eq : ∀ i cell, t.slots.get i = some cell → cell.hash = hash (keyOf cell.item)
  keys_ne : ∀ i j cell cell', j ≠ i → t.slots.get i = some cell → t.slots.get j = some cell' →
    (keyOf cell.item == keyOf cell'.item) = false

theorem WellFormed.sound (h : t.WellFormed) : t.Sound where
  count_eq := h.count_eq_card
  count_le := h.count_le
  walk _ _ hi _ hsteps := h.reachable.isSome_iterate_next hi hsteps

theorem Keyed.soundFor [EquivBEq K] (h : Keyed hash keyOf t) : t.SoundFor hash keyOf where
  toSound := h.wellFormed.sound
  hash_eq i cell hi := h.hash_eq cell (Slots.mem_cells.2 ⟨i, hi⟩)
  keys_ne _ _ _ _ hij hi hj := h.keys_ne hij hi hj

end Table

/-! ## Keys that are equal without being identical -/

/-- A number that is equal to all numbers with its last digit. -/
structure LastDigit where
  number : Nat

namespace LastDigit

def digit (a : LastDigit) : Nat := a.number % 10

instance : BEq LastDigit where
  beq a b := a.digit == b.digit

instance : EquivBEq LastDigit where
  rfl := BEq.refl (α := Nat) _
  symm hab := BEq.symm (α := Nat) hab
  trans hab hbc := BEq.trans (α := Nat) hab hbc

def hash (a : LastDigit) : UInt64 := a.digit.toUInt64

theorem respectsEquality_hash : RespectsEquality hash := by
  intro a b hab
  exact congrArg Nat.toUInt64 (eq_of_beq hab)

/-- A map that has to grow for its first pair. -/
def emptyMap : KeyMap LastDigit Nat := { hash, table := .fresh _ (.growing .standard) 0 }

theorem starts_emptyMap : emptyMap.Starts hash :=
  ⟨rfl, .ofCapacity (rfl : Table.ofCapacity _ .standard 0 = _)⟩

def emptySet : KeySet LastDigit := { hash, table := .fresh _ .bounded 2 }

theorem starts_emptySet : emptySet.Starts hash := ⟨rfl, .ofBound 2⟩

/-- Each operation after the first finds a key that is equal to its own. -/
def mapOps : List (KeyMap.Op LastDigit Nat) :=
  [.insert ⟨3⟩ 5, .insert ⟨13⟩ 6, .getEntry ⟨23⟩, .entry ⟨33⟩ (.branch .intoKey .remove)]

def setOps : List (KeySet.Op LastDigit) := [.insert ⟨3⟩, .insert ⟨13⟩, .replace ⟨23⟩, .get ⟨33⟩]

end LastDigit

/-! ## Every operation -/

/-- A table is sound after any operations, with any hashes and predicates. So are the tables of maps
and sets, with respect to their keys, if equal keys have equal hashes. -/
theorem sound_after_operations {α : Type u} {K : Type v} {V : Type w} [BEq K] [EquivBEq K]
    (hash : K → UInt64) :
    (∀ t : Table α, t.Reachable → t.Sound) ∧
      (RespectsEquality hash →
        (∀ (m : KeyMap K V) ops, m.Starts hash →
          (final KeyMap.Op.perform m ops).hash = hash ∧
            (final KeyMap.Op.perform m ops).table.SoundFor hash Prod.fst) ∧
        (∀ (s : KeySet K) ops, s.Starts hash →
          (final KeySet.Op.perform s ops).hash = hash ∧
            (final KeySet.Op.perform s ops).table.SoundFor hash id)) := by
  refine ⟨?_, fun hhash => ⟨?_, ?_⟩⟩
  · intro t ht
    exact ht.wellFormed.sound
  · intro m ops hm
    obtain ⟨heq, hkeyed⟩ := (KeyMap.simulation hhash).inv_final hm.wellFormed ops
    exact ⟨heq, hkeyed.soundFor⟩
  · intro s ops hs
    obtain ⟨heq, hkeyed⟩ := (KeySet.simulation hhash).inv_final hs.wellFormed ops
    exact ⟨heq, hkeyed.soundFor⟩

theorem sound_after_operations_lastDigit :
    (Table.pair 0 2).Sound ∧
      (final KeyMap.Op.perform LastDigit.emptyMap LastDigit.mapOps).table.SoundFor
        LastDigit.hash Prod.fst ∧
      (final KeySet.Op.perform LastDigit.emptySet LastDigit.setOps).table.SoundFor
        LastDigit.hash id := by
  obtain ⟨htables, hkeyed⟩ := sound_after_operations (α := Nat) (V := Nat) LastDigit.hash
  obtain ⟨hmaps, hsets⟩ := hkeyed LastDigit.respectsEquality_hash
  refine ⟨htables _ (Table.reachable_pair 0 2), ?_, ?_⟩
  · exact (hmaps LastDigit.emptyMap LastDigit.mapOps LastDigit.starts_emptyMap).2
  · exact (hsets LastDigit.emptySet LastDigit.setOps LastDigit.starts_emptySet).2

/-! ## Answers -/

/-- Maps answer as a dictionary that keeps the first key and the last value of each class of equal
keys, and sets as one that keeps the first key. -/
theorem answers_refine {K : Type u} {V : Type v} [BEq K] [EquivBEq K] {hash : K → UInt64}
    (hhash : RespectsEquality hash) :
    (∀ m : KeyMap K V, m.Starts hash →
      Refines KeyMap.Op.perform KeyMap.Op.model KeyMap.Outcome.LacksRoom KeyMap.Op.OrderFree m []) ∧
    (∀ s : KeySet K, s.Starts hash →
      Refines KeySet.Op.perform KeySet.Op.model KeySet.Outcome.LacksRoom KeySet.Op.OrderFree
        s []) := by
  constructor
  · intro m hm
    have hrefines := (KeyMap.simulation hhash).refines hm.wellFormed
    rwa [hm.items_eq_nil] at hrefines
  · intro s hs
    have hrefines := (KeySet.simulation hhash).refines hs.wellFormed
    rwa [hs.items_eq_nil] at hrefines

theorem answers_refine_lastDigit :
    outcomes KeyMap.Op.perform LastDigit.emptyMap LastDigit.mapOps =
        outcomes KeyMap.Op.model [] LastDigit.mapOps ∧
      outcomes KeySet.Op.perform LastDigit.emptySet LastDigit.setOps =
        outcomes KeySet.Op.model [] LastDigit.setOps := by
  obtain ⟨hmaps, hsets⟩ := answers_refine (V := Nat) LastDigit.respectsEquality_hash
  constructor
  · have houtcomes : outcomes KeyMap.Op.perform LastDigit.emptyMap LastDigit.mapOps =
        [.ok (.value none), .ok (.value (some 5)), .ok (.pair (some (⟨3⟩, 6))),
          .ok (.all [.value (some 6)])] := rfl
    refine (hmaps _ LastDigit.starts_emptyMap).outcomes_eq LastDigit.mapOps ?_ ?_
    · rw [houtcomes]
      simp [KeyMap.Outcome.LacksRoom]
    · simp [LastDigit.mapOps, KeyMap.Op.OrderFree]
  · have houtcomes : outcomes KeySet.Op.perform LastDigit.emptySet LastDigit.setOps =
        [.ok (.flag true), .ok (.flag false), .ok (.key (some ⟨3⟩)),
          .ok (.key (some ⟨23⟩))] := rfl
    refine (hsets _ LastDigit.starts_emptySet).outcomes_eq LastDigit.setOps ?_ ?_
    · rw [houtcomes]
      simp [KeySet.Outcome.LacksRoom]
    · simp [LastDigit.setOps, KeySet.Op.OrderFree]

end LinearProbing

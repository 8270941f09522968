-- SUMMARY: Comparisons and combinations of two sets, listed one key at a time.
import LinearProbing.KeySet.Basic

/-! # Set algebra

Two sets are compared and combined by walking one and looking its keys up in the other, by the
other's own hash function. Unions and differences are listed one key at a time, with bounds on the
number of keys still to come.
-/

namespace LinearProbing

universe u

/-- A part of a listing: the keys that a traversal has left, and which of them are listed; every
key if there is no condition. -/
structure Segment (K : Type u) where
  capacity : Nat
  source : Traversal K capacity
  condition? : Option (K → Bool)

/-- Keys still to be listed, segment by segment. -/
structure Listing (K : Type u) where
  segments : List (Segment K)

namespace Segment

variable {K : Type u}

/-- Whether a key of the source is listed. -/
def lists (segment : Segment K) (key : K) : Bool :=
  segment.condition?.elim true fun condition => condition key

/-- The next listed key. -/
def next? (segment : Segment K) : Option (K × Segment K) :=
  match _ : segment.source.next? with
  | none => none
  | some (key, source) =>
    let rest := { segment with source }
    if segment.lists key then some (key, rest) else rest.next?
termination_by segment.source.remaining
decreasing_by exact Nat.lt_of_succ_le (Nat.le_of_eq (Traversal.remaining_nextWith? ‹_›))

/-- The number of keys that the source has left. -/
def remaining (segment : Segment K) : Nat := segment.source.remaining

/-- Bounds on the number of keys still to come; with a condition, none may. -/
def sizeHint (segment : Segment K) : Nat × Nat :=
  (if segment.condition?.isNone then segment.remaining else 0, segment.remaining)

theorem remaining_next? {segment rest : Segment K} {key : K}
    (h : segment.next? = some (key, rest)) : rest.remaining < segment.remaining := by
  fun_induction next? segment with
  | case1 => cases h
  | case2 segment key' source hs remainder listed =>
    simp only [Option.some.injEq, Prod.mk.injEq] at h
    obtain ⟨_, rfl⟩ := h
    have := Traversal.remaining_nextWith? hs
    simp only [remainder, remaining]
    omega
  | case3 segment key' source hs remainder listed ih =>
    have := ih h
    have := Traversal.remaining_nextWith? hs
    simp only [remainder, remaining] at *
    omega

end Segment

namespace Listing

variable {K : Type u}

/-- The number of keys that the sources have left. -/
def remaining (l : Listing K) : Nat := total (l.segments.map Segment.remaining)

/-- The first key of the segments; those that have none left are dropped. -/
def firstOf? : List (Segment K) → Option (K × Listing K)
  | [] => none
  | segment :: later =>
    match segment.next? with
    | some (key, segment) => some (key, { segments := segment :: later })
    | none => firstOf? later

theorem remaining_firstOf? {segments : List (Segment K)} {rest : Listing K} {key : K}
    (h : firstOf? segments = some (key, rest)) :
    rest.remaining < total (segments.map Segment.remaining) := by
  fun_induction firstOf? segments with
  | case1 => cases h
  | case2 segment later found segment' hs =>
    simp only [Option.some.injEq, Prod.mk.injEq] at h
    obtain ⟨_, rfl⟩ := h
    have := Segment.remaining_next? hs
    simp only [remaining, List.map_cons, total_cons]
    omega
  | case3 segment later _ ih =>
    have := ih h
    simp only [List.map_cons, total_cons]
    omega

/-- The next key and what is left behind it. When there is no key, nothing is left. -/
def next (l : Listing K) : Option K × Listing K :=
  match firstOf? l.segments with
  | some (key, rest) => (some key, rest)
  | none => (none, { segments := [] })

/-- All keys that are left. -/
def rest (l : Listing K) : List K :=
  match _ : firstOf? l.segments with
  | none => []
  | some (key, l') => key :: l'.rest
termination_by l.remaining
decreasing_by exact remaining_firstOf? ‹_›

/-- Bounds on the number of keys still to come. -/
def sizeHint (l : Listing K) : Nat × Nat :=
  (total (l.segments.map fun segment => segment.sizeHint.1),
    total (l.segments.map fun segment => segment.sizeHint.2))

end Listing

namespace KeySet

variable {K : Type u} [BEq K]

/-! ## Comparisons -/

/-- Two sets are equal if they have equally many keys and the second has all keys of the first. -/
instance : BEq (KeySet K) where
  beq a b := a.count == b.count && a.toList.all b.contains

/-- The sets have no key in common; the smaller one is walked. -/
def isDisjoint (a b : KeySet K) : Bool :=
  if a.count ≤ b.count then a.toList.all fun key => !b.contains key
  else b.toList.all fun key => !a.contains key

/-- Every key of `a` is in `b`. -/
def isSubset (a b : KeySet K) : Bool :=
  if b.count < a.count then false else a.toList.all b.contains

/-- Every key of `b` is in `a`. -/
def isSuperset (a b : KeySet K) : Bool := b.isSubset a

/-! ## Combinations -/

/-- All keys of the set. -/
def everyKey (s : KeySet K) : Segment K :=
  { capacity := s.table.capacity, source := s.traversal, condition? := none }

/-- The keys of `a` whose membership in `b` is as given. -/
def selection (a b : KeySet K) (shared : Bool) : Segment K :=
  { capacity := a.table.capacity
    source := a.traversal
    condition? := some fun key => b.contains key == shared }

/-- The keys of `a`, then those of `b` that are not in `a`. -/
def union (a b : KeySet K) : Listing K := { segments := [a.everyKey, b.selection a false] }

/-- The keys of the smaller set, or of `a` if both have equally many, that are in the other. -/
def intersection (a b : KeySet K) : Listing K :=
  { segments := [if a.count ≤ b.count then a.selection b true else b.selection a true] }

/-- The keys of `a` that are not in `b`. -/
def difference (a b : KeySet K) : Listing K := { segments := [a.selection b false] }

/-- The keys of `a` that are not in `b`, then those of `b` that are not in `a`. -/
def symmetricDifference (a b : KeySet K) : Listing K :=
  { segments := [a.selection b false, b.selection a false] }

end KeySet

end LinearProbing

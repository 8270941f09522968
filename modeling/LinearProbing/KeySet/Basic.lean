-- SUMMARY: Sets of keys over a table: membership, insertion, removal, and visits.
import LinearProbing.Series
import LinearProbing.Table.Entry

/-! # Sets of keys

A set stores keys in a table under their hashes. As in a map, keys that compare equal are the same
key, and the one that was stored first stays unless it is replaced.
-/

namespace LinearProbing

universe u v

/-- A table of keys and the function that hashes them. -/
structure KeySet (K : Type u) where
  hash : K → UInt64
  table : Table K

namespace KeySet

variable {K : Type u}

/-! ## Empty sets -/

/-- A set that grows by the standard policy. -/
def growing (hash : K → UInt64) : KeySet K :=
  { hash, table := .ofPolicy _ .standard }

/-- A set that grows by the given policy. -/
def ofPolicy (hash : K → UInt64) (policy : GrowthPolicy) : KeySet K :=
  { hash, table := .ofPolicy _ policy }

/-- A set that grows by the standard policy, from the given number of slots. -/
def ofCapacity (hash : K → UInt64) (capacity : Nat) : Except Fault (KeySet K) :=
  (Table.ofCapacity _ .standard capacity).map fun table => { hash, table }

/-- A set of at most `capacity` keys. -/
def bounded (hash : K → UInt64) (capacity : Nat) : KeySet K :=
  { hash, table := .ofBound _ capacity }

/-! ## Size -/

/-- The number of keys. -/
def count (s : KeySet K) : Nat := s.table.count

def capacity (s : KeySet K) : Nat := s.table.capacity

def isEmpty (s : KeySet K) : Bool := s.table.isEmpty

def isFull (s : KeySet K) : Bool := s.table.isFull

def policy? (s : KeySet K) : Option GrowthPolicy := s.table.policy?

section Lookup

variable [BEq K]

/-! ## Lookup -/

/-- The stored key that is equal to this one. -/
def get? (s : KeySet K) (key : K) : Option K := s.table.find? (s.hash key) (key == ·)

def contains (s : KeySet K) (key : K) : Bool := (s.get? key).isSome

/-- The number of stored keys equal to this one, one or none. -/
def occurrences (s : KeySet K) (key : K) : Nat := (s.contains key).toNat

/-- A cursor at a key, or at the end. -/
def cursor (s : KeySet K) (key : K) : Cursor K s.table.capacity :=
  s.table.cursor (s.hash key) (key == ·)

/-- A cursor at the first key. -/
def cursorFront (s : KeySet K) : Cursor K s.table.capacity := .front s.table.slots

/-! ## Insertion and removal -/

/-- The place of a key in the set. -/
def entry (s : KeySet K) (key : K) : Except Fault (Entry K) :=
  s.table.entry (s.hash key) (key == ·)

/-- The place of a key in the slots that the set has. -/
def locate (s : KeySet K) (key : K) : Except Error (Entry K) :=
  s.table.locate (s.hash key) (key == ·)

/-- Stores the key in a vacant entry; says whether it was new. -/
def add (s : KeySet K) (key : K) : Entry K → Bool × KeySet K
  | .vacant e => (true, { s with table := (e.insert key).table })
  | .occupied e => (false, { s with table := e.table })

/-- Adds a key; says whether it was new. -/
def insert (s : KeySet K) (key : K) : Except Fault (Bool × KeySet K) :=
  (s.entry key).map (s.add key)

/-- Adds a key in the slots that the set has; says whether it was new. -/
def tryInsert (s : KeySet K) (key : K) : Except Error (Bool × KeySet K) :=
  (s.locate key).map (s.add key)

/-- Stores this key, also instead of an equal one, which is then yielded. -/
def replace (s : KeySet K) (key : K) : Except Fault (Option K × KeySet K) :=
  (s.entry key).map fun
    | .vacant e => (none, { s with table := (e.insert key).table })
    | .occupied e => (some e.item, { s with table := (e.modify fun _ => key).table })

/-- Takes out a key and yields the stored one. -/
def take? (s : KeySet K) (key : K) : Option (K × KeySet K) :=
  (s.table.remove? (s.hash key) (key == ·)).map fun (stored, table) => (stored, { s with table })

/-- Adds keys one after the other, up to the first that has no place. -/
def insertAll (s : KeySet K) (keys : List K) : KeySet K × Option Fault := insertEach insert s keys

/-- Adds the keys to a set, which must have a place for all of them. -/
def insertMany (s : KeySet K) (keys : List K) : Except Fault (KeySet K) := collect insert s keys

end Lookup

/-- Removes all keys and keeps the slots. -/
def clear (s : KeySet K) : KeySet K := { s with table := s.table.clear }

/-! ## Visiting all keys -/

/-- Visits all keys in slot order. -/
def traversal (s : KeySet K) : Traversal K s.table.capacity := s.table.traversal

/-- The keys in slot order. -/
def toList (s : KeySet K) : List K := s.table.toList

/-- Hands out the keys and leaves the set empty. -/
def drain (s : KeySet K) : Traversal K s.table.capacity × KeySet K := (s.traversal, s.clear)

/-- Visits the keys in slot order with a running state, and keeps those that the visit accepts. -/
def retain {σ : Type v} (s : KeySet K) (visit : σ → K → σ × Bool) (state : σ) :
    Except Fault (σ × KeySet K) :=
  let visitKey (state : σ) (key : K) : σ × Option K :=
    let (state, keep) := visit state key
    (state, if keep then some key else none)
  (s.table.retain visitKey state).map fun (state, table) => (state, { s with table })

/-! ## Slots -/

/-- Makes room for `additional` keys. -/
def reserve (s : KeySet K) (additional : Nat) : Except Fault (KeySet K) :=
  (s.table.reserve additional).map fun table => { s with table }

/-- Gives up all slots that no key needs. -/
def shrinkToFit (s : KeySet K) : Except Fault (KeySet K) :=
  s.table.shrinkToFit.map fun table => { s with table }

end KeySet

end LinearProbing

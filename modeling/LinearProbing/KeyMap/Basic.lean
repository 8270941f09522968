-- SUMMARY: Maps from keys to values over a table of pairs: lookup, removal, and visits.
import LinearProbing.Table.Resize

/-! # Maps from keys to values

A map stores pairs in a table under the hashes of their keys. Keys that compare equal are the same
key to a map, also when they are not identical: the one that was stored first stays. Equal keys
must have equal hashes.
-/

namespace LinearProbing

universe u v w

/-- A table of pairs and the function that hashes their keys. -/
structure KeyMap (K : Type u) (V : Type v) where
  hash : K → UInt64
  table : Table (K × V)

namespace KeyMap

variable {K : Type u} {V : Type v}

/-! ## Empty maps -/

/-- A map that grows by the standard policy. -/
def growing (hash : K → UInt64) : KeyMap K V :=
  { hash, table := .ofPolicy _ .standard }

/-- A map that grows by the given policy. -/
def ofPolicy (hash : K → UInt64) (policy : GrowthPolicy) : KeyMap K V :=
  { hash, table := .ofPolicy _ policy }

/-- A map that grows by the standard policy, from the given number of slots. -/
def ofCapacity (hash : K → UInt64) (capacity : Nat) : Except Fault (KeyMap K V) :=
  (Table.ofCapacity _ .standard capacity).map fun table => { hash, table }

/-- A map of at most `capacity` keys. -/
def bounded (hash : K → UInt64) (capacity : Nat) : KeyMap K V :=
  { hash, table := .ofBound _ capacity }

/-! ## Size -/

/-- The number of keys. -/
def count (m : KeyMap K V) : Nat := m.table.count

def capacity (m : KeyMap K V) : Nat := m.table.capacity

def isEmpty (m : KeyMap K V) : Bool := m.table.isEmpty

def isFull (m : KeyMap K V) : Bool := m.table.isFull

def policy? (m : KeyMap K V) : Option GrowthPolicy := m.table.policy?

/-! ## Lookup -/

section Lookup

variable [BEq K]

/-- Whether a stored pair belongs to the key. -/
def belongs (key : K) (pair : K × V) : Bool := key == pair.1

/-- The stored pair of a key. -/
def getEntry? (m : KeyMap K V) (key : K) : Option (K × V) :=
  m.table.find? (m.hash key) (belongs key)

/-- The value of a key. -/
def get? (m : KeyMap K V) (key : K) : Option V := (m.getEntry? key).map (·.2)

/-- The value of a key, or why there is none. -/
def lookup (m : KeyMap K V) (key : K) : Except Error V :=
  match m.get? key with
  | some value => .ok value
  | none => .error .keyNotFound

/-- The value of a key that is expected to be there. -/
def fetch (m : KeyMap K V) (key : K) : Except Fault V :=
  match m.get? key with
  | some value => .ok value
  | none => .error (.unhandled .keyNotFound)

def contains (m : KeyMap K V) (key : K) : Bool := (m.get? key).isSome

/-- The number of pairs with this key, one or none. -/
def occurrences (m : KeyMap K V) (key : K) : Nat := (m.contains key).toNat

/-- A cursor at the pair of a key, or at the end. -/
def cursor (m : KeyMap K V) (key : K) : Cursor (K × V) m.table.capacity :=
  m.table.cursor (m.hash key) (belongs key)

/-- A cursor at the first pair. -/
def cursorFront (m : KeyMap K V) : Cursor (K × V) m.table.capacity := .front m.table.slots

/-! ## Changes that keep or lower the number of keys -/

/-- Changes the value of a key, and yields it. -/
def modify? (m : KeyMap K V) (key : K) (update : V → V) : Option (V × KeyMap K V) :=
  (m.table.modify? (m.hash key) (belongs key) fun (k, value) => (k, update value)).map
    fun (pair, table) => (pair.2, { m with table })

/-- Takes out the pair of a key. -/
def removeEntry? (m : KeyMap K V) (key : K) : Option ((K × V) × KeyMap K V) :=
  (m.table.remove? (m.hash key) (belongs key)).map fun (pair, table) => (pair, { m with table })

/-- Takes out a key and yields its value. -/
def remove? (m : KeyMap K V) (key : K) : Option (V × KeyMap K V) :=
  (m.removeEntry? key).map fun (pair, rest) => (pair.2, rest)

end Lookup

/-- Removes all keys and keeps the slots. -/
def clear (m : KeyMap K V) : KeyMap K V := { m with table := m.table.clear }

/-! ## Visiting all pairs -/

/-- Visits all pairs in slot order. -/
def traversal (m : KeyMap K V) : Traversal (K × V) m.table.capacity := m.table.traversal

/-- The pairs in slot order. -/
def toList (m : KeyMap K V) : List (K × V) := m.table.toList

/-- The map with the pairs as a traversal of it has left them. -/
def visited (m : KeyMap K V) (traversal : Traversal (K × V) m.table.capacity) : KeyMap K V :=
  { m with table := m.table.visited traversal }

/-- Replaces every value. -/
def mapValues (m : KeyMap K V) (update : K → V → V) : KeyMap K V :=
  { m with table := m.table.mapItems fun (key, value) => (key, update key value) }

/-- Hands out the pairs and leaves the map empty. -/
def drain (m : KeyMap K V) : Traversal (K × V) m.table.capacity × KeyMap K V :=
  (m.traversal, m.clear)

/-- Visits the pairs in slot order with a running state, and keeps those for which the visit yields
a value, with that value. -/
def retain {σ : Type w} (m : KeyMap K V) (visit : σ → K → V → σ × Option V) (state : σ) :
    Except Fault (σ × KeyMap K V) :=
  let visitPair (state : σ) : K × V → σ × Option (K × V)
    | (key, value) =>
      let (state, value?) := visit state key value
      (state, value?.map (key, ·))
  (m.table.retain visitPair state).map fun (state, table) => (state, { m with table })

/-! ## Slots -/

/-- Makes room for `additional` keys. -/
def reserve (m : KeyMap K V) (additional : Nat) : Except Fault (KeyMap K V) :=
  (m.table.reserve additional).map fun table => { m with table }

/-- Gives up all slots that no key needs. -/
def shrinkToFit (m : KeyMap K V) : Except Fault (KeyMap K V) :=
  m.table.shrinkToFit.map fun table => { m with table }

end KeyMap

end LinearProbing

-- SUMMARY: Entries of a map, and the insertions that go through them.
import LinearProbing.KeyMap.Basic
import LinearProbing.Series
import LinearProbing.Table.Entry

/-! # Entries of a map

The entry of a key is its place in the map: occupied by the pair that is stored for it, or vacant,
holding the key that would be stored. Every insertion goes through an entry.
-/

namespace LinearProbing

namespace KeyMap

universe u v

/-- The place of a key that is not in the map. -/
structure VacantEntry (K : Type u) (V : Type v) where
  hash : K → UInt64
  key : K
  place : LinearProbing.VacantEntry (K × V)

/-- The place of a key that is in the map. -/
structure OccupiedEntry (K : Type u) (V : Type v) where
  hash : K → UInt64
  place : LinearProbing.OccupiedEntry (K × V)

/-- The place of a key in a map. -/
inductive Entry (K : Type u) (V : Type v)
  | vacant (entry : VacantEntry K V)
  | occupied (entry : OccupiedEntry K V)

variable {K : Type u} {V : Type v}

/-- Stores the key with this value. -/
def VacantEntry.insert (e : VacantEntry K V) (value : V) : OccupiedEntry K V :=
  { hash := e.hash, place := e.place.insert (e.key, value) }

namespace OccupiedEntry

/-- The stored key. -/
def key (e : OccupiedEntry K V) : K := e.place.item.1

def value (e : OccupiedEntry K V) : V := e.place.item.2

/-- The map that the entry belongs to. -/
def map (e : OccupiedEntry K V) : KeyMap K V := { hash := e.hash, table := e.place.table }

/-- Changes the value. -/
def modify (e : OccupiedEntry K V) (update : V → V) : OccupiedEntry K V :=
  { e with place := e.place.modify fun (key, value) => (key, update value) }

/-- Replaces the value, and yields the old one. The stored key stays. -/
def insert (e : OccupiedEntry K V) (value : V) : V × OccupiedEntry K V :=
  (e.value, e.modify fun _ => value)

/-- Takes the pair out of the map. -/
def removeEntry (e : OccupiedEntry K V) : (K × V) × KeyMap K V :=
  let (pair, table) := e.place.remove
  (pair, { hash := e.hash, table })

/-- Takes the pair out of the map and yields its value. -/
def remove (e : OccupiedEntry K V) : V × KeyMap K V :=
  let (pair, map) := e.removeEntry
  (pair.2, map)

end OccupiedEntry

namespace Entry

/-- The entry of `key` for its place in the table. -/
def ofPlace (hash : K → UInt64) (key : K) : LinearProbing.Entry (K × V) → Entry K V
  | .vacant place => .vacant { hash, key, place }
  | .occupied place => .occupied { hash, place }

/-- The map that the entry belongs to. -/
def map : Entry K V → KeyMap K V
  | .vacant e => { hash := e.hash, table := e.place.table }
  | .occupied e => e.map

/-- The stored key, or the key that would be stored. -/
def key : Entry K V → K
  | .vacant e => e.key
  | .occupied e => e.key

/-- Stores the value that is computed if the entry is vacant. -/
def orInsertWith (e : Entry K V) (value : Unit → V) : OccupiedEntry K V :=
  match e with
  | .vacant e => e.insert (value ())
  | .occupied e => e

/-- Stores the value if the entry is vacant. -/
def orInsert (e : Entry K V) (value : V) : OccupiedEntry K V := e.orInsertWith fun _ => value

/-- Changes the value of an occupied entry. -/
def andModify (e : Entry K V) (update : V → V) : Entry K V :=
  match e with
  | .vacant e => .vacant e
  | .occupied e => .occupied (e.modify update)

/-- Stores the value, and yields the one it replaces. -/
def insert (e : Entry K V) (value : V) : Option V × KeyMap K V :=
  match e with
  | .vacant e => (none, (e.insert value).map)
  | .occupied e =>
    let (old, e) := e.insert value
    (some old, e.map)

end Entry

end KeyMap

namespace KeyMap

universe u v

variable {K : Type u} {V : Type v} [BEq K]

/-- The entry of a key. A growing map makes room first; a bounded map that is full has no place for
a new key. -/
def entry (m : KeyMap K V) (key : K) : Except Fault (Entry K V) :=
  (m.table.entry (m.hash key) (belongs key)).map (.ofPlace m.hash key)

/-- The entry of a key in the slots that the map has. -/
def locate (m : KeyMap K V) (key : K) : Except Error (Entry K V) :=
  (m.table.locate (m.hash key) (belongs key)).map (.ofPlace m.hash key)

/-- Stores a value for a key, and yields the one it replaces. -/
def insert (m : KeyMap K V) (key : K) (value : V) : Except Fault (Option V × KeyMap K V) :=
  (m.entry key).map (·.insert value)

/-- Stores a value for a key in the slots that the map has. -/
def tryInsert (m : KeyMap K V) (key : K) (value : V) : Except Error (Option V × KeyMap K V) :=
  (m.locate key).map (·.insert value)

/-- The entry of a key that is stored with this value if it is new. -/
def getOrInsert (m : KeyMap K V) (key : K) (value : V) : Except Fault (OccupiedEntry K V) :=
  (m.entry key).map (·.orInsert value)

/-- Stores the value of a pair for its key. -/
def store (m : KeyMap K V) (pair : K × V) : Except Fault (Option V × KeyMap K V) :=
  m.insert pair.1 pair.2

/-- Stores pairs one after the other, up to the first that has no place. -/
def insertAll (m : KeyMap K V) (pairs : List (K × V)) : KeyMap K V × Option Fault :=
  insertEach store m pairs

/-- Adds the pairs to a map, which must have a place for all of them. -/
def insertMany (m : KeyMap K V) (pairs : List (K × V)) : Except Fault (KeyMap K V) :=
  collect store m pairs

end KeyMap

end LinearProbing

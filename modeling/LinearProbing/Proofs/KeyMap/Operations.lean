-- SUMMARY: The operations on maps as data, what they do to a map, and what they do to a dictionary.
import LinearProbing.KeyMap.Entry
import LinearProbing.Proofs.Series
import LinearProbing.Proofs.Table.KeyedEntry
import Mathlib.Data.Multiset.Basic

/-! # Operations on maps

Every operation on a map is a value of `KeyMap.Op`. `KeyMap.Op.perform` runs it on a map, and
`KeyMap.Op.model` on a dictionary of pairs, with the same answers. An answer says nothing about the
order of the pairs, about slots or about the capacity; a fault leaves the map as it was.
-/

namespace LinearProbing.KeyMap

universe u v w

open Dictionary

/-- What an operation answers. -/
inductive Answer (K : Type u) (V : Type v)
  | done
  | flag (holds : Bool)
  | number (n : Nat)
  | key (key : K)
  | value (value? : Option V)
  | pair (pair? : Option (K × V))
  | pairs (pairs : Multiset (K × V))
  | failed (error : Error)
  /-- The answers to several questions to an entry. -/
  | all (answers : List (Answer K V))

/-- An answer, or the fault that ended the operation. -/
abbrev Outcome (K : Type u) (V : Type v) := Except Fault (Answer K V)

/-- An operation ended because there is no room for another pair. -/
def Outcome.LacksRoom {K : Type u} {V : Type v} : Outcome K V → Prop
  | .error fault => fault.LacksRoom
  | .ok (.failed (.capacityExceeded _)) => True
  | .ok _ => False

variable {K : Type u} {V : Type v}

/-! ## Uses of an entry -/

/-- What a caller does with a vacant entry. -/
inductive VacantUse (V : Type v)
  | intoKey
  | insert (value : V)

/-- What a caller does with an occupied entry, step by step until the entry is given up. -/
inductive OccupiedUse (V : Type v)
  | release
  | key (rest : OccupiedUse V)
  | get (rest : OccupiedUse V)
  | modify (update : V → V) (rest : OccupiedUse V)
  | insert (value : V) (rest : OccupiedUse V)
  | remove
  | removeEntry

/-- What a caller does with an entry. -/
inductive EntryUse (V : Type v)
  /-- Looks at the key at most. -/
  | key
  /-- Stores the value if the entry is vacant, and then changes what is stored. -/
  | orInsertWith (value : Unit → V) (update : V → V)
  | insert (value : V)
  | andModify (update : V → V) (rest : EntryUse V)
  | branch (vacant : VacantUse V) (occupied : OccupiedUse V)

def VacantUse.apply (use : VacantUse V) (e : VacantEntry K V) : Answer K V × KeyMap K V :=
  match use with
  | .intoKey => (.key e.key, (Entry.vacant e).map)
  | .insert value =>
    let e := e.insert value
    (.value (some e.value), e.map)

/-- One more answer before the others. -/
def preceded {State : Type w} (answer : Answer K V) (result : List (Answer K V) × State) :
    List (Answer K V) × State :=
  (answer :: result.1, result.2)

def OccupiedUse.apply (use : OccupiedUse V) (e : OccupiedEntry K V) :
    List (Answer K V) × KeyMap K V :=
  match use with
  | .release => ([], e.map)
  | .key rest => preceded (.key e.key) (rest.apply e)
  | .get rest => preceded (.value (some e.value)) (rest.apply e)
  | .modify update rest =>
    let e := e.modify update
    preceded (.value (some e.value)) (rest.apply e)
  | .insert value rest =>
    let (old, e) := e.insert value
    preceded (.value (some old)) (rest.apply e)
  | .remove =>
    let (value, m) := e.remove
    ([.value (some value)], m)
  | .removeEntry =>
    let (pair, m) := e.removeEntry
    ([.pair (some pair)], m)

def EntryUse.apply (use : EntryUse V) (e : Entry K V) : Answer K V × KeyMap K V :=
  match use with
  | .key => (.key e.key, e.map)
  | .orInsertWith value update =>
    let e := (e.orInsertWith value).modify update
    (.value (some e.value), e.map)
  | .insert value =>
    let (old, m) := e.insert value
    (.value old, m)
  | .andModify update rest => rest.apply (e.andModify update)
  | .branch vacant occupied =>
    match e with
    | .vacant e => vacant.apply e
    | .occupied e =>
      let (answers, m) := occupied.apply e
      (.all answers, m)

/-! ## Operations -/

/-- The operations on maps. Every one is allowed on every map, also where a bounded or a growing map
does not offer it. -/
inductive Op (K : Type u) (V : Type v) : Type (max 1 u v)
  | insert (key : K) (value : V)
  | tryInsert (key : K) (value : V)
  | get (key : K)
  | getEntry (key : K)
  | lookup (key : K)
  | fetch (key : K)
  | contains (key : K)
  | occurrences (key : K)
  | find (key : K)
  | modify (key : K) (update : V → V)
  | getOrInsert (key : K) (value : V) (update : V → V)
  | remove (key : K)
  | removeEntry (key : K)
  | entry (key : K) (use : EntryUse V)
  | insertAll (pairs : List (K × V))
  | retain {σ : Type} (visit : σ → K → V → σ × Option V) (state : σ)
  | reserve (additional : Nat)
  | shrinkToFit
  | clear
  | drain
  /-- Changes the values of the first pairs, one by one. -/
  | visitFirst (updates : List (K → V → V))
  | mapValues (update : K → V → V)
  | toList
  | count
  | isEmpty

/-- The outcome of an operation that cannot fail. -/
def answered (result : Answer K V × List (K × V)) : Outcome K V × List (K × V) :=
  (.ok result.1, result.2)

/-- The visit of a pair that a visit of its key and value amounts to. -/
def visitPair {σ : Type} (visit : σ → K → V → σ × Option V) (state : σ) (pair : K × V) :
    σ × Option (K × V) :=
  ((visit state pair.1 pair.2).1, (visit state pair.1 pair.2).2.map (pair.1, ·))

def updatePair (update : K → V → V) (pair : K × V) : K × V := (pair.1, update pair.1 pair.2)

variable [BEq K]

/-- What an operation answers, and the map that results. -/
def Op.perform (op : Op K V) (m : KeyMap K V) : Outcome K V × KeyMap K V :=
  match op with
  | .insert key value =>
    attempt m ((m.insert key value).map fun (old, m) => (.value old, m))
  | .tryInsert key value =>
    match m.tryInsert key value with
    | .ok (old, m) => (.ok (.value old), m)
    | .error error => (.ok (.failed error), m)
  | .get key => (.ok (.value (m.get? key)), m)
  | .getEntry key => (.ok (.pair (m.getEntry? key)), m)
  | .lookup key =>
    match m.lookup key with
    | .ok value => (.ok (.value (some value)), m)
    | .error error => (.ok (.failed error), m)
  | .fetch key => ((m.fetch key).map fun value => .value (some value), m)
  | .contains key => (.ok (.flag (m.contains key)), m)
  | .occurrences key => (.ok (.number (m.occurrences key)), m)
  | .find key => (.ok (.pair (m.cursor key).item?), m)
  | .modify key update =>
    match m.modify? key update with
    | some (value, m) => (.ok (.value (some value)), m)
    | none => (.ok (.value none), m)
  | .getOrInsert key value update =>
    attempt m ((m.getOrInsert key value).map fun e =>
      let e := e.modify update
      (.value (some e.value), e.map))
  | .remove key =>
    match m.remove? key with
    | some (value, m) => (.ok (.value (some value)), m)
    | none => (.ok (.value none), m)
  | .removeEntry key =>
    match m.removeEntry? key with
    | some (pair, m) => (.ok (.pair (some pair)), m)
    | none => (.ok (.pair none), m)
  | .entry key use => attempt m ((m.entry key).map use.apply)
  | .insertAll pairs => concluded .done (m.insertAll pairs)
  | .retain visit state => attempt m ((m.retain visit state).map fun (_, m) => (.done, m))
  | .reserve additional => attempt m ((m.reserve additional).map fun m => (.done, m))
  | .shrinkToFit => attempt m (m.shrinkToFit.map fun m => (.done, m))
  | .clear => (.ok .done, m.clear)
  | .drain =>
    let (traversal, m) := m.drain
    (.ok (.pairs traversal.rest), m)
  | .visitFirst updates =>
    let (pairs, last) := m.traversal.visit (updates.map fun update => (.front, updatePair update))
    (.ok (.pairs pairs), m.visited last)
  | .mapValues update =>
    let (pairs, last) := m.traversal.restWith (updatePair update)
    (.ok (.pairs pairs), m.visited last)
  | .toList => (.ok (.pairs m.toList), m)
  | .count => (.ok (.number m.count), m)
  | .isEmpty => (.ok (.flag m.isEmpty), m)

theorem map_insert (m : KeyMap K V) (key : K) (value : V) :
    ((m.insert key value).map fun (old, m) => (Answer.value old, m)) =
      (m.entry key).map (EntryUse.insert value).apply := by
  unfold insert
  cases m.entry key <;> rfl

theorem map_getOrInsert (m : KeyMap K V) (key : K) (value : V) (update : V → V) :
    ((m.getOrInsert key value).map fun e =>
        (Answer.value (some (e.modify update).value), (e.modify update).map)) =
      (m.entry key).map (EntryUse.orInsertWith (fun _ => value) update).apply := by
  unfold getOrInsert
  cases m.entry key <;> rfl

theorem modify?_eq_map (m : KeyMap K V) (key : K) (update : V → V) :
    m.modify? key update =
      (m.table.modify? (m.hash key) (belongs key) (updatePair fun _ => update)).map
        fun result => (result.1.2, { m with table := result.2 }) :=
  rfl

omit [BEq K] in
theorem retain_eq_map {σ : Type} (m : KeyMap K V) (visit : σ → K → V → σ × Option V) (state : σ) :
    m.retain visit state =
      (m.table.retain (visitPair visit) state).map fun result =>
        (result.1, { m with table := result.2 }) :=
  rfl

/-! ## The same operations on a dictionary -/

/-- The pair that is stored for a key. -/
def stored (key : K) (pairs : List (K × V)) : Option (K × V) := Dictionary.lookup Prod.fst key pairs

def VacantUse.model (use : VacantUse V) (key : K) (pairs : List (K × V)) :
    Answer K V × List (K × V) :=
  match use with
  | .intoKey => (.key key, pairs)
  | .insert value => (.value (some value), put Prod.fst (key, value) pairs)

def OccupiedUse.model (use : OccupiedUse V) (key : K) (pair : K × V) (pairs : List (K × V)) :
    List (Answer K V) × List (K × V) :=
  match use with
  | .release => ([], pairs)
  | .key rest => preceded (.key pair.1) (rest.model key pair pairs)
  | .get rest => preceded (.value (some pair.2)) (rest.model key pair pairs)
  | .modify update rest =>
    let pair := (pair.1, update pair.2)
    preceded (.value (some pair.2)) (rest.model key pair (put Prod.fst pair pairs))
  | .insert value rest =>
    let updated := (pair.1, value)
    preceded (.value (some pair.2)) (rest.model key updated (put Prod.fst updated pairs))
  | .remove => ([.value (some pair.2)], erase Prod.fst key pairs)
  | .removeEntry => ([.pair (some pair)], erase Prod.fst key pairs)

def EntryUse.model (use : EntryUse V) (key : K) (pairs : List (K × V)) :
    Answer K V × List (K × V) :=
  match use with
  | .key => (.key ((stored key pairs).elim key (·.1)), pairs)
  | .orInsertWith value update =>
    match stored key pairs with
    | none =>
      (.value (some (update (value ()))), put Prod.fst (key, update (value ())) pairs)
    | some (first, old) => (.value (some (update old)), put Prod.fst (first, update old) pairs)
  | .insert value =>
    match stored key pairs with
    | none => (.value none, put Prod.fst (key, value) pairs)
    | some (first, old) => (.value (some old), put Prod.fst (first, value) pairs)
  | .andModify update rest =>
    match stored key pairs with
    | none => rest.model key pairs
    | some (first, old) => rest.model key (put Prod.fst (first, update old) pairs)
  | .branch vacant occupied =>
    match stored key pairs with
    | none => vacant.model key pairs
    | some pair =>
      let (answers, pairs) := occupied.model key pair pairs
      (.all answers, pairs)

/-- Stores a value for a key. The key that was stored first stays. -/
def insertPair (pairs : List (K × V)) (pair : K × V) : List (K × V) :=
  ((EntryUse.insert pair.2).model pair.1 pairs).2

/-- What an operation answers, and the pairs that result. -/
def Op.model (op : Op K V) (pairs : List (K × V)) : Outcome K V × List (K × V) :=
  match op with
  | .insert key value => answered ((EntryUse.insert value).model key pairs)
  | .tryInsert key value => answered ((EntryUse.insert value).model key pairs)
  | .get key => (.ok (.value ((stored key pairs).map (·.2))), pairs)
  | .getEntry key => (.ok (.pair (stored key pairs)), pairs)
  | .lookup key =>
    match stored key pairs with
    | none => (.ok (.failed .keyNotFound), pairs)
    | some pair => (.ok (.value (some pair.2)), pairs)
  | .fetch key =>
    match stored key pairs with
    | none => (.error (.unhandled .keyNotFound), pairs)
    | some pair => (.ok (.value (some pair.2)), pairs)
  | .contains key => (.ok (.flag (stored key pairs).isSome), pairs)
  | .occurrences key => (.ok (.number (if (stored key pairs).isSome then 1 else 0)), pairs)
  | .find key => (.ok (.pair (stored key pairs)), pairs)
  | .modify key update =>
    match stored key pairs with
    | none => (.ok (.value none), pairs)
    | some (first, old) =>
      (.ok (.value (some (update old))), put Prod.fst (first, update old) pairs)
  | .getOrInsert key value update =>
    answered ((EntryUse.orInsertWith (fun _ => value) update).model key pairs)
  | .remove key => (.ok (.value ((stored key pairs).map (·.2))), erase Prod.fst key pairs)
  | .removeEntry key => (.ok (.pair (stored key pairs)), erase Prod.fst key pairs)
  | .entry key use => answered (use.model key pairs)
  | .insertAll more => (.ok .done, more.foldl insertPair pairs)
  | .retain visit state =>
    (.ok .done, Dictionary.sift (visitPair visit) state pairs)
  | .reserve _ => (.ok .done, pairs)
  | .shrinkToFit => (.ok .done, pairs)
  | .clear => (.ok .done, [])
  | .drain => (.ok (.pairs pairs), [])
  | .visitFirst updates =>
    let pairs := Traversal.applyFirst (updates.map updatePair) pairs
    (.ok (.pairs (pairs.take updates.length)), pairs)
  | .mapValues update =>
    let pairs := pairs.map (updatePair update)
    (.ok (.pairs pairs), pairs)
  | .toList => (.ok (.pairs pairs), pairs)
  | .count => (.ok (.number pairs.length), pairs)
  | .isEmpty => (.ok (.flag pairs.isEmpty), pairs)

/-- What the operation does to a pair does not depend on the order of the pairs. -/
def Op.OrderFree : Op K V → Prop
  | .retain visit _ =>
    ∃ keep : K → V → Option V, ∀ state key value, (visit state key value).2 = keep key value
  | .visitFirst _ => False
  | _ => True

end LinearProbing.KeyMap

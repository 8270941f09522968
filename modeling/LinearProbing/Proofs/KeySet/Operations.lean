-- SUMMARY: The operations on sets as data, what they do to a set, and what they do to a dictionary.
import LinearProbing.KeySet.Basic
import LinearProbing.Proofs.Series
import LinearProbing.Proofs.Table.KeyedEntry
import Mathlib.Data.Multiset.Basic

/-! # Operations on sets

Every operation on a set is a value of `KeySet.Op`, with its run on a set and on a dictionary whose
items are the keys themselves.
-/

namespace LinearProbing.KeySet

universe u

open Dictionary

/-- What an operation answers. -/
inductive Answer (K : Type u)
  | done
  | flag (holds : Bool)
  | number (n : Nat)
  | key (key? : Option K)
  | keys (keys : Multiset K)
  | failed (error : Error)

/-- An answer, or the fault that ended the operation. -/
abbrev Outcome (K : Type u) := Except Fault (Answer K)

/-- An operation ended because there is no room for another key. -/
def Outcome.LacksRoom {K : Type u} : Outcome K → Prop
  | .error fault => fault.LacksRoom
  | .ok (.failed (.capacityExceeded _)) => True
  | .ok _ => False

/-- The operations on sets. Every one is allowed on every set, also where a bounded or a growing set
does not offer it. -/
inductive Op (K : Type u) : Type (max 1 u)
  | insert (key : K)
  | tryInsert (key : K)
  | replace (key : K)
  | get (key : K)
  | contains (key : K)
  | occurrences (key : K)
  | find (key : K)
  | take (key : K)
  | remove (key : K)
  | insertAll (keys : List K)
  | retain {σ : Type} (visit : σ → K → σ × Bool) (state : σ)
  | reserve (additional : Nat)
  | shrinkToFit
  | clear
  | drain
  | toList
  | count
  | isEmpty

variable {K : Type u}

/-- The visit with the new key, that is the same one, of the keys that are kept. -/
def visitKey {σ : Type} (visit : σ → K → σ × Bool) (state : σ) (key : K) : σ × Option K :=
  ((visit state key).1, if (visit state key).2 then some key else none)

variable [BEq K]

/-- What an operation answers, and the set that results. -/
def Op.perform (op : Op K) (s : KeySet K) : Outcome K × KeySet K :=
  match op with
  | .insert key => attempt s ((s.insert key).map fun (new, s) => (.flag new, s))
  | .tryInsert key =>
    match s.tryInsert key with
    | .ok (new, s) => (.ok (.flag new), s)
    | .error error => (.ok (.failed error), s)
  | .replace key => attempt s ((s.replace key).map fun (old, s) => (.key old, s))
  | .get key => (.ok (.key (s.get? key)), s)
  | .contains key => (.ok (.flag (s.contains key)), s)
  | .occurrences key => (.ok (.number (s.occurrences key)), s)
  | .find key => (.ok (.key (s.cursor key).item?), s)
  | .take key =>
    match s.take? key with
    | some (stored, s) => (.ok (.key (some stored)), s)
    | none => (.ok (.key none), s)
  | .remove key =>
    match s.take? key with
    | some (_, s) => (.ok (.flag true), s)
    | none => (.ok (.flag false), s)
  | .insertAll keys => concluded .done (s.insertAll keys)
  | .retain visit state => attempt s ((s.retain visit state).map fun (_, s) => (.done, s))
  | .reserve additional => attempt s ((s.reserve additional).map fun s => (.done, s))
  | .shrinkToFit => attempt s (s.shrinkToFit.map fun s => (.done, s))
  | .clear => (.ok .done, s.clear)
  | .drain =>
    let (traversal, s) := s.drain
    (.ok (.keys traversal.rest), s)
  | .toList => (.ok (.keys s.toList), s)
  | .count => (.ok (.number s.count), s)
  | .isEmpty => (.ok (.flag s.isEmpty), s)

omit [BEq K] in
theorem retain_eq_map {σ : Type} (s : KeySet K) (visit : σ → K → σ × Bool) (state : σ) :
    s.retain visit state =
      (s.table.retain (visitKey visit) state).map fun result =>
        (result.1, { s with table := result.2 }) :=
  rfl

/-- The key that is stored for a key. -/
def stored (key : K) (keys : List K) : Option K := lookup id key keys

/-- Adds a key, unless there is an equal one. -/
def insertKey (keys : List K) (key : K) : List K :=
  if (stored key keys).isSome then keys else put id key keys

/-- What an operation answers, and the keys that result. -/
def Op.model (op : Op K) (keys : List K) : Outcome K × List K :=
  match op with
  | .insert key => (.ok (.flag (stored key keys).isNone), insertKey keys key)
  | .tryInsert key => (.ok (.flag (stored key keys).isNone), insertKey keys key)
  | .replace key => (.ok (.key (stored key keys)), put id key keys)
  | .get key => (.ok (.key (stored key keys)), keys)
  | .contains key => (.ok (.flag (stored key keys).isSome), keys)
  | .occurrences key => (.ok (.number (if (stored key keys).isSome then 1 else 0)), keys)
  | .find key => (.ok (.key (stored key keys)), keys)
  | .take key => (.ok (.key (stored key keys)), erase id key keys)
  | .remove key => (.ok (.flag (stored key keys).isSome), erase id key keys)
  | .insertAll more => (.ok .done, more.foldl insertKey keys)
  | .retain visit state => (.ok .done, Dictionary.sift (visitKey visit) state keys)
  | .reserve _ => (.ok .done, keys)
  | .shrinkToFit => (.ok .done, keys)
  | .clear => (.ok .done, [])
  | .drain => (.ok (.keys keys), [])
  | .toList => (.ok (.keys keys), keys)
  | .count => (.ok (.number keys.length), keys)
  | .isEmpty => (.ok (.flag keys.isEmpty), keys)

/-- What the operation does to a key does not depend on the order of the keys. -/
def Op.OrderFree : Op K → Prop
  | .retain visit _ => ∃ keep : K → Bool, ∀ state key, (visit state key).2 = keep key
  | _ => True

end LinearProbing.KeySet

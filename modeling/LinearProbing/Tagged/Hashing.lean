-- SUMMARY: Five hash functions for tagged keys.
import LinearProbing.Tagged.Key

/-! # Hash functions for tagged keys

Five functions of a key's label, from one that keeps every number apart to one that keeps nothing
apart. None looks at the tag, so equal keys have equal hashes.
-/

namespace LinearProbing

/-- The choice of a hash function. -/
inductive Hashing
  /-- A number is its own hash; the bytes of a text are read as one number. -/
  | identity
  /-- The complement of every bit of the identity. -/
  | complement
  /-- The same hash for all keys. -/
  | zero
  /-- One of three hashes. -/
  | clumped
  /-- Each byte is mixed in by an exclusive or and a multiplication by a prime. -/
  | mixed
  deriving DecidableEq, Repr

namespace Hashing

def identityHash : Label → UInt64
  | .number value => value
  | .text value => value.toUTF8.toList.foldl (fun acc byte => acc * 256 + byte.toUInt64) 0

def clumpedHash (label : Label) : UInt64 :=
  label.bytes.foldl (fun acc byte => acc + byte.toUInt64) 0 % 3

def mixedHash (label : Label) : UInt64 :=
  label.bytes.foldl (fun acc byte => (acc ^^^ byte.toUInt64) * 0x100000001b3) 0xcbf29ce484222325

/-- The hash of a label. -/
def ofLabel : Hashing → Label → UInt64
  | .identity, label => identityHash label
  | .complement, label => ~~~(identityHash label)
  | .zero, _ => 0
  | .clumped, label => clumpedHash label
  | .mixed, label => mixedHash label

/-- The hash of a key. -/
def ofKey (hashing : Hashing) (key : Key) : UInt64 := hashing.ofLabel key.label

end Hashing

end LinearProbing

-- SUMMARY: Multiply-add-divide compression of 64-bit hashes to slot indices: `scale` and `home`.
/-! # Multiply-add-divide compression

A 64-bit hash becomes a slot index in three steps: multiply by one prime, add another (both
modulo `2 ^ 64`), and take the remainder by the number of slots. The primes are the two largest
below `2 ^ 64`.
-/

namespace LinearProbing

namespace Compression

/-- The largest prime below `2 ^ 64`. -/
def multiplier : UInt64 := 18446744073709551557

/-- The second largest prime below `2 ^ 64`. -/
def summand : UInt64 := 18446744073709551533

/-- The permutation of the 64-bit words that precedes the division. The constants stand on the left,
where the value of a sum or product with a variable hash is never computed by unfolding. -/
def mix (hash : UInt64) : UInt64 := summand + multiplier * hash

end Compression

/-- The index that a hash is compressed to in an array of `size` slots. -/
def scale (hash : UInt64) (size : Nat) : Nat := (Compression.mix hash).toNat % size

theorem scale_lt {size : Nat} (hash : UInt64) (pos : 0 < size) : scale hash size < size :=
  Nat.mod_lt _ pos

/-- The slot at which the search for an entry with this hash starts. -/
def home {size : Nat} (hash : UInt64) (pos : 0 < size) : Fin size :=
  ⟨scale hash size, scale_lt hash pos⟩

end LinearProbing

-- SUMMARY: Equality of maps by content.
import LinearProbing.KeyMap.Basic

/-! # Equality of maps

Two maps are equal if they have equally many keys and each key of the first has an equal value in
the second, wherever the pairs are stored.
-/

namespace LinearProbing

universe u v

instance {K : Type u} {V : Type v} [BEq K] [BEq V] : BEq (KeyMap K V) where
  beq a b := a.count == b.count && a.toList.all fun (key, value) => b.get? key == some value

end LinearProbing

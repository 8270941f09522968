-- SUMMARY: The structured text of a map.
import LinearProbing.KeyMap.Basic
import LinearProbing.Text.Layout

/-! # The text of a map

The pairs are written in slot order, in braces.
-/

namespace LinearProbing

universe u v

instance {K : Type u} {V : Type v} [Described K] [Described V] : Described (KeyMap K V) where
  describe m := .map (m.toList.map fun (key, value) => ((describe key).inline, describe value))

end LinearProbing

-- SUMMARY: The structured text of a set.
import LinearProbing.KeySet.Basic
import LinearProbing.Text.Layout

/-! # The text of a set

The keys are written in slot order, in braces.
-/

namespace LinearProbing

universe u

instance {K : Type u} [Described K] : Described (KeySet K) where
  describe s := .set (s.toList.map describe)

end LinearProbing

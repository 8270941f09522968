-- SUMMARY: Keys whose tag takes no part in comparisons.
import LinearProbing.Text.Layout
import LinearProbing.Text.Quoted

/-! # Tagged keys

A key is a number or a text, with a tag beside it. The tag takes no part in comparisons, so it
shows which of several equal keys a container has stored.
-/

namespace LinearProbing

/-- What a key is compared and hashed by. -/
inductive Label
  | number (value : UInt64)
  | text (value : String)
  deriving DecidableEq, Repr

/-- A label and a tag. -/
structure Key where
  label : Label
  tag : Int64
  deriving Repr

namespace Label

/-- The bytes of a label: a number's eight from the lowest on, a text's encoding. -/
def bytes : Label → List UInt8
  | .number value => (List.range 8).map fun i => (value >>> (8 * i).toUInt64).toUInt8
  | .text value => value.toUTF8.toList

/-- The number, or the length of the text in bytes. -/
def magnitude : Label → UInt64
  | .number value => value
  | .text value => value.utf8ByteSize.toUInt64

end Label

instance : Described Label where
  describe
    | .number value => .atom (toString value.toNat)
    | .text value => .atom (Text.quote value)

namespace Key

/-- Keys are equal if their labels are. -/
instance : BEq Key where
  beq a b := decide (a.label = b.label)

instance : Described Key := ⟨fun key => describe key.label⟩

end Key

instance : Described Int64 := ⟨fun n => .atom (toString n.toInt)⟩

end LinearProbing

-- SUMMARY: Growth policies: the load threshold, the growth step, and the capacity for a number of entries.
import LinearProbing.Fault
import LinearProbing.Text.Layout

/-! # Growth policies

A policy says above which load a table needs more room and how many slots it then gets.

* `GrowthPolicy.needsGrowth` compares the load, in whole percent, with the threshold.
* `GrowthPolicy.grownCapacity` multiplies the capacity, always by enough to add a slot.
* `GrowthPolicy.capacityFor` is the least capacity at which a given number of entries does not
  need growth.
-/

namespace LinearProbing

/-- The capacity of a table that is given none, and of one that grows from no slots at all. -/
def initialCapacity : Nat := 7

/-- A load threshold in percent and the factor by which the capacity grows. -/
structure GrowthPolicy where
  maxLoad : Nat
  ratio : Float
  maxLoad_pos : 0 < maxLoad
  maxLoad_lt : maxLoad < 100
  one_lt_ratio : 1 < ratio

namespace GrowthPolicy

/-- Refuses a threshold of nothing or everything, then a ratio that would not grow. -/
def make (maxLoad : Nat) (ratio : Float) : Except Fault GrowthPolicy :=
  if load : 0 < maxLoad ∧ maxLoad < 100 then
    if grows : 1 < ratio then .ok ⟨maxLoad, ratio, load.1, load.2, grows⟩
    else .error (.ratioTooSmall ratio)
  else .error (.loadOutOfRange maxLoad)

/-- Grows above seventy percent, to twice the capacity. -/
def standard : GrowthPolicy :=
  { maxLoad := 70
    ratio := 2
    maxLoad_pos := by decide
    maxLoad_lt := by decide
    one_lt_ratio := by decide }

instance : Inhabited GrowthPolicy := ⟨standard⟩

instance : BEq GrowthPolicy where
  beq a b := a.maxLoad == b.maxLoad && a.ratio == b.ratio

instance : Described GrowthPolicy where
  describe policy :=
    .record "GrowthPolicy"
      [("max_load_percent", describe policy.maxLoad),
        ("growth_ratio", .atom (Decimal.shortest .marked policy.ratio))]

/-- The number of entries in percent; a count that leaves the word range stops at its end. -/
def percent (count : Nat) : Nat := saturate (100 * count)

/-- Whether `count` entries in `capacity` slots are too many for one more to be added. -/
def needsGrowth (policy : GrowthPolicy) (count capacity : Nat) : Bool :=
  capacity == 0 || policy.maxLoad < percent count / capacity

/-- The capacity times the ratio, rounded down and kept within a word. -/
def scaledCapacity (policy : GrowthPolicy) (capacity : Nat) : Nat :=
  (capacity.toUInt64.toFloat * policy.ratio).toUInt64.toNat

/-- The capacity that follows `capacity`. -/
def grownCapacity (policy : GrowthPolicy) (capacity : Nat) : Nat :=
  if capacity = 0 then initialCapacity
  else max (policy.scaledCapacity capacity) (capacity + 1)

/-- The least capacity at which `count` entries do not need growth. -/
def capacityFor (policy : GrowthPolicy) (count : Nat) : Nat :=
  if count = 0 then 0 else percent count / (policy.maxLoad + 1) + 1

end GrowthPolicy

end LinearProbing

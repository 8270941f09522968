-- SUMMARY: Counts that stay within a 64-bit word: the bounds, saturation, and totals.
/-! # Counts

Lengths and capacities are natural numbers that stay below `2 ^ 64`. Where a product or a sum
could leave that range it stops at the largest count instead of wrapping around.
-/

namespace LinearProbing

/-- The largest count that a 64-bit word holds. -/
def largestCount : Nat := 18446744073709551615

/-- Capacities stay strictly below this bound. -/
def capacityBound : Nat := 9223372036854775807

/-- A count that is too large for a word becomes the largest one. -/
def saturate (n : Nat) : Nat := min n largestCount

theorem saturate_le (n : Nat) : saturate n ≤ n := Nat.min_le_left ..

theorem saturate_le_largestCount (n : Nat) : saturate n ≤ largestCount := Nat.min_le_right ..

theorem saturate_of_le {n : Nat} (h : n ≤ largestCount) : saturate n = n := Nat.min_eq_left h

theorem saturate_mono {m n : Nat} (h : m ≤ n) : saturate m ≤ saturate n := by
  simp only [saturate]; omega

/-! ## Totals -/

/-- The sum of a list of counts. -/
def total : List Nat → Nat
  | [] => 0
  | count :: rest => count + total rest

@[simp] theorem total_nil : total [] = 0 := rfl

@[simp] theorem total_cons (count : Nat) (rest : List Nat) :
    total (count :: rest) = count + total rest := rfl

end LinearProbing

-- SUMMARY: The histogram of distances from home, and its bars as text.
import LinearProbing.Slots.Basic

/-! # The histogram of probe lengths

Bin `d` counts the entries that are `d` steps from home. There are as many bins as the longest
probe needs.
-/

namespace LinearProbing

universe u

/-- The number of entries at each distance from home. -/
structure Histogram where
  bins : Array Nat
  deriving DecidableEq, Repr

namespace Histogram

/-- Counts one more entry; missing bins are added. -/
def add (h : Histogram) (distance : Nat) : Histogram :=
  let bins := h.bins ++ Array.replicate (distance + 1 - h.bins.size) 0
  { bins := bins.modify distance (· + 1) }

def ofDistances (distances : List Nat) : Histogram := distances.foldl add { bins := #[] }

def ofSlots {α : Type u} {n : Nat} (s : Slots α n) : Histogram := ofDistances s.displacements

/-- The number of entries counted. -/
def total (h : Histogram) : Nat := LinearProbing.total h.bins.toList

/-! ## As text -/

/-- The eighths of a block that the widest bar is made of. -/
def widestBar : Nat := 60 * 8

/-- A block that is filled from the left by the given number of eighths. -/
def blockOf : Nat → String
  | 1 => "▏"
  | 2 => "▎"
  | 3 => "▍"
  | 4 => "▌"
  | 5 => "▋"
  | 6 => "▊"
  | 7 => "▉"
  | _ => ""

/-- A bar in proportion to the largest count, rounded up to an eighth of a block. -/
def bar (count largest : Nat) : String :=
  let eighths := (count * widestBar + (largest - 1)) / largest
  String.ofList (List.replicate (eighths / 8) '█') ++ blockOf (eighths % 8)

/-- A number in at least `width` columns, on the right. -/
def alignRight (width n : Nat) : String :=
  let digits := toString n
  String.ofList (List.replicate (width - digits.length) ' ') ++ digits

/-- A headline and one line per bin. -/
def lines (h : Histogram) : List String :=
  let largest := h.bins.toList.foldl max 0
  if largest = 0 then ["probe histogram: empty"]
  else
    let rows := h.bins.toList.mapIdx fun distance count =>
      s!"{alignRight 4 distance} | {bar count largest} ({count})"
    s!"probe histogram ({h.total} entries):" :: rows

end Histogram

end LinearProbing

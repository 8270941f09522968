-- SUMMARY: Measurements of a table and their six lines of text.
import LinearProbing.Decimal.Fixed
import LinearProbing.Statistics.Cluster
import LinearProbing.Table.Basic

/-! # A summary of a table's layout

How full a table is, how far its entries are from home, and what its slots cost.
-/

namespace LinearProbing

universe u

/-- Measurements of one table. -/
structure Summary where
  count : Nat
  capacity : Nat
  loadFactor : Float
  longestProbe : Nat
  meanProbe : Float
  longestCluster : Nat
  totalBytes : Nat
  wastedBytes : Nat

namespace Summary

/-- The quotient of two counts; zero if the second is zero. -/
def fraction (part whole : Nat) : Float :=
  if whole = 0 then 0 else part.toUInt64.toFloat / whole.toUInt64.toFloat

/-- Measures a table whose slots take `slotBytes` each. -/
def ofTable {α : Type u} (t : Table α) (slotBytes : Nat) : Summary :=
  let distances := t.slots.displacements
  { count := t.count
    capacity := t.capacity
    loadFactor := fraction t.count t.capacity
    longestProbe := distances.foldl max 0
    meanProbe := fraction t.slots.totalDisplacement distances.length
    longestCluster := t.slots.longestCluster
    totalBytes := t.capacity * slotBytes
    wastedBytes := (t.capacity - t.count) * slotBytes }

/-- The summary in six lines. -/
def lines (s : Summary) : List String :=
  let load := Decimal.twoPlaces (s.loadFactor * 100)
  let mean := Decimal.twoPlaces s.meanProbe
  let waste := Decimal.twoPlaces (fraction s.wastedBytes s.totalBytes * 100)
  ["=== Hash Table Debug Statistics ===",
    s!"Population: {s.count}/{s.capacity} ({load}% load factor)",
    s!"Probe length: max {s.longestProbe}, mean {mean}",
    s!"Longest cluster: {s.longestCluster} slots",
    s!"Total Allocated: {s.totalBytes} bytes",
    s!"Memory: {s.wastedBytes} bytes wasted ({waste}%)"]

end Summary

end LinearProbing

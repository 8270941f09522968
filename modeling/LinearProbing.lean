import LinearProbing.Compression
import LinearProbing.Cursor
import LinearProbing.Cyclic
import LinearProbing.Decimal.Binary
import LinearProbing.Decimal.Fixed
import LinearProbing.Decimal.Shortest
import LinearProbing.Fault
import LinearProbing.KeyMap.Basic
import LinearProbing.KeyMap.Entry
import LinearProbing.KeyMap.Equality
import LinearProbing.KeyMap.Text
import LinearProbing.KeySet.Algebra
import LinearProbing.KeySet.Basic
import LinearProbing.KeySet.Text
import LinearProbing.Policy
import LinearProbing.Series
import LinearProbing.Slots.Basic
import LinearProbing.Slots.Gap
import LinearProbing.Slots.Placement
import LinearProbing.Slots.Probe
import LinearProbing.Statistics.Cluster
import LinearProbing.Statistics.Histogram
import LinearProbing.Statistics.Summary
import LinearProbing.Table.Basic
import LinearProbing.Table.Entry
import LinearProbing.Table.Resize
import LinearProbing.Table.Text
import LinearProbing.Tagged.Hashing
import LinearProbing.Tagged.Item
import LinearProbing.Tagged.Key
import LinearProbing.Text.Layout
import LinearProbing.Text.Quoted
import LinearProbing.Text.Visible
import LinearProbing.Traversal
import LinearProbing.Word
import LinearProbing.Proofs.Ring
import LinearProbing.Proofs.Slots.Contents
import LinearProbing.Proofs.Slots.Layout
import LinearProbing.Proofs.Slots.Closing
import LinearProbing.Proofs.Slots.Search
import LinearProbing.Proofs.Slots.Arrivals
import LinearProbing.Proofs.Traversal
import LinearProbing.Proofs.Table.WellFormed
import LinearProbing.Proofs.Table.Rebuild
import LinearProbing.Proofs.Table.Entry
import LinearProbing.Proofs.Table.Run
import LinearProbing.Proofs.Table.Frame
import LinearProbing.Proofs.Threshold
import LinearProbing.Proofs.Table.Growth
import LinearProbing.Proofs.Table.Refusals
import LinearProbing.Proofs.Table.Lookup
import LinearProbing.Proofs.Statistics.Histogram
import LinearProbing.Proofs.Statistics.Cluster
import LinearProbing.Proofs.Table.History
import LinearProbing.Proofs.Dictionary
import LinearProbing.Proofs.Dictionary.Capacity
import LinearProbing.Proofs.Table.Keyed
import LinearProbing.Proofs.Table.KeyedEntry
import LinearProbing.Proofs.Table.Bounded
import LinearProbing.Proofs.Simulation
import LinearProbing.Proofs.Series
import LinearProbing.Proofs.KeyMap.Operations
import LinearProbing.Proofs.KeyMap.Frame
import LinearProbing.Proofs.KeyMap.Refusals
import LinearProbing.Proofs.KeyMap.Refinement
import LinearProbing.Proofs.KeyMap.Simulation
import LinearProbing.Proofs.KeyMap.Bounded
import LinearProbing.Proofs.KeySet.Operations
import LinearProbing.Proofs.KeySet.Frame
import LinearProbing.Proofs.KeySet.Refusals
import LinearProbing.Proofs.KeySet.Listing
import LinearProbing.Proofs.KeySet.Simulation
import LinearProbing.Proofs.KeySet.Bounded
import LinearProbing.Proofs.Containers
import LinearProbing.Proofs.BoundedContainers
import LinearProbing.Proofs.Equality
import LinearProbing.Proofs.Program.Basic
import LinearProbing.Proofs.Program.Slots
import LinearProbing.Proofs.Program.Table
import LinearProbing.Proofs.Program.Visits
import LinearProbing.Proofs.Program.Resize
import LinearProbing.Proofs.Program.Entry
import LinearProbing.Proofs.Program.Operations
import LinearProbing.Proofs.Program.Series
import LinearProbing.Proofs.Program.KeyMap
import LinearProbing.Proofs.Program.KeySet
import LinearProbing.Proofs.Program.Comparison
import LinearProbing.Proofs.Faults
import LinearProbing.Proofs.SetAlgebra
import LinearProbing.Proofs.Slots.Rounds
import LinearProbing.Proofs.Slots.Shifting
import LinearProbing.Proofs.Slots.Lap
import LinearProbing.Proofs.Table.Vacating
import LinearProbing.Proofs.Table.Undo
import LinearProbing.Proofs.Table.Conservation
import LinearProbing.Proofs.Table.Reserving
import LinearProbing.Proofs.Doubling
import LinearProbing.Proofs.Table.Load
import LinearProbing.Proofs.Traversal.BothEnds
import LinearProbing.Proofs.Iteration
import LinearProbing.Proofs.Cursor
import LinearProbing.Proofs.Compression
import LinearProbing.Proofs.Statistics.Consistency
import LinearProbing.Proofs.Table.Consecutive
import LinearProbing.Proofs.Threshold.Adjoint
import LinearProbing.Proofs.Statistics.Rotation
import LinearProbing.Proofs.Slots.Precedence
import LinearProbing.Proofs.Table.IterationOrder

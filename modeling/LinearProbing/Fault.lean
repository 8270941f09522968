-- SUMMARY: Failures and their messages: `Error` is an answer, `Fault` ends an operation.
import LinearProbing.Decimal.Shortest
import LinearProbing.Word

/-! # Failures

An `Error` is an answer a caller is expected to handle. A `Fault` ends the operation that met it:
the container keeps the state it had before.
-/

namespace LinearProbing

/-- Why a lookup or an insertion was refused. -/
inductive Error
  | keyNotFound
  /-- A new entry found all of the given number of slots occupied. -/
  | capacityExceeded (slots : Nat)
  deriving DecidableEq, Repr

namespace Error

def message : Error → String
  | .keyNotFound => "key does not exist in the table"
  | .capacityExceeded slots => s!"table is full: all {slots} slots are occupied"

end Error

/-- Why an operation was abandoned. -/
inductive Fault
  /-- A load threshold outside 1 to 99 percent. -/
  | loadOutOfRange (percent : Nat)
  /-- A growth ratio that is not above one. -/
  | ratioTooSmall (ratio : Float)
  /-- A capacity that is not below the bound. -/
  | capacityTooLarge (capacity : Nat)
  /-- More entries than slots to hold them. -/
  | doesNotFit (entries slots : Nat)
  /-- No empty slot after a second growth step. -/
  | stillFull (slots : Nat)
  /-- No empty slot for an entry of an array that is being rebuilt. -/
  | noSlotLeft
  /-- An error that the caller asked not to see. -/
  | unhandled (error : Error)

namespace Fault

def message : Fault → String
  | .loadOutOfRange percent => s!"max load must be between 1 and 99 percent, got {percent}"
  | .ratioTooSmall ratio =>
    "growth ratio must be greater than 1, got " ++ Decimal.shortest .plain ratio
  | .capacityTooLarge capacity => s!"capacity {capacity} exceeds the maximum of {capacityBound}"
  | .doesNotFit entries slots => s!"cannot fit {entries} entries into {slots} slots"
  | .stillFull slots => s!"hash table still full after growing to {slots} slots"
  | .noSlotLeft => "no empty slot is left for an entry of the rebuilt array"
  | .unhandled error => error.message

end Fault

end LinearProbing

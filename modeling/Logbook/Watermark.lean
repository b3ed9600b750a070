import Logbook.Error

/-!
# The durability watermark

Regions reach the device in the order of their sequence numbers, so one number
says which records are there: all up to the watermark. A wait for a record ends
well once the watermark has reached it, and otherwise only when the writer has
failed or the log has been shut down.
-/

namespace Logbook

/-- How far the log is on the device, and what ends waits for the rest. -/
structure Watermark where
  durable : Nat
  failure : Option DurabilityFailure
  closed : Bool
deriving DecidableEq, Repr

namespace Watermark

/-- The watermark of a log that is on the device up to `durable`. -/
def startingAt (durable : Nat) : Watermark := ⟨durable, none, false⟩

/-- Everything up to `lsn` is on the device. -/
def advance (watermark : Watermark) (lsn : Nat) : Watermark :=
  { watermark with durable := max watermark.durable lsn }

/-- The writer has failed; the first failure stays. -/
def fail (watermark : Watermark) (failure : DurabilityFailure) : Watermark :=
  { watermark with failure := some (watermark.failure.getD failure) }

/-- Nothing more will be written. -/
def close (watermark : Watermark) : Watermark :=
  { watermark with closed := true }

/-- How a wait for `lsn` ends, or `none` while it has to go on. -/
def waitFor (watermark : Watermark) (lsn : Nat) : Option (Except LogError Unit) :=
  if lsn ≤ watermark.durable then some (.ok ())
  else
    match watermark.failure with
    | some failure => some (.error (.durability failure))
    | none => if watermark.closed then some (.error .shutDown) else none

end Watermark

end Logbook

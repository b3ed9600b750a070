import Logbook.Region
import Logbook.Storage.Device

/-!
# Scanning a device from its newest record

The scan takes the regions of a device from the newest to the oldest, unpacks
each and yields its records in descending order. Each record has to be the
predecessor of the one before it. The scan is the list of what it yields; it
ends with the first failure, or where the log begins.
-/

namespace Logbook.Recovery

/-- A record together with the number of regions read up to it. -/
structure Scanned where
  record : Record
  regions : Nat
deriving DecidableEq, Repr

/-- The records of regions that come newest first, ending with the first region
that cannot be read or unpacked; `regions` were read before. -/
def unpackAll (policy : FormatPolicy) (regions : Nat) :
    List (Except StorageError Chunk) → List (Except LogError Scanned)
  | [] => []
  | .error error :: _ => [.error (.storage error)]
  | .ok chunk :: rest =>
      match Region.unpack chunk.lsn policy chunk.bytes with
      | .error error => [.error error]
      | .ok records =>
          (records.reverse.map fun record => .ok ⟨record, regions + 1⟩)
            ++ unpackAll policy (regions + 1) rest

/-- Each record has to have the expected number; the first that has another is
a gap, and ends the scan. -/
def checkDescent (expected : Option Nat) :
    List (Except LogError Scanned) → List (Except LogError Scanned)
  | [] => []
  | .error error :: _ => [.error error]
  | .ok scanned :: rest =>
      match expected.filter (· ≠ scanned.record.lsn) with
      | some expected => [.error (.recovery (.gap expected scanned.record.lsn))]
      | none => .ok scanned :: checkDescent (some (scanned.record.lsn - 1)) rest

/-- The scan of regions that come newest first. -/
def scan (policy : FormatPolicy) (regions : List (Except StorageError Chunk)) :
    List (Except LogError Scanned) :=
  checkDescent none (unpackAll policy 0 regions)

end Logbook.Recovery

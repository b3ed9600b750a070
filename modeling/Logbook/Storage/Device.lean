import Logbook.Bytes
import Logbook.Storage.Error

/-!
# Append devices

An append device keeps regions in order, each under the number of its last
record, and reads them back in either direction from a cursor. Operations are
functions from device to device, and a failed operation also leaves a device
behind.
-/

namespace Logbook

/-- One region as a device keeps it. -/
structure Chunk where
  /-- The number the region was written at. -/
  lsn : Nat
  bytes : Bytes
deriving DecidableEq, Repr

/-- Where a seek puts the cursor. -/
inductive SeekPosition where
  | start
  | «end»
deriving DecidableEq, Repr

/-- The direction of a read. -/
inductive Direction where
  | forward
  | backward
deriving DecidableEq, Repr

/-- A device that regions are appended to and read back from. -/
class Device (δ : Type) where
  /-- Append a region; the result is the number of bytes the device took. -/
  write : δ → Bytes → Nat → Except StorageError Nat × δ
  /-- Make every region written so far survive a power loss. -/
  sync : δ → Except StorageError Unit × δ
  /-- Move the read cursor. -/
  seek : δ → SeekPosition → Except StorageError Unit × δ
  /-- Read the region next to the cursor and move past it. -/
  read : δ → Direction → Except StorageError (Option Chunk) × δ
  /-- The number of regions that can be read. -/
  regionCount : δ → Nat

namespace Device

variable {δ : Type} [Device δ]

/-- What up to `count` backward reads give, ending with the first failure. -/
def readBackward : (count : Nat) → δ → List (Except StorageError Chunk)
  | 0, _ => []
  | count + 1, device =>
      match read device .backward with
      | (.error error, _) => [.error error]
      | (.ok none, _) => []
      | (.ok (some chunk), device) => .ok chunk :: readBackward count device

/-- The regions of a device, newest first, as far as they can be read. -/
def newestFirst (device : δ) : List (Except StorageError Chunk) :=
  match seek device .end with
  | (.error error, _) => [.error error]
  | (.ok (), device) => readBackward (regionCount device) device

/-- The device reads back these regions, given oldest first, and nothing else. -/
def Reads (device : δ) (chunks : List Chunk) : Prop :=
  newestFirst device = chunks.reverse.map .ok

end Device

end Logbook

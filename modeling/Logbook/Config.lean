import Logbook.Lsn

/-!
# Configuration of a log

The settings under which a log is opened and written, their defaults, and the
options that recovery takes.
-/

namespace Logbook

/-- When the device is asked to make written regions survive a power loss. -/
inductive SyncPolicy where
  /-- Only when a record of the region was appended with a sync request. -/
  | onRequest
  /-- After every region. -/
  | always
deriving DecidableEq, Repr

/-- The name of a sync policy. -/
def SyncPolicy.name : SyncPolicy → String
  | .onRequest => "OnRequest"
  | .always => "Always"

/-- The checksum that a region carries. -/
inductive ChecksumKind where
  | adler32
  | none
deriving DecidableEq, Repr

/-- The name of a checksum. -/
def ChecksumKind.name : ChecksumKind → String
  | .adler32 => "Adler32"
  | .none => "None"

/-- The region formats that a reader accepts. -/
inductive FormatPolicy where
  /-- Either format, told apart by the version word. -/
  | auto
  | current
  | legacy
deriving DecidableEq, Repr

/-- The name of a policy in messages. -/
def FormatPolicy.name : FormatPolicy → String
  | .auto => "Auto"
  | .current => "Current"
  | .legacy => "Legacy"

/-- The settings of a log. -/
structure Config where
  /-- Records that one window holds, and so the most that one region can. -/
  windowCapacity : Nat
  syncPolicy : SyncPolicy
  checksum : ChecksumKind
  formatPolicy : FormatPolicy
  /-- Replay workers; zero replays on the scanning thread. -/
  replayWorkers : Nat
  /-- Milliseconds between two looks of an idle writer. -/
  writerPollMillis : Nat
  /-- Milliseconds between two looks at a window with a missing record. -/
  recheckMillis : Nat
  /-- Packed regions that may wait for the device; zero packs on the writing
  thread. -/
  packingDepth : Nat
  /-- Slot arrays of written windows that are kept for reuse. -/
  slotPoolSize : Nat
deriving DecidableEq, Repr

namespace Config

/-- The settings of a log that was given none. -/
def standard : Config where
  windowCapacity := 1024
  syncPolicy := .onRequest
  checksum := .adler32
  formatPolicy := .auto
  replayWorkers := 4
  writerPollMillis := 10
  recheckMillis := 1
  packingDepth := 0
  slotPoolSize := 4

/-- Small windows and frequent looks, so that short workloads cross windows. -/
def small : Config :=
  { standard with windowCapacity := 16, replayWorkers := 3, writerPollMillis := 1 }

end Config

/-- What the caller may tell recovery. -/
structure RecoveryOptions where
  /-- Where the scan stops, in place of the marker in the newest record. -/
  lowestLive : Option Nat := none
deriving DecidableEq, Repr

end Logbook

import Logbook.Lsn

/-!
# Storage errors

What can go wrong between the log and an append device, by cause, with the
wording of each cause in one place.
-/

namespace Logbook

/-- The device operations that an injected fault can interrupt. -/
inductive DeviceCall where
  | write
  | sync
deriving DecidableEq, Repr

/-- A device operation as it appears in messages. -/
def DeviceCall.name : DeviceCall → String
  | .write => "write"
  | .sync => "sync"

/-- Why an input or output operation failed. -/
inductive IoFault where
  /-- The operating system refused; the wording is its own. -/
  | system
  /-- An injected fault stopped the operation. -/
  | simulatedCrash (during : DeviceCall)
  /-- A region is too long for the length field of a frame. -/
  | frameLimit (length : Nat)
  /-- A fault that the caller words. -/
  | reported (text : String)
deriving DecidableEq, Repr

/-- The wording of an input or output fault, if this library fixes it. -/
def IoFault.text? : IoFault → Option String
  | .system => none
  | .simulatedCrash during => some s!"simulated crash during {during.name}"
  | .frameLimit length => some s!"region of {length} bytes exceeds frame limit"
  | .reported text => some text

/-- The wording of an input or output fault. -/
def IoFault.message (fault : IoFault) : String :=
  fault.text?.getD "operation refused by the system"

/-- Why the contents of a device are not a sequence of frames. -/
inductive Corruption where
  | frameMagic (offset : Nat)
  | frameTrailer (offset : Nat)
  | frameOrder (lsn previous : Nat) (offset : Nat)
  /-- A corruption that the caller words. -/
  | reported (text : String)
deriving DecidableEq, Repr

/-- The wording of a corruption. -/
def Corruption.message : Corruption → String
  | .frameMagic offset => s!"invalid frame magic at offset {offset}"
  | .frameTrailer offset => s!"invalid frame trailer at offset {offset}"
  | .frameOrder lsn previous offset =>
      s!"frame lsn {lsn} does not follow {previous} at offset {offset}"
  | .reported text => text

/-- A failed device operation. -/
inductive StorageError where
  | io (fault : IoFault)
  | corrupted (cause : Corruption)
  /-- An earlier failure has closed the device for good. -/
  | closed
  /-- Another handle holds the file. -/
  | locked
  /-- A region was to be written at a number that is not above the last one. -/
  | outOfOrder (lsn previous : Nat)
deriving DecidableEq, Repr

/-- The name of the kind of a storage error. -/
def StorageError.kind : StorageError → String
  | .io _ => "Io"
  | .corrupted _ => "Corrupted"
  | .closed => "Closed"
  | .locked => "Locked"
  | .outOfOrder .. => "OutOfOrder"

/-- The wording of a storage error. -/
def StorageError.message : StorageError → String
  | .io fault => s!"I/O error: {fault.message}"
  | .corrupted cause => s!"device corrupted: {cause.message}"
  | .closed => "device is closed"
  | .locked => "device locked: another process has exclusive access"
  | .outOfOrder lsn previous => s!"out of order write: lsn {lsn} after {previous}"

end Logbook

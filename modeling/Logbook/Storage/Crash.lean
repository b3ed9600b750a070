import Logbook.Storage.Memory

/-!
# Crashes and injected faults

A crash image is what a restarted process would find on a disk. A faulty device
carries a switch that makes its writes or its syncs fail on command, so that the
way a log goes down can be watched.
-/

namespace Logbook

/-- What survives a crash. -/
inductive CrashPoint where
  /-- Every written region. -/
  | afterWrite
  /-- The regions that were synced. -/
  | loseUnsynced
  /-- All but the newest region, whose write was torn. -/
  | tearTail
deriving DecidableEq, Repr

/-- The disk after a crash. -/
def Disk.crashImage (disk : Disk) (point : CrashPoint) : Disk :=
  match point with
  | .afterWrite => disk
  | .loseUnsynced => disk.discardUnsynced.2
  | .tearTail => disk.tearTail.2

/-- The switch of a faulty device. -/
structure FaultSwitch where
  /-- Writes that may still succeed; `none` for no limit. -/
  writesLeft : Option Nat
  failSyncs : Bool
  /-- Whether a fault has been injected. -/
  crashed : Bool
  /-- Writes that succeeded. -/
  writes : Nat
deriving DecidableEq, Repr

namespace FaultSwitch

/-- A switch that injects nothing. -/
def quiet : FaultSwitch := ⟨none, false, false, 0⟩

/-- Let `count` more writes succeed, then fail every write. -/
def failWritesAfter (switch : FaultSwitch) (count : Nat) : FaultSwitch :=
  { switch with writesLeft := some count }

/-- Fail every sync from now on. -/
def failEverySync (switch : FaultSwitch) : FaultSwitch :=
  { switch with failSyncs := true }

end FaultSwitch

/-- A device behind a fault switch. -/
structure Faulty (δ : Type) where
  inner : δ
  switch : FaultSwitch
deriving DecidableEq, Repr

namespace Faulty

variable {δ : Type}

/-- A device whose switch injects nothing yet. -/
def wrap (device : δ) : Faulty δ := ⟨device, .quiet⟩

/-- Set the switch. -/
def onSwitch (device : Faulty δ) (set : FaultSwitch → FaultSwitch) : Faulty δ :=
  { device with switch := set device.switch }

/-- The outcome of an injected fault. -/
def fail {α : Type} (device : Faulty δ) (during : DeviceCall) :
    Except StorageError α × Faulty δ :=
  (.error (.io (.simulatedCrash during)), device.onSwitch ({ · with crashed := true }))

variable [Device δ]

/-- Write through the switch. An attempt uses up one of the writes left, also
when the inner device then refuses it. -/
def write (device : Faulty δ) (bytes : Bytes) (lsn : Nat) :
    Except StorageError Nat × Faulty δ :=
  if device.switch.writesLeft = some 0 then device.fail .write
  else
    let device := device.onSwitch fun switch =>
      { switch with writesLeft := switch.writesLeft.map (· - 1) }
    match Device.write device.inner bytes lsn with
    | (.error error, inner) => (.error error, { device with inner := inner })
    | (.ok count, inner) =>
        (.ok count,
          { device.onSwitch (fun switch => { switch with writes := switch.writes + 1 }) with
            inner := inner })

/-- Sync through the switch. -/
def sync (device : Faulty δ) : Except StorageError Unit × Faulty δ :=
  if device.switch.failSyncs then device.fail .sync
  else
    let (result, inner) := Device.sync device.inner
    (result, { device with inner := inner })

instance : Device (Faulty δ) where
  write := write
  sync := sync
  seek device position :=
    let (result, inner) := Device.seek device.inner position
    (result, { device with inner := inner })
  read device direction :=
    let (result, inner) := Device.read device.inner direction
    (result, { device with inner := inner })
  regionCount device := Device.regionCount device.inner

end Faulty

end Logbook

import Logbook.Storage.Crash
import Logbook.Storage.File

/-!
# Volumes

A volume is a device of either kind, on a disk in memory or on a log file.
-/

namespace Logbook

/-- A device on a disk in memory or on a log file. -/
inductive Volume where
  | memory (device : MemoryDevice)
  | file (file : LogFile)
deriving DecidableEq, Repr

namespace Volume

/-- A volume on a new disk in memory. -/
def newMemory : Volume := .memory (.onDisk .empty)

/-- A volume on a new log file. -/
def newFile : Except StorageError Volume := (LogFile.openOn (.file [])).map .file

/-- The disk of a volume in memory. -/
def disk? : Volume → Option Disk
  | memory device => some device.disk
  | file _ => none

/-- The bytes of the file of a volume. -/
def content? : Volume → Option Bytes
  | memory _ => none
  | file held => some held.medium.content

/-- Work on the disk of a volume in memory. -/
def onDisk? {α : Type} (volume : Volume) (work : Disk → α × Disk) : Option α × Volume :=
  match volume with
  | memory device =>
      let (result, disk) := work device.disk
      (some result, memory { device with disk := disk })
  | file _ => (none, volume)

/-- A new device on the same disk or file, after the old one was closed. -/
def reopen : Volume → Except StorageError Volume
  | memory device => .ok (memory (.onDisk device.disk))
  | file held => (LogFile.openOn held.medium).map file

instance : Device Volume where
  write volume bytes lsn :=
    match volume with
    | memory device =>
        let (result, device) := Device.write device bytes lsn
        (result, memory device)
    | file held =>
        let (result, held) := Device.write held bytes lsn
        (result, file held)
  sync volume :=
    match volume with
    | memory device =>
        let (result, device) := Device.sync device
        (result, memory device)
    | file held =>
        let (result, held) := Device.sync held
        (result, file held)
  seek volume position :=
    match volume with
    | memory device =>
        let (result, device) := Device.seek device position
        (result, memory device)
    | file held =>
        let (result, held) := Device.seek held position
        (result, file held)
  read volume direction :=
    match volume with
    | memory device =>
        let (result, device) := Device.read device direction
        (result, memory device)
    | file held =>
        let (result, held) := Device.read held direction
        (result, file held)
  regionCount volume :=
    match volume with
    | memory device => Device.regionCount device
    | file held => Device.regionCount held

end Volume

end Logbook

import Logbook.Storage.Crash

/-!
# Handles on disks

Several handles may share one disk: each has its own cursor, and all of them see
the same regions. Forking a handle, or taking a crash image through it, makes a
new disk that goes its own way. The room holds all disks and all handles, both
numbered in the order they came into being.
-/

namespace Logbook

/-- A handle: the disk it is on and its cursor. -/
structure Handle where
  disk : Nat
  cursor : Nat
deriving DecidableEq, Repr

/-- All disks and all handles on them. -/
structure DiskRoom where
  disks : List Disk
  handles : List Handle
deriving DecidableEq, Repr

namespace DiskRoom

/-- One empty disk with one handle on it. -/
def single : DiskRoom := ⟨[.empty], [⟨0, 0⟩]⟩

/-- The device that a handle is. -/
def device? (room : DiskRoom) (handle : Nat) : Option MemoryDevice := do
  let h ← room.handles[handle]?
  let disk ← room.disks[h.disk]?
  return ⟨disk, h.cursor⟩

/-- Work on the device that a handle is: the disk changes for every handle on
it, the cursor for this one. -/
def onDevice? {α : Type} (room : DiskRoom) (handle : Nat)
    (work : MemoryDevice → α × MemoryDevice) : Option (α × DiskRoom) := do
  let h ← room.handles[handle]?
  let disk ← room.disks[h.disk]?
  let (result, after) := work ⟨disk, h.cursor⟩
  return (result,
    { disks := room.disks.set h.disk after.disk
      handles := room.handles.set handle { h with cursor := after.cursor } })

/-- Work on the disk that a handle is on. -/
def onDisk? {α : Type} (room : DiskRoom) (handle : Nat) (work : Disk → α × Disk) :
    Option (α × DiskRoom) :=
  room.onDevice? handle fun device =>
    let (result, disk) := work device.disk
    (result, { device with disk := disk })

/-- A second handle on the same disk, with the cursor at the same place. -/
def clone? (room : DiskRoom) (handle : Nat) : Option (Nat × DiskRoom) := do
  let h ← room.handles[handle]?
  return (room.handles.length, { room with handles := room.handles ++ [h] })

/-- A handle on a new disk, with the cursor at the start. -/
def addDisk (room : DiskRoom) (disk : Disk) : Nat × DiskRoom :=
  (room.handles.length,
    { disks := room.disks ++ [disk]
      handles := room.handles ++ [⟨room.disks.length, 0⟩] })

/-- A handle on a copy of the disk. -/
def fork? (room : DiskRoom) (handle : Nat) : Option (Nat × DiskRoom) := do
  let device ← room.device? handle
  return room.addDisk device.disk

/-- A handle on what a crash leaves of the disk. -/
def crash? (room : DiskRoom) (handle : Nat) (point : CrashPoint) :
    Option (Nat × DiskRoom) := do
  let device ← room.device? handle
  return room.addDisk (device.disk.crashImage point)

end DiskRoom

end Logbook

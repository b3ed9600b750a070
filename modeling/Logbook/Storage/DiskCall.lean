import Logbook.Storage.Handles

/-!
# Calls on a room of disks

Disks are worked on through any number of handles in any order. Most calls do something to
the device that a handle is. The others make a handle: on a new disk, on the disk of another
handle, on a copy of that disk or on what a crash would leave of it. A call through a handle
that does not exist does nothing.
-/

namespace Logbook

/-- What is done to a device in memory. -/
inductive DiskWork where
  | write (bytes : Bytes) (lsn : Nat)
  | sync
  | seek (position : SeekPosition)
  | read (direction : Direction)
  | tearTail
  | discardUnsynced
  | corrupt (region offset : Nat)
deriving DecidableEq, Repr

/-- The device after some work. -/
def MemoryDevice.perform (device : MemoryDevice) : DiskWork → MemoryDevice
  | .write bytes lsn => (Device.write device bytes lsn).2
  | .sync => (Device.sync device).2
  | .seek position => (Device.seek device position).2
  | .read direction => (Device.read device direction).2
  | .tearTail => { device with disk := device.disk.tearTail.2 }
  | .discardUnsynced => { device with disk := device.disk.discardUnsynced.2 }
  | .corrupt region offset => { device with disk := (device.disk.corrupt region offset).2 }

/-- A call on a room of disks. -/
inductive DiskCall where
  /-- A handle on a new disk. -/
  | create
  /-- Some work on the device that a handle is. -/
  | work (handle : Nat) (work : DiskWork)
  | clone (handle : Nat)
  | fork (handle : Nat)
  | crash (handle : Nat) (point : CrashPoint)
deriving DecidableEq, Repr

/-- The handle that a call goes through. -/
def DiskCall.handle? : DiskCall → Option Nat
  | create => none
  | work handle _ | clone handle | fork handle | crash handle _ => some handle

namespace DiskRoom

/-- The room that a call leads to, the same room if there is no such handle. -/
def follow {α : Type} (room : DiskRoom) (outcome : Option (α × DiskRoom)) : DiskRoom :=
  match outcome with
  | none => room
  | some (_, after) => after

/-- The room after a call. -/
def call (room : DiskRoom) : DiskCall → DiskRoom
  | .create => (room.addDisk .empty).2
  | .work handle work =>
      room.follow (room.onDevice? handle fun device => ((), device.perform work))
  | .clone handle => room.follow (room.clone? handle)
  | .fork handle => room.follow (room.fork? handle)
  | .crash handle point => room.follow (room.crash? handle point)

/-- The room after some calls. -/
def run (room : DiskRoom) (calls : List DiskCall) : DiskRoom :=
  calls.foldl call room

@[simp]
theorem run_nil (room : DiskRoom) : room.run [] = room :=
  rfl

@[simp]
theorem run_cons (room : DiskRoom) (call : DiskCall) (calls : List DiskCall) :
    room.run (call :: calls) = (room.call call).run calls :=
  rfl

/-- The number of the disk that a handle is on. -/
def number? (room : DiskRoom) (handle : Nat) : Option Nat :=
  room.handles[handle]?.map Handle.disk

/-- What can be seen through a handle. -/
def disk? (room : DiskRoom) (handle : Nat) : Option Disk :=
  (room.device? handle).map MemoryDevice.disk

/-- Both handles exist, and they are on one disk. -/
def SameDisk (room : DiskRoom) (first second : Nat) : Prop :=
  ∃ number, room.number? first = some number ∧ room.number? second = some number

end DiskRoom

end Logbook

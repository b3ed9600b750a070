import Logbook.Storage.File
import Logbook.Storage.Memory

/-!
# The log behind a device

What a device is for can be said without frames and files: it is a list of regions and
a read cursor. In the life of a device calls alternate with closings, after which it is
opened again, and with crashes, after which only the first bytes of its file are left.
A region outlives a crash if its whole frame does.
-/

namespace Logbook

/-- What is done to a device, or happens to it. -/
inductive DeviceEvent where
  | write (bytes : Bytes) (lsn : Nat)
  | sync
  | seek (position : SeekPosition)
  | read (direction : Direction)
  /-- The device is closed and opened again. -/
  | reopen
  /-- The device is closed, loses all bytes from `offset` on, and is opened again. -/
  | crash (offset : Nat)
deriving DecidableEq, Repr

/-- What a device answers to an event, apart from the bytes that a write took. -/
inductive DeviceAnswer where
  | done
  | region (found : Option Chunk)
  | failed (error : StorageError)
deriving DecidableEq, Repr

namespace DeviceEvent

/-- The answers to some events, one after the other, and the state that they lead to. -/
def play {σ : Type} (answer : σ → DeviceEvent → DeviceAnswer × σ) (state : σ) :
    List DeviceEvent → List DeviceAnswer × σ
  | [] => ([], state)
  | event :: events =>
      let (first, state) := answer state event
      let (rest, state) := play answer state events
      (first :: rest, state)

end DeviceEvent

/-- A device that can be closed and opened again. -/
class Device.Restarts (δ : Type) where
  /-- A new device on what a closed one has left. -/
  reopen : δ → Except StorageError δ
  /-- What is left of a closed device without the bytes of its file from `offset` on. -/
  cut : δ → (offset : Nat) → δ

namespace Device

variable {δ : Type} [Device δ] [Restarts δ]

/-- Open a device again that was closed. -/
def restart (device : δ) : DeviceAnswer × δ :=
  match Restarts.reopen device with
  | .ok device => (.done, device)
  | .error error => (.failed error, device)

/-- What a device makes of an event. -/
def answer (device : δ) : DeviceEvent → DeviceAnswer × δ
  | .write bytes lsn =>
      match write device bytes lsn with
      | (.ok _, device) => (.done, device)
      | (.error error, device) => (.failed error, device)
  | .sync =>
      match sync device with
      | (.ok (), device) => (.done, device)
      | (.error error, device) => (.failed error, device)
  | .seek position =>
      match seek device position with
      | (.ok (), device) => (.done, device)
      | (.error error, device) => (.failed error, device)
  | .read direction =>
      match read device direction with
      | (.ok found, device) => (.region found, device)
      | (.error error, device) => (.failed error, device)
  | .reopen => restart device
  | .crash offset => restart (Restarts.cut device offset)

end Device

/-- The regions whose frames, one behind the other from `start` on, end at or before
`offset`. -/
def Frame.endingBy (offset : Nat) (start : Nat) : List Chunk → List Chunk
  | [] => []
  | chunk :: chunks =>
      let finish := start + size chunk.bytes.length
      if finish ≤ offset then chunk :: endingBy offset finish chunks
      else endingBy offset finish chunks

/-- The regions of a device in the order they were written, and how many of them are
behind the read cursor. -/
structure AppendLog where
  regions : List Chunk
  cursor : Nat
deriving DecidableEq, Repr

namespace AppendLog

/-- A log without regions. -/
def empty : AppendLog := ⟨[], 0⟩

/-- Put a region behind the others. -/
def append (log : AppendLog) (chunk : Chunk) : AppendLog :=
  { log with regions := log.regions ++ [chunk] }

/-- The log with its cursor at the start. -/
def rewound (log : AppendLog) : AppendLog := { log with cursor := 0 }

/-- The log after a crash that leaves the first `offset` bytes. -/
def crashed (log : AppendLog) (offset : Nat) : AppendLog :=
  ⟨Frame.endingBy offset 0 log.regions, 0⟩

/-- What a log makes of an event. -/
def answer (log : AppendLog) : DeviceEvent → DeviceAnswer × AppendLog
  | .write bytes lsn =>
      match log.regions.getLast? with
      | none => (.done, log.append ⟨lsn, bytes⟩)
      | some last =>
          if last.lsn < lsn then (.done, log.append ⟨lsn, bytes⟩)
          else (.failed (.outOfOrder lsn last.lsn), log)
  | .sync => (.done, log)
  | .seek .start => (.done, { log with cursor := 0 })
  | .seek .end => (.done, { log with cursor := log.regions.length })
  | .read .forward =>
      match log.regions[log.cursor]? with
      | none => (.region none, log)
      | some chunk => (.region (some chunk), { log with cursor := log.cursor + 1 })
  | .read .backward =>
      if log.cursor = 0 then (.region none, log)
      else (.region log.regions[log.cursor - 1]?, { log with cursor := log.cursor - 1 })
  | .reopen => (.done, log.rewound)
  | .crash offset => (.done, log.crashed offset)

end AppendLog

instance : Device.Restarts LogFile where
  reopen file := LogFile.openOn file.medium
  cut file offset :=
    { file with medium := file.medium.resize (min offset file.medium.content.length) }

/-- Drop some of the newest regions, as if their writes had been torn. -/
def Disk.tearTails (disk : Disk) : (count : Nat) → Disk
  | 0 => disk
  | count + 1 => tearTails disk.tearTail.2 count

/-- A disk in memory has no bytes outside its regions. A crash tears the regions off whose
frames would not be whole. -/
instance : Device.Restarts MemoryDevice where
  reopen device := .ok (.onDisk device.disk)
  cut device offset :=
    let whole := Frame.endingBy offset 0 device.disk.regions
    { device with disk := device.disk.tearTails (device.disk.regions.length - whole.length) }

end Logbook

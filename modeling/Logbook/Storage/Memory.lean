import Logbook.Storage.Device

/-!
# Disks in memory

A disk in memory is a list of regions with a mark up to which they have been
synced. Besides the operations of a device it has the ones that a test needs to
play a crash: dropping the newest region, dropping what was never synced, and
damaging a byte. A memory device is a disk together with a read cursor.
-/

namespace Logbook

/-- Flip every bit of the byte at `offset`. -/
def Chunk.damage (chunk : Chunk) (offset : Nat) : Chunk :=
  { chunk with bytes := chunk.bytes.modify offset (~~~ ·) }

/-- Regions in the order they were written, the first `synced` of them safe. -/
structure Disk where
  regions : List Chunk
  synced : Nat
deriving DecidableEq, Repr

namespace Disk

/-- A disk that holds nothing. -/
def empty : Disk := ⟨[], 0⟩

/-- Append a region; its number has to be above that of the newest one. -/
def write (disk : Disk) (bytes : Bytes) (lsn : Nat) : Except StorageError Nat × Disk :=
  let accept := { disk with regions := disk.regions ++ [⟨lsn, bytes⟩] }
  match disk.regions.getLast? with
  | none => (.ok bytes.length, accept)
  | some last =>
      if lsn ≤ last.lsn then (.error (.outOfOrder lsn last.lsn), disk)
      else (.ok bytes.length, accept)

/-- A disk with some regions, written one after the other. -/
def ofChunks (chunks : List Chunk) : Except StorageError Disk :=
  chunks.foldlM
    (fun disk chunk =>
      match disk.write chunk.bytes chunk.lsn with
      | (.ok _, disk) => .ok disk
      | (.error error, _) => .error error)
    empty

/-- Every region written so far becomes safe. -/
def sync (disk : Disk) : Disk :=
  { disk with synced := disk.regions.length }

/-- Drop the newest region, as if its write had been torn. -/
def tearTail (disk : Disk) : Option Chunk × Disk :=
  let kept := disk.regions.dropLast
  (disk.regions.getLast?, ⟨kept, min disk.synced kept.length⟩)

/-- Drop every region that is not safe; the result is how many those were. -/
def discardUnsynced (disk : Disk) : Nat × Disk :=
  (disk.regions.length - disk.synced, { disk with regions := disk.regions.take disk.synced })

/-- Flip every bit of one byte of one region; the result is whether that byte
exists. -/
def corrupt (disk : Disk) (region offset : Nat) : Bool × Disk :=
  match disk.regions[region]? with
  | none => (false, disk)
  | some chunk =>
      if offset < chunk.bytes.length then
        (true, { disk with regions := disk.regions.set region (chunk.damage offset) })
      else (false, disk)

end Disk

/-- A disk and a read cursor, the number of regions behind it. -/
structure MemoryDevice where
  disk : Disk
  cursor : Nat
deriving DecidableEq, Repr

namespace MemoryDevice

/-- A device on a disk, with its cursor at the start. -/
def onDisk (disk : Disk) : MemoryDevice := ⟨disk, 0⟩

/-- Move the cursor. -/
def seek (device : MemoryDevice) (position : SeekPosition) : MemoryDevice :=
  match position with
  | .start => { device with cursor := 0 }
  | .end => { device with cursor := device.disk.regions.length }

/-- Read next to the cursor. A cursor beyond the newest region, which a torn
tail can leave behind, first comes back to it. -/
def read (device : MemoryDevice) (direction : Direction) : Option Chunk × MemoryDevice :=
  let cursor := min device.cursor device.disk.regions.length
  match direction with
  | .backward =>
      if cursor = 0 then (none, { device with cursor := 0 })
      else (device.disk.regions[cursor - 1]?, { device with cursor := cursor - 1 })
  | .forward =>
      match device.disk.regions[cursor]? with
      | none => (none, { device with cursor := cursor })
      | some chunk => (some chunk, { device with cursor := cursor + 1 })

instance : Device MemoryDevice where
  write device bytes lsn :=
    let (result, disk) := device.disk.write bytes lsn
    (result, { device with disk := disk })
  sync device := (.ok (), { device with disk := device.disk.sync })
  seek device position := (.ok (), device.seek position)
  read device direction :=
    let (chunk, device) := device.read direction
    (.ok chunk, device)
  regionCount device := device.disk.regions.length

end MemoryDevice

end Logbook

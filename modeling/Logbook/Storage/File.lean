import Logbook.Storage.Frame

/-!
# Log files

A file device keeps an index of the frames of one file, made by a scan when the
file is opened. It writes behind the last frame and reads frames by their place
in the index. Opening cuts a torn tail off the file and refuses a corrupt one
without touching it. The first failed write or sync closes the device for good,
because part of a frame may then be in the file.
-/

namespace Logbook

/-- What a file name stands for. -/
inductive Medium where
  /-- An ordinary file. -/
  | file (content : Bytes)
  /-- A place without room: it reads as empty and takes no byte. -/
  | full
  /-- A place that takes every byte and keeps none. -/
  | sink
deriving DecidableEq, Repr

namespace Medium

/-- The bytes of a medium. -/
def content : Medium → Bytes
  | file content => content
  | full | sink => []

/-- The `length` bytes at `offset`, if they are all there. -/
def readAt? (medium : Medium) (offset length : Nat) : Option Bytes :=
  (Bytes.split? length (medium.content.drop offset)).map (·.1)

/-- Put bytes at `offset`, over what is there; a gap before them reads as zeros. -/
def overwrite (content : Bytes) (offset : Nat) (bytes : Bytes) : Bytes :=
  content.take offset ++ List.replicate (offset - content.length) 0 ++ bytes
    ++ content.drop (offset + bytes.length)

/-- Write bytes at `offset`. -/
def writeAt? (medium : Medium) (offset : Nat) (bytes : Bytes) : Option Medium :=
  match medium with
  | file content => some (file (overwrite content offset bytes))
  | full => if bytes = [] then some full else none
  | sink => some sink

/-- Keep the first `length` bytes, or extend with zeros to that length. -/
def resize (medium : Medium) (length : Nat) : Medium :=
  match medium with
  | file content => file (content.take length ++ List.replicate (length - content.length) 0)
  | full => full
  | sink => sink

/-- Put bytes in place of all that a medium holds, if it has room for them. -/
def replace? (medium : Medium) (bytes : Bytes) : Option Medium :=
  (medium.resize 0).writeAt? 0 bytes

/-- Whether the medium can be told to make its bytes safe. -/
def Syncs : Medium → Prop
  | file _ => True
  | full | sink => False

instance (medium : Medium) : Decidable medium.Syncs := by
  cases medium <;> unfold Syncs <;> infer_instance

end Medium

/-- A device on an opened file, apart from the bytes of the file. -/
structure FileDevice where
  /-- The frames of the file, oldest first. -/
  frames : List FrameEntry
  cursor : Nat
  /-- Where the frames end. -/
  size : Nat
  /-- Whether an earlier failure has closed the device. -/
  poisoned : Bool
deriving DecidableEq, Repr

namespace FileDevice

/-- Open a file: index its frames and cut a torn tail off. -/
def openOn (medium : Medium) : Except StorageError (FileDevice × Medium) :=
  match Frame.scan medium.content with
  | .error cause => .error (.corrupted cause)
  | .ok (frames, valid) =>
      .ok (⟨frames, 0, valid, false⟩,
        if valid < medium.content.length then medium.resize valid else medium)

/-- The longest region whose length fits the field of a frame. -/
def maxRegion : Nat := UInt32.size - 1

/-- Append the frame of a region. -/
def write (device : FileDevice) (medium : Medium) (bytes : Bytes) (lsn : Nat) :
    Except StorageError Nat × FileDevice × Medium :=
  if device.poisoned then (.error .closed, device, medium)
  else
    match device.frames.getLast?.filter (lsn ≤ ·.lsn) with
    | some last => (.error (.outOfOrder lsn last.lsn), device, medium)
    | none =>
        if maxRegion < bytes.length then
          (.error (.io (.frameLimit bytes.length)), device, medium)
        else
          match medium.writeAt? device.size (Frame.encode ⟨lsn, bytes⟩) with
          | none => (.error (.io .system), { device with poisoned := true }, medium)
          | some medium =>
              let taken := Frame.size bytes.length
              (.ok taken,
                { device with
                  frames := device.frames ++ [⟨device.size, bytes.length, lsn⟩]
                  size := device.size + taken },
                medium)

/-- Make the file safe. -/
def sync (device : FileDevice) (medium : Medium) : Except StorageError Unit × FileDevice :=
  if device.poisoned then (.error .closed, device)
  else if medium.Syncs then (.ok (), device)
  else (.error (.io .system), { device with poisoned := true })

/-- Move the cursor. -/
def seek (device : FileDevice) (position : SeekPosition) :
    Except StorageError Unit × FileDevice :=
  if device.poisoned then (.error .closed, device)
  else
    match position with
    | .start => (.ok (), { device with cursor := 0 })
    | .end => (.ok (), { device with cursor := device.frames.length })

/-- The region of a frame. -/
def readFrame (medium : Medium) (entry : FrameEntry) : Except StorageError (Option Chunk) :=
  match medium.readAt? entry.payloadOffset entry.length with
  | none => .error (.io .system)
  | some bytes => .ok (some ⟨entry.lsn, bytes⟩)

/-- Read the frame next to the cursor. The cursor moves also when the bytes of
the frame are no longer there. -/
def read (device : FileDevice) (medium : Medium) (direction : Direction) :
    Except StorageError (Option Chunk) × FileDevice :=
  if device.poisoned then (.error .closed, device)
  else
    match direction with
    | .backward =>
        if device.cursor = 0 then (.ok none, device)
        else
          let device := { device with cursor := device.cursor - 1 }
          match device.frames[device.cursor]? with
          | none => (.ok none, device)
          | some entry => (readFrame medium entry, device)
    | .forward =>
        match device.frames[device.cursor]? with
        | none => (.ok none, device)
        | some entry => (readFrame medium entry, { device with cursor := device.cursor + 1 })

end FileDevice

/-- An opened log file together with the bytes of the file. -/
structure LogFile where
  device : FileDevice
  medium : Medium
deriving DecidableEq, Repr

namespace LogFile

/-- Open a log file with these bytes. -/
def openOn (medium : Medium) : Except StorageError LogFile :=
  (FileDevice.openOn medium).map fun (device, medium) => ⟨device, medium⟩

instance : Device LogFile where
  write file bytes lsn :=
    let (result, device, medium) := file.device.write file.medium bytes lsn
    (result, ⟨device, medium⟩)
  sync file :=
    let (result, device) := file.device.sync file.medium
    (result, { file with device := device })
  seek file position :=
    let (result, device) := file.device.seek position
    (result, { file with device := device })
  read file direction :=
    let (result, device) := file.device.read file.medium direction
    (result, { file with device := device })
  regionCount file := file.device.frames.length

end LogFile

end Logbook

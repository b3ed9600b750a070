import Logbook.Storage.File
import Logbook.Storage.Path

/-!
# A folder of log files

The files that devices are opened on, by path, together with the devices that
hold them. A file can be held by one device at a time, whatever path it was
opened by, and a device sees what others do to the bytes of its file.

Directories and files have numbers, and a name in a directory leads to one of
them. The way up is a name like any other, so that a path is followed piece by
piece; every step but the last has to lead to a directory.
-/

namespace Logbook

/-- What a name leads to. -/
inductive Node where
  | directory (number : Nat)
  | file (number : Nat)
deriving DecidableEq, Repr

/-- An open device and the file it holds. -/
structure OpenFile where
  file : Nat
  device : FileDevice
deriving DecidableEq, Repr

/-- Directories, files, and open devices by name. -/
structure Folder where
  /-- The names in each directory. -/
  names : List ((Nat × String) × Node)
  /-- How many directories there are; the root of the system is the first. -/
  directories : Nat
  /-- The files by number. -/
  files : List Medium
  opened : List (String × OpenFile)
deriving DecidableEq, Repr

namespace Folder

/-- The path of a file in the folder, by its name there. -/
def path (name : String) : FilePath := FilePath.join ["", "tmp", "folder.000"] name

/-- A folder without files; the system has one place without room and one that
keeps nothing. -/
def fresh : Folder where
  names :=
    [((0, ".."), .directory 0),
      ((0, "dev"), .directory 1), ((1, ".."), .directory 0),
      ((1, "full"), .file 0), ((1, "null"), .file 1),
      ((0, "tmp"), .directory 2), ((2, ".."), .directory 0),
      ((2, "folder.000"), .directory 3), ((3, ".."), .directory 2)]
  directories := 4
  files := [.full, .sink]
  opened := []

/-! ### Following paths -/

/-- Where a piece of a path leads to. Nothing lies below a file. -/
def step? (folder : Folder) (node : Node) (piece : String) : Option Node :=
  match node with
  | .file _ => none
  | .directory number =>
      if FilePath.Blank piece then some node else folder.names.lookup (number, piece)

/-- The file or directory at a path. -/
def find? (folder : Folder) (path : FilePath) : Option Node :=
  if path.Legible then path.foldlM folder.step? (.directory 0) else none

/-- The number of the file at a path. -/
def fileAt? (folder : Folder) (path : FilePath) : Option Nat :=
  match folder.find? path with
  | some (.file number) => some number
  | _ => none

/-- Whether there is a file or directory at a path. -/
def Exists (folder : Folder) (path : FilePath) : Prop := (folder.find? path).isSome

instance (folder : Folder) (path : FilePath) : Decidable (folder.Exists path) := by
  unfold Exists
  infer_instance

/-- Make a directory in another one. -/
def addDirectory (folder : Folder) (above : Nat) (name : String) : Nat × Folder :=
  let number := folder.directories
  (number,
    { folder with
      names := ((above, name), .directory number) :: ((number, ".."), .directory above)
        :: folder.names
      directories := number + 1 })

/-- Make an empty file in a directory. -/
def addFile (folder : Folder) (above : Nat) (name : String) : Nat × Folder :=
  let number := folder.files.length
  (number,
    { folder with
      names := ((above, name), .file number) :: folder.names
      files := folder.files ++ [.file []] })

/-- Follow the pieces of a path and make the directories that are missing;
whether that led to a directory. What was made before a piece in the way stays. -/
def clearWay (folder : Folder) (node : Node) : FilePath → Bool × Folder
  | [] =>
      match node with
      | .directory _ => (true, folder)
      | .file _ => (false, folder)
  | piece :: rest =>
      match folder.step? node piece, node with
      | some next, _ => folder.clearWay next rest
      | none, .file _ => (false, folder)
      | none, .directory above =>
          if FilePath.maxName < piece.utf8ByteSize then (false, folder)
          else
            let (number, folder) := folder.addDirectory above piece
            folder.clearWay (.directory number) rest

/-- Make a directory and those on the way to it. -/
def createDirectories (folder : Folder) (path : FilePath) : Bool × Folder :=
  if path.Legible then folder.clearWay (.directory 0) path else (false, folder)

/-- The file at a path, which is made if only it is missing. -/
def touch (folder : Folder) (path : FilePath) : Except StorageError (Nat × Folder) :=
  match folder.find? path, folder.find? path.dropLast, path.getLast? with
  | some (.file number), _, _ => .ok (number, folder)
  | none, some (.directory above), some name =>
      if path.Legible ∧ name.utf8ByteSize ≤ FilePath.maxName then .ok (folder.addFile above name)
      else .error (.io .system)
  | _, _, _ => .error (.io .system)

/-! ### The bytes of files -/

/-- The bytes of the file at a path. -/
def content? (folder : Folder) (path : FilePath) : Option Bytes := do
  let number ← folder.fileAt? path
  let medium ← folder.files[number]?
  return medium.content

/-- Put a medium in place of that of a file. -/
def setMedium (folder : Folder) (number : Nat) (medium : Medium) : Folder :=
  { folder with files := folder.files.set number medium }

/-- Change the file at a path, if there is one and it takes the change. -/
def change (folder : Folder) (path : FilePath) (work : Medium → Option Medium) : Folder :=
  let changed := do
    let number ← folder.fileAt? path
    let medium ← folder.files[number]?
    folder.setMedium number (← work medium)
  changed.getD folder

/-- Put bytes into the file at a path, from `offset` on. -/
def patch (folder : Folder) (path : FilePath) (offset : Nat) (bytes : Bytes) : Folder :=
  folder.change path (·.writeAt? offset bytes)

/-- Cut the file at a path to a length, or fill it up with zeros. -/
def resize (folder : Folder) (path : FilePath) (length : Nat) : Folder :=
  folder.change path fun medium => some (medium.resize length)

/-- Put bytes in place of those of the file at a path, which is made if only it
is missing. -/
def replace (folder : Folder) (path : FilePath) (bytes : Bytes) : Folder :=
  match folder.touch path with
  | .error _ => folder
  | .ok (_, folder) => folder.change path (·.replace? bytes)

/-! ### Open devices -/

/-- Whether some device holds a file. -/
def Held (folder : Folder) (number : Nat) : Prop :=
  ∃ held ∈ folder.opened, held.2.file = number

instance (folder : Folder) (number : Nat) : Decidable (folder.Held number) := by
  unfold Held
  infer_instance

/-- The open device of a name. -/
def device? (folder : Folder) (name : String) : Option OpenFile :=
  folder.opened.lookup name

/-- Close the device of a name and release its file. -/
def close (folder : Folder) (name : String) : Folder :=
  { folder with opened := folder.opened.filter (·.1 ≠ name) }

/-- Give a name to an open device. -/
def setOpened (folder : Folder) (name : String) (held : OpenFile) : Folder :=
  { folder.close name with opened := (name, held) :: (folder.close name).opened }

/-- Open a device on the file at a path, under a name. The folder that is left
may hold a new file also when the open fails. -/
def openDevice (folder : Folder) (name : String) (path : FilePath) :
    Except StorageError Unit × Folder :=
  match folder.touch path with
  | .error error => (.error error, folder)
  | .ok (number, folder) =>
      if folder.Held number then (.error .locked, folder)
      else
        match FileDevice.openOn (folder.files.getD number (.file [])) with
        | .error error => (.error error, folder)
        | .ok (device, medium) =>
            (.ok (), (folder.setMedium number medium).setOpened name ⟨number, device⟩)

/-- Open a device, after making the directories on the way to its file. -/
def openDeviceIn (folder : Folder) (name : String) (path : FilePath) :
    Except StorageError Unit × Folder :=
  match path.parent?.map folder.createDirectories with
  | none => folder.openDevice name path
  | some (true, folder) => folder.openDevice name path
  | some (false, folder) => (.error (.io .system), folder)

/-- Work on the open log file of a name. -/
def onDevice? {α : Type} (folder : Folder) (name : String) (work : LogFile → α × LogFile) :
    Option (α × Folder) := do
  let held ← folder.device? name
  let medium ← folder.files[held.file]?
  let (result, after) := work ⟨held.device, medium⟩
  return (result,
    (folder.setMedium held.file after.medium).setOpened name { held with device := after.device })

end Folder

end Logbook

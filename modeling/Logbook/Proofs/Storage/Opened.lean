import Logbook.Proofs.Storage.Mirrored
import Logbook.Storage.Folder

/-!
# What a log file is

A scan accepts the frames of regions, in the order of their numbers, in front of a torn
tail, and nothing else. It finds the frames and the cut in one way only. So a file is opened
exactly if its bytes are of that kind; it then has the frames and no more, and any other file
is left as it is.
-/

namespace Logbook

namespace Frame

variable {offset : Nat} {previous : Option Nat} {bytes : Bytes}

/-! ## What is seen -/

theorem widths_of_header {front : Bytes} (front_length : front.length = headerSize) :
    ((front.drop 4).take 4).length = 4 ∧ (front.drop 8).length = 8 := by
  rw [List.length_take, List.length_drop, List.length_drop, front_length]
  decide

/-- Sixteen bytes that open with the magic letters are the header of a frame. -/
theorem header_of_magic {front region : Bytes} (front_length : front.length = headerSize)
    (opened : front.take 4 = magic)
    (announced : Bytes.toNat ((front.drop 4).take 4) = region.length) :
    front = header ⟨Bytes.toNat (front.drop 8), region⟩ := by
  rcases widths_of_header front_length with ⟨length_width, lsn_width⟩
  have behind : (front.drop 4).drop 4 = front.drop 8 := List.drop_drop
  rw [header, ← announced, Bytes.ofNat_toNat length_width, Bytes.ofNat_toNat lsn_width, ← opened,
    ← behind, List.take_append_drop, List.take_append_drop]

/-- Eight bytes that close with the magic letters are the trailer of a frame. -/
theorem trailer_of_magic {back : Bytes} {chunk : Chunk} (back_length : back.length = trailerSize)
    (closed : back.drop 4 = trailerMagic)
    (announced : Bytes.toNat (back.take 4) = chunk.bytes.length) : back = trailer chunk := by
  have length_width : (back.take 4).length = 4 := by
    rw [List.length_take, back_length]
    decide
  rw [trailer, ← announced, Bytes.ofNat_toNat length_width, ← closed, List.take_append_drop]

/-- A header, a region and a trailer that agree on the length are a frame. -/
theorem exists_chunk_of_parts {front frame : Bytes} {length : Nat}
    (front_length : front.length = headerSize) (opened : front.take 4 = magic)
    (announced : Bytes.toNat ((front.drop 4).take 4) = length)
    (frame_length : frame.length = length + trailerSize)
    (closed : (frame.drop length).drop 4 = trailerMagic)
    (repeated : Bytes.toNat ((frame.drop length).take 4) = length) :
    ∃ chunk : Chunk, chunk.Fits ∧ chunk.lsn = Bytes.toNat (front.drop 8) ∧
      front ++ frame = encode chunk := by
  have region_length : (frame.take length).length = length :=
    List.length_take_of_le (by omega)
  have back_length : (frame.drop length).length = trailerSize := by
    rw [List.length_drop]
    omega
  rcases widths_of_header front_length with ⟨length_width, lsn_width⟩
  have length_lt : length < 256 ^ 4 := announced ▸ Bytes.toNat_lt length_width
  refine ⟨⟨Bytes.toNat (front.drop 8), frame.take length⟩, ⟨?_, Bytes.toNat_lt lsn_width⟩, rfl,
    ?_⟩
  · rw [region_length]
    exact length_lt
  · rw [encode_eq, ← header_of_magic front_length opened (announced.trans region_length.symm),
      ← trailer_of_magic back_length closed (repeated.trans region_length.symm),
      List.take_append_drop]

/-- Bytes are a torn tail, they open with a frame that comes after the previous one, or they
are seen to be corrupt. -/
theorem look_cases (offset : Nat) (previous : Option Nat) (bytes : Bytes) :
    Torn bytes ∨
      (∃ chunk : Chunk, ∃ rest, chunk.Fits ∧
        (∀ before, previous = some before → before < chunk.lsn) ∧ bytes = encode chunk ++ rest) ∨
      ∃ cause, look offset previous bytes = .corrupt cause := by
  unfold look
  split
  · rename_i headless
    exact .inl (.inl (Bytes.split?_eq_none_iff.mp headless))
  · rename_i front body headed
    rcases Bytes.split?_eq_some_iff.mp headed with ⟨rfl, front_length⟩
    dsimp only
    split
    · exact .inr (.inr ⟨_, rfl⟩)
    · rename_i opened
      split
      · rename_i unframed
        exact .inl ((torn_append_iff front_length).mpr
          ⟨not_not.mp opened, Bytes.split?_eq_none_iff.mp unframed⟩)
      · rename_i frame rest framed
        rcases Bytes.split?_eq_some_iff.mp framed with ⟨rfl, frame_length⟩
        split
        · exact .inr (.inr ⟨_, rfl⟩)
        · rename_i agree
          rw [not_or, not_not, not_not] at agree
          rcases exists_chunk_of_parts front_length (not_not.mp opened) rfl frame_length agree.1
            agree.2 with ⟨chunk, fits, lsn_eq, encoded⟩
          rw [← List.append_assoc, encoded]
          cases previous with
          | none => exact .inr (.inl ⟨chunk, rest, fits, nofun, rfl⟩)
          | some before =>
              dsimp only
              split
              · exact .inr (.inr ⟨_, rfl⟩)
              · rename_i above
                refine .inr (.inl ⟨chunk, rest, fits, ?_, rfl⟩)
                rintro _ ⟨⟩
                rw [lsn_eq]
                exact Nat.lt_of_not_le above

/-! ## What is scanned -/

/-- The bytes are the frames of some regions with a torn tail behind them. -/
structure Splits (content : Bytes) (chunks : List Chunk) (tail : Bytes) : Prop where
  sequence : Sequence chunks
  torn : Torn tail
  content_eq : content = chunks.flatMap encode ++ tail

/-- Only frames in order and a torn tail are scanned to the end. -/
theorem exists_splits_of_scanFrom {entries : List FrameEntry} {valid : Nat}
    (scanned : scanFrom offset previous bytes = .ok (entries, valid)) :
    ∃ chunks tail, Splits bytes chunks tail ∧
      ∀ before, previous = some before → ∀ chunk ∈ chunks, before < chunk.lsn := by
  fun_induction scanFrom offset previous bytes generalizing entries valid with
  | case1 offset previous bytes seen =>
      rcases look_cases offset previous bytes with
        torn | ⟨chunk, rest, fits, above, rfl⟩ | ⟨cause, corrupt⟩
      · exact ⟨[], bytes, ⟨Sequence.nil, torn, rfl⟩,
          fun _ _ _ member => absurd member List.not_mem_nil⟩
      · rw [look_encode fits above] at seen
        cases seen
      · rw [corrupt] at seen
        cases seen
  | case2 => cases scanned
  | case3 => cases scanned
  | case4 offset previous bytes length lsn rest seen entries' valid' found ih =>
      rcases look_cases offset previous bytes with
        torn | ⟨chunk, rest', fits, above, rfl⟩ | ⟨cause, corrupt⟩
      · rw [look_of_torn torn] at seen
        cases seen
      · rw [look_encode fits above] at seen
        cases seen
        rcases ih found with ⟨chunks, tail, splits, follow⟩
        have ordered : ∀ other ∈ chunks, chunk.lsn < other.lsn := follow chunk.lsn rfl
        refine ⟨chunk :: chunks, tail, ⟨⟨?_, ?_⟩, splits.torn, ?_⟩, ?_⟩
        · exact List.forall_mem_cons.mpr ⟨fits, splits.sequence.fits⟩
        · exact List.pairwise_cons.mpr ⟨ordered, splits.sequence.ordered⟩
        · rw [splits.content_eq, List.flatMap_cons, List.append_assoc]
        · intro before preceded
          have first := above before preceded
          exact List.forall_mem_cons.mpr
            ⟨first, fun other member => Nat.lt_trans first (ordered other member)⟩
      · rw [corrupt] at seen
        cases seen

end Frame

namespace AppendLog

/-- A log file has one log behind it. -/
theorem regions_of_file_eq {log other : AppendLog} (same : log.file = other.file) :
    log.regions = other.regions := by
  have bytes_eq : log.bytes = other.bytes := congrArg (·.medium.content) same
  have frames_eq : Frame.index 0 log.regions = Frame.index 0 other.regions :=
    congrArg (·.device.frames) same
  rw [← map_chunkOf_file log, frames_eq, bytes_eq, map_chunkOf_file other]

end AppendLog

namespace Frame.Splits

variable {content tail : Bytes} {chunks : List Chunk}

theorem openOn (splits : Splits content chunks tail) :
    LogFile.openOn (.file content) = .ok (AppendLog.file ⟨chunks, 0⟩) := by
  rw [splits.content_eq]
  exact AppendLog.openOn_frames splits.sequence splits.torn

/-- Bytes are frames and a torn tail in one way only. -/
theorem unique (splits : Splits content chunks tail) {others : List Chunk} {rest : Bytes}
    (other : Splits content others rest) : others = chunks ∧ rest = tail := by
  have opened := other.openOn.symm.trans splits.openOn
  have regions_eq : others = chunks := AppendLog.regions_of_file_eq (Except.ok.inj opened)
  have content_eq := other.content_eq.symm.trans splits.content_eq
  rw [regions_eq] at content_eq
  exact ⟨regions_eq, List.append_cancel_left content_eq⟩

end Frame.Splits

namespace FileDevice

theorem openOn_of_openOn {medium : Medium} {file : LogFile}
    (opened : LogFile.openOn medium = .ok file) : openOn medium = .ok (file.device, file.medium) := by
  unfold LogFile.openOn at opened
  cases result : openOn medium with
  | error error =>
      rw [result] at opened
      cases opened
  | ok parts =>
      rw [result] at opened
      cases opened
      rfl

/-- A file is opened as the log of the regions that its bytes are split into, or it is
corrupt. -/
theorem openOn_cases (content : Bytes) :
    (∃ chunks tail, Frame.Splits content chunks tail ∧
      openOn (.file content) =
        .ok ((AppendLog.file ⟨chunks, 0⟩).device, (AppendLog.file ⟨chunks, 0⟩).medium)) ∨
      (¬ ∃ chunks tail, Frame.Splits content chunks tail) ∧
        ∃ cause, openOn (.file content) = .error (.corrupted cause) := by
  cases scanned : Frame.scan content with
  | ok result =>
      rcases Frame.exists_splits_of_scanFrom scanned with ⟨chunks, tail, splits, _⟩
      exact .inl ⟨chunks, tail, splits, openOn_of_openOn splits.openOn⟩
  | error cause =>
      have refused : openOn (.file content) = .error (.corrupted cause) := by
        simp only [openOn, Medium.content, scanned]
      refine .inr ⟨?_, cause, refused⟩
      rintro ⟨chunks, tail, splits⟩
      rw [openOn_of_openOn splits.openOn] at refused
      cases refused

end FileDevice

namespace Folder

/-- A device of this name was opened on a file: the file has become the frames of the regions
and nothing else, the other files are as they were, and the device has the regions too. -/
structure Opens (folder after : Folder) (name : String) (number : Nat) (chunks : List Chunk) :
    Prop where
  files_eq : after.files = folder.files.set number (.file (chunks.flatMap Frame.encode))
  device_eq : after.device? name =
    some ⟨number, ⟨Frame.index 0 chunks, 0, (chunks.flatMap Frame.encode).length, false⟩⟩
  reads : Device.Reads (⟨⟨Frame.index 0 chunks, 0, (chunks.flatMap Frame.encode).length, false⟩,
    .file (chunks.flatMap Frame.encode)⟩ : LogFile) chunks

variable {folder : Folder} {path : FilePath} {number : Nat} {content : Bytes}

theorem find?_of_fileAt? (found : folder.fileAt? path = some number) :
    folder.find? path = some (.file number) := by
  unfold fileAt? at found
  split at found
  · rename_i there
    cases found
    exact there
  · cases found

theorem touch_of_fileAt? (found : folder.fileAt? path = some number) :
    folder.touch path = .ok (number, folder) := by
  rw [touch, find?_of_fileAt? found]

/-- What opening a device on a file comes to, if no other device holds it. -/
theorem openDevice_eq (found : folder.fileAt? path = some number)
    (there : folder.files[number]? = some (.file content)) (unlocked : ¬ folder.Held number)
    (name : String) :
    folder.openDevice name path =
      match FileDevice.openOn (.file content) with
      | .error error => (.error error, folder)
      | .ok (device, medium) =>
          (.ok (), (folder.setMedium number medium).setOpened name ⟨number, device⟩) := by
  have held_there : folder.files.getD number (.file []) = .file content := by
    rw [List.getD_eq_getElem?_getD, there, Option.getD_some]
  cases opened : FileDevice.openOn (.file content) <;>
    simp only [openDevice, touch_of_fileAt? found, if_neg unlocked, held_there, opened]

theorem opens_setOpened (folder : Folder) (name : String) (number : Nat) (chunks : List Chunk) :
    folder.Opens ((folder.setMedium number (AppendLog.file ⟨chunks, 0⟩).medium).setOpened name
      ⟨number, (AppendLog.file ⟨chunks, 0⟩).device⟩) name number chunks where
  files_eq := rfl
  device_eq := List.lookup_cons_self
  reads := LogFile.reads_file ⟨chunks, 0⟩

/-- A file that no device holds is opened exactly if its bytes are the frames of regions, in
the order of their numbers, with a torn tail behind them. These are then the only ones, and
the file loses the tail. Any other file is corrupt and stays as it is. -/
theorem openDevice_exact (found : folder.fileAt? path = some number)
    (there : folder.files[number]? = some (.file content)) (unlocked : ¬ folder.Held number)
    (name : String) :
    ((folder.openDevice name path).1 = .ok () ↔
      ∃ chunks tail, Frame.Splits content chunks tail) ∧
    (∀ chunks tail, Frame.Splits content chunks tail →
      (∀ others rest, Frame.Splits content others rest → others = chunks ∧ rest = tail) ∧
        folder.Opens (folder.openDevice name path).2 name number chunks) ∧
    ((¬ ∃ chunks tail, Frame.Splits content chunks tail) →
      ∃ cause, folder.openDevice name path = (.error (.corrupted cause), folder)) := by
  rw [openDevice_eq found there unlocked]
  rcases FileDevice.openOn_cases content with
    ⟨chunks, tail, splits, opened⟩ | ⟨unsplit, cause, refused⟩
  · rw [opened]
    refine ⟨⟨fun _ => ⟨chunks, tail, splits⟩, fun _ => rfl⟩, ?_, ?_⟩
    · intro others rest other_splits
      rcases splits.unique other_splits with ⟨rfl, rfl⟩
      exact ⟨fun _ _ => splits.unique, opens_setOpened folder name number others⟩
    · intro unsplit
      exact absurd ⟨chunks, tail, splits⟩ unsplit
  · rw [refused]
    refine ⟨⟨nofun, fun split => absurd split unsplit⟩, ?_, fun _ => ⟨cause, rfl⟩⟩
    intro chunks tail splits
    exact absurd ⟨chunks, tail, splits⟩ unsplit

/-- Two regions, the older one with the letters that open a frame. -/
def shelvedRegions : List Chunk := [⟨5, Frame.magic⟩, ⟨9, []⟩]

/-- What a crash has left of a third frame, whose number would be out of order. -/
def shelvedTail : Bytes := (Frame.encode ⟨3, [7]⟩).take 20

/-- The place of a log file. -/
def shelfPath : FilePath := ["", "tmp", "folder.000", "log"]

/-- A folder with one log file. -/
def shelf : Folder :=
  { fresh with
    names := ((3, "log"), .file 2) :: fresh.names
    files := [.full, .sink, .file (shelvedRegions.flatMap Frame.encode ++ shelvedTail)] }

theorem fileAt?_shelf : shelf.fileAt? shelfPath = some 2 := by
  have legible : shelfPath.Legible := ⟨by decide, by simp [shelfPath]⟩
  have followed : shelf.find? shelfPath = some (.file 2) := if_pos legible
  rw [fileAt?, followed]

theorem splits_shelved :
    Frame.Splits (shelvedRegions.flatMap Frame.encode ++ shelvedTail) shelvedRegions
      shelvedTail where
  sequence := ⟨by decide, by decide⟩
  torn := .inr (by decide)
  content_eq := rfl

theorem openDevice_exact_shelf :
    shelf.fileAt? shelfPath = some 2 ∧
      shelf.files[2]? = some (.file (shelvedRegions.flatMap Frame.encode ++ shelvedTail)) ∧
      ¬ shelf.Held 2 ∧ (shelf.openDevice "a" shelfPath).1 = .ok () ∧
      (shelf.openDevice "a" shelfPath).2.files =
        [.full, .sink, .file (shelvedRegions.flatMap Frame.encode)] := by
  have there : shelf.files[2]? =
      some (.file (shelvedRegions.flatMap Frame.encode ++ shelvedTail)) := rfl
  have unlocked : ¬ shelf.Held 2 := by decide
  rcases openDevice_exact fileAt?_shelf there unlocked "a" with ⟨accepted, opens, _⟩
  exact ⟨fileAt?_shelf, there, unlocked, accepted.mpr ⟨_, _, splits_shelved⟩,
    (opens _ _ splits_shelved).2.files_eq⟩

end Folder

end Logbook

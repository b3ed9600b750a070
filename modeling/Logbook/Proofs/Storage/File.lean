import Logbook.Proofs.Storage.Reliable

/-!
# Log files keep what is written

An intact log file has the regions of all its frames in its bytes. A new frame
goes behind them and covers none of them.
-/

namespace Logbook

/-- The bytes of `length` at `offset`. -/
def Bytes.slice (bytes : Bytes) (offset length : Nat) : Bytes :=
  (bytes.drop offset).take length

theorem Bytes.slice_append_left {front back : Bytes} {offset length : Nat}
    (inside : offset + length ≤ front.length) :
    slice (front ++ back) offset length = slice front offset length := by
  rw [slice, slice, List.drop_append_of_le_length (by omega), List.take_append_of_le_length]
  rw [List.length_drop]
  omega

namespace Frame

/-- The bytes of a frame in front of its region. -/
def header (chunk : Chunk) : Bytes :=
  magic ++ (Bytes.ofNat 4 chunk.bytes.length ++ Bytes.ofNat 8 chunk.lsn)

/-- The bytes of a frame after its region. -/
def trailer (chunk : Chunk) : Bytes :=
  Bytes.ofNat 4 chunk.bytes.length ++ trailerMagic

theorem encode_eq (chunk : Chunk) :
    encode chunk = header chunk ++ (chunk.bytes ++ trailer chunk) := by
  simp only [encode, header, trailer, List.append_assoc]

theorem length_header (chunk : Chunk) : (header chunk).length = headerSize := by
  simp [header, magic, headerSize]

theorem length_trailer (chunk : Chunk) : (trailer chunk).length = trailerSize := by
  simp [trailer, trailerMagic, trailerSize]

theorem length_encode (chunk : Chunk) :
    (encode chunk).length = size chunk.bytes.length := by
  rw [encode_eq, List.length_append, List.length_append, length_header, length_trailer, size,
    Nat.add_assoc]

/-- The region of a frame lies behind its header. -/
theorem slice_encode (front back : Bytes) (chunk : Chunk) :
    (front ++ (encode chunk ++ back)).slice (front.length + headerSize) chunk.bytes.length =
      chunk.bytes := by
  rw [Bytes.slice, encode_eq, List.append_assoc, List.append_assoc, ← List.append_assoc front,
    ← length_header chunk, ← List.length_append, List.drop_left, List.take_left]

end Frame

namespace LogFile

/-- The region of a frame. -/
def chunkOf (content : Bytes) (entry : FrameEntry) : Chunk :=
  ⟨entry.lsn, content.slice entry.payloadOffset entry.length⟩

/-- The device works on an ordinary file that has all its frames. -/
structure Holds (file : LogFile) (content : Bytes) : Prop where
  medium : file.medium = .file content
  poisoned : file.device.poisoned = false
  size_le : file.device.size ≤ content.length
  inside : ∀ entry ∈ file.device.frames, entry.payloadOffset + entry.length ≤ file.device.size

variable {file : LogFile} {content : Bytes}

theorem resize_of_le {length : Nat} (le : length ≤ content.length) :
    (Medium.file content).resize length = .file (content.take length) := by
  rw [Medium.resize, Nat.sub_eq_zero_of_le le, List.replicate_zero, List.append_nil]

theorem readAt?_of_inside {content : Bytes} {offset length : Nat}
    (inside : offset + length ≤ content.length) :
    (Medium.file content).readAt? offset length = some (content.slice offset length) := by
  have taken : ((content.drop offset).take length).length = length := by
    rw [List.length_take, List.length_drop]
    omega
  simp only [Medium.readAt?, Medium.content, Bytes.split?, taken, ↓reduceIte, Option.map_some,
    Bytes.slice]

/-- The region of a frame is read from the bytes of the file. -/
theorem readFrame_of_inside {entry : FrameEntry}
    (inside : entry.payloadOffset + entry.length ≤ content.length) :
    FileDevice.readFrame (.file content) entry = .ok (some (chunkOf content entry)) := by
  simp only [FileDevice.readFrame, readAt?_of_inside inside, chunkOf]

theorem readBackward_of_cursor {frames : List FrameEntry} {size count : Nat}
    (le : count ≤ frames.length) (size_le : size ≤ content.length)
    (inside : ∀ entry ∈ frames, entry.payloadOffset + entry.length ≤ size) :
    Device.readBackward count (⟨⟨frames, count, size, false⟩, .file content⟩ : LogFile) =
      ((frames.take count).map (chunkOf content)).reverse.map .ok := by
  induction count with
  | zero => rfl
  | succ count ih =>
      have found : frames[count]? = some frames[count] := List.getElem?_eq_getElem le
      have whole := readFrame_of_inside
        (Nat.le_trans (inside frames[count] (List.getElem_mem le)) size_le)
      have read : Device.read (⟨⟨frames, count + 1, size, false⟩, .file content⟩ : LogFile)
          .backward = (.ok (some (chunkOf content frames[count])),
            ⟨⟨frames, count, size, false⟩, .file content⟩) := by
        simp only [Device.read, FileDevice.read, Bool.false_eq_true, ↓reduceIte, Nat.succ_ne_zero,
          Nat.add_sub_cancel, found, whole]
      rw [Device.readBackward, read]
      simp only [ih (Nat.le_of_succ_le le)]
      rw [List.take_succ_eq_append_getElem le, List.map_append, List.reverse_append]
      rfl

theorem Holds.reads (holds : file.Holds content) :
    Device.Reads file (file.device.frames.map (chunkOf content)) := by
  rcases file with ⟨⟨frames, cursor, size, poisoned⟩, medium⟩
  rcases holds with ⟨rfl, rfl, size_le, inside⟩
  have read := readBackward_of_cursor (Nat.le_refl frames.length) size_le inside
  rw [List.take_length] at read
  exact read

theorem overwrite_of_le {size : Nat} (size_le : size ≤ content.length) (bytes : Bytes) :
    Medium.overwrite content size bytes =
      content.take size ++ (bytes ++ content.drop (size + bytes.length)) := by
  rw [Medium.overwrite, Nat.sub_eq_zero_of_le size_le]
  simp

/-- A write that succeeds puts the region behind the others. -/
theorem Holds.write_ok (holds : file.Holds content) {after : LogFile} {bytes : Bytes}
    {lsn count : Nat} (written : Device.write file bytes lsn = (.ok count, after)) :
    ∃ content', after.Holds content' ∧
      after.device.frames.map (chunkOf content') =
        file.device.frames.map (chunkOf content) ++ [⟨lsn, bytes⟩] := by
  rcases file with ⟨⟨frames, cursor, size, poisoned⟩, medium⟩
  rcases holds with ⟨rfl, rfl, size_le, inside⟩
  simp only [Device.write, FileDevice.write, Bool.false_eq_true, ↓reduceIte,
    Medium.writeAt?] at written
  split at written
  · cases written
  · split at written
    · cases written
    · cases written
      have front : (content.take size).length = size := by
        rw [List.length_take]
        exact Nat.min_eq_left size_le
      refine ⟨_, ⟨rfl, rfl, ?_, fun entry member => ?_⟩, ?_⟩
      · rw [overwrite_of_le size_le, List.length_append, front, List.length_append,
          Frame.length_encode]
        dsimp only
        omega
      · rcases List.mem_append.mp member with old | new
        · exact Nat.le_trans (inside entry old) (Nat.le_add_right _ _)
        · cases List.mem_singleton.mp new
          simp only [FrameEntry.payloadOffset, Frame.size]
          omega
      · rw [overwrite_of_le size_le, List.map_append]
        congr 1
        · refine List.map_congr_left ?_
          intro entry member
          have within : entry.payloadOffset + entry.length ≤ (content.take size).length := by
            rw [front]
            exact inside entry member
          have before : content.slice entry.payloadOffset entry.length =
              Bytes.slice (content.take size) entry.payloadOffset entry.length := by
            rw [← Bytes.slice_append_left within, List.take_append_drop]
          rw [chunkOf, chunkOf, before, Bytes.slice_append_left within]
        · have new := Frame.slice_encode (content.take size)
            (content.drop (size + (Frame.encode ⟨lsn, bytes⟩).length)) ⟨lsn, bytes⟩
          rw [front] at new
          rw [List.map_singleton, chunkOf, FrameEntry.payloadOffset, new]

theorem Holds.le_of_outOfOrder (holds : file.Holds content) {after : LogFile} {bytes : Bytes}
    {lsn number last : Nat}
    (refused : Device.write file bytes lsn = (.error (.outOfOrder number last), after)) :
    ∃ entry, file.device.frames.getLast? = some entry ∧ lsn ≤ entry.lsn := by
  rcases file with ⟨⟨frames, cursor, size, poisoned⟩, medium⟩
  rcases holds with ⟨rfl, rfl, size_le, inside⟩
  simp only [Device.write, FileDevice.write, Bool.false_eq_true, ↓reduceIte,
    Medium.writeAt?] at refused
  split at refused
  · rename_i entry found
    rcases Option.filter_eq_some_iff.mp found with ⟨newest, le⟩
    exact ⟨entry, newest, of_decide_eq_true le⟩
  · split at refused
    · cases refused
    · cases refused

theorem Holds.sync_ok (holds : file.Holds content) {after : LogFile}
    (synced : Device.sync file = (.ok (), after)) : after = file := by
  rcases file with ⟨⟨frames, cursor, size, poisoned⟩, medium⟩
  rcases holds with ⟨rfl, rfl, size_le, inside⟩
  cases synced
  rfl

/-- A log file is intact if it has all its frames. -/
instance : Device.Reliable LogFile where
  Intact file := ∃ content, file.Holds content
  reads file intact := by
    rcases intact with ⟨content, holds⟩
    exact ⟨_, holds.reads⟩
  write_ok file after bytes lsn count chunks intact reads written := by
    rcases intact with ⟨content, holds⟩
    rcases holds.write_ok written with ⟨content', holds', regions⟩
    constructor
    · exact ⟨content', holds'⟩
    · rw [reads.unique holds.reads, ← regions]
      exact holds'.reads
  sync_ok file after chunks intact reads synced := by
    rcases intact with ⟨content, holds⟩
    rw [holds.sync_ok synced]
    exact ⟨⟨content, holds⟩, reads⟩
  le_of_outOfOrder file after bytes lsn number last chunks intact reads refused := by
    rcases intact with ⟨content, holds⟩
    rcases holds.le_of_outOfOrder refused with ⟨entry, newest, le⟩
    refine ⟨chunkOf content entry, ?_, le⟩
    rw [reads.unique holds.reads, List.getLast?_map, newest]
    rfl

/-- The frames that a scan finds lie inside the bytes that it accepts. -/
theorem scanFrom_spec {offset : Nat} {previous : Option Nat} {bytes : Bytes}
    {entries : List FrameEntry} {valid : Nat}
    (scanned : Frame.scanFrom offset previous bytes = .ok (entries, valid)) :
    offset ≤ valid ∧ valid ≤ offset + bytes.length ∧
      ∀ entry ∈ entries, entry.payloadOffset + entry.length ≤ valid := by
  fun_induction Frame.scanFrom offset previous bytes generalizing entries valid with
  | case1 offset previous bytes torn =>
      cases scanned
      simp
  | case2 offset previous bytes cause corrupt => cases scanned
  | case3 offset previous bytes length lsn rest seen cause failed ih => cases scanned
  | case4 offset previous bytes length lsn rest seen entries' valid' found ih =>
      cases scanned
      rcases ih found with ⟨le_valid, valid_le, inside⟩
      have total := Frame.length_of_look seen
      refine ⟨by omega, by omega, List.forall_mem_cons.mpr ⟨?_, inside⟩⟩
      simp only [FrameEntry.payloadOffset, Frame.size] at le_valid ⊢
      omega

/-- Opening an ordinary file leaves it intact. -/
theorem intact_of_openOn {content : Bytes} {file : LogFile}
    (opened : openOn (.file content) = .ok file) : Device.Reliable.Intact file := by
  unfold openOn FileDevice.openOn at opened
  split at opened
  · cases opened
  · rename_i frames valid scanned
    rcases scanFrom_spec scanned with ⟨_, valid_le, inside⟩
    rw [Nat.zero_add] at valid_le
    cases opened
    refine ⟨content.take valid, ?_, rfl, ?_, inside⟩
    · dsimp only
      split
      · exact resize_of_le valid_le
      · rename_i whole
        have all : content.take valid = content := List.take_of_length_le (Nat.not_lt.mp whole)
        rw [all]
    · rw [List.length_take]
      exact Nat.le_min.mpr ⟨Nat.le_refl _, valid_le⟩

end LogFile

namespace Volume

theorem newestFirst_memory (device : MemoryDevice) :
    Device.newestFirst (memory device) = Device.newestFirst device :=
  newestFirst_around memory (fun _ => rfl) (fun _ => rfl) (fun _ => rfl) device

theorem newestFirst_file (held : LogFile) :
    Device.newestFirst (file held) = Device.newestFirst held :=
  newestFirst_around file (fun _ => rfl) (fun _ => rfl) (fun _ => rfl) held

theorem reads_memory {device : MemoryDevice} {chunks : List Chunk} :
    Device.Reads (memory device) chunks ↔ Device.Reads device chunks := by
  rw [Device.Reads, newestFirst_memory, Device.Reads]

theorem reads_file {held : LogFile} {chunks : List Chunk} :
    Device.Reads (file held) chunks ↔ Device.Reads held chunks := by
  rw [Device.Reads, newestFirst_file, Device.Reads]

/-- A volume is intact if the device that it is on is. -/
instance : Device.Reliable Volume where
  Intact
    | memory device => Device.Reliable.Intact device
    | file held => Device.Reliable.Intact held
  reads volume intact := by
    cases volume with
    | memory device =>
        rcases Device.Reliable.reads device intact with ⟨chunks, reads⟩
        exact ⟨chunks, reads_memory.mpr reads⟩
    | file held =>
        rcases Device.Reliable.reads held intact with ⟨chunks, reads⟩
        exact ⟨chunks, reads_file.mpr reads⟩
  write_ok volume after bytes lsn count chunks intact reads written := by
    cases volume with
    | memory device =>
        rcases Prod.mk.inj written with ⟨result, rfl⟩
        obtain ⟨intact, reads⟩ := Device.Reliable.write_ok device _ bytes lsn count chunks intact
          (reads_memory.mp reads) (Prod.ext result rfl)
        exact ⟨intact, reads_memory.mpr reads⟩
    | file held =>
        rcases Prod.mk.inj written with ⟨result, rfl⟩
        obtain ⟨intact, reads⟩ := Device.Reliable.write_ok held _ bytes lsn count chunks intact
          (reads_file.mp reads) (Prod.ext result rfl)
        exact ⟨intact, reads_file.mpr reads⟩
  sync_ok volume after chunks intact reads synced := by
    cases volume with
    | memory device =>
        rcases Prod.mk.inj synced with ⟨result, rfl⟩
        obtain ⟨intact, reads⟩ := Device.Reliable.sync_ok device _ chunks intact
          (reads_memory.mp reads) (Prod.ext result rfl)
        exact ⟨intact, reads_memory.mpr reads⟩
    | file held =>
        rcases Prod.mk.inj synced with ⟨result, rfl⟩
        obtain ⟨intact, reads⟩ := Device.Reliable.sync_ok held _ chunks intact
          (reads_file.mp reads) (Prod.ext result rfl)
        exact ⟨intact, reads_file.mpr reads⟩
  le_of_outOfOrder volume after bytes lsn number last chunks intact reads refused := by
    cases volume with
    | memory device =>
        exact Device.Reliable.le_of_outOfOrder device _ bytes lsn number last chunks intact
          (reads_memory.mp reads) (Prod.ext (Prod.mk.inj refused).1 rfl)
    | file held =>
        exact Device.Reliable.le_of_outOfOrder held _ bytes lsn number last chunks intact
          (reads_file.mp reads) (Prod.ext (Prod.mk.inj refused).1 rfl)

end Volume

end Logbook

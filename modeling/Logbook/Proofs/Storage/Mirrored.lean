import Logbook.Proofs.Storage.Framed

/-!
# Devices do what their log does

The state of a log file follows from the log behind it: its bytes are the frames of the
regions, and its index says where they are. Each event keeps that so, also a crash, which
leaves the frames that end before the cut once the file is open again. A disk in memory
follows the log likewise. So both give the answers of the log, in any run of events.
-/

namespace Logbook

namespace DeviceEvent

/-- The region of a write fits a frame. -/
def Fits : DeviceEvent → Prop
  | write bytes lsn => Chunk.Fits ⟨lsn, bytes⟩
  | sync | seek _ | read _ | reopen | crash _ => True

instance (event : DeviceEvent) : Decidable event.Fits := by
  cases event <;> unfold Fits <;> infer_instance

/-- Two systems give the same answers in a run if they do so at each event, and stay
related. -/
theorem play_related {σ τ : Type} {first : σ → DeviceEvent → DeviceAnswer × σ}
    {second : τ → DeviceEvent → DeviceAnswer × τ} {Related : σ → τ → Prop}
    (step : ∀ state other event, event.Fits → Related state other →
      (first state event).1 = (second other event).1 ∧
        Related (first state event).2 (second other event).2)
    {events : List DeviceEvent} (fits : ∀ event ∈ events, event.Fits) {state : σ} {other : τ}
    (related : Related state other) :
    (play first state events).1 = (play second other events).1 ∧
      Related (play first state events).2 (play second other events).2 := by
  induction events generalizing state other with
  | nil => exact ⟨rfl, related⟩
  | cons event events ih =>
      rcases List.forall_mem_cons.mp fits with ⟨event_fits, fits⟩
      rcases step state other event event_fits related with ⟨same, related⟩
      rcases ih fits related with ⟨rest, related⟩
      exact ⟨congrArg₂ List.cons same rest, related⟩

end DeviceEvent

namespace AppendLog

/-- A file can hold the regions of the log, and the cursor is at most behind them all. -/
structure Sound (log : AppendLog) : Prop where
  sequence : Frame.Sequence log.regions
  cursor_le : log.cursor ≤ log.regions.length

/-- The bytes of a file with the regions of a log. -/
def bytes (log : AppendLog) : Bytes :=
  log.regions.flatMap Frame.encode

/-- The log file that a log stands for. -/
def file (log : AppendLog) : LogFile :=
  ⟨⟨Frame.index 0 log.regions, log.cursor, log.bytes.length, false⟩, .file log.bytes⟩

variable {log : AppendLog}

theorem Sound.append (sound : log.Sound) {chunk : Chunk} (fits : chunk.Fits)
    (above : Frame.Above log.regions chunk.lsn) : (log.append chunk).Sound where
  sequence := sound.sequence.concat fits above
  cursor_le := by
    rw [AppendLog.append, List.length_append]
    exact Nat.le_trans sound.cursor_le (Nat.le_add_right _ _)

theorem sound_crashed (sound : log.Sound) (offset : Nat) : (log.crashed offset).Sound where
  sequence := sound.sequence.of_prefix (Frame.endingBy_prefix offset 0 log.regions)
  cursor_le := Nat.zero_le _

/-- A log that takes a write has its number above the others; one that refuses it stays as
it is. -/
theorem answer_write (log : AppendLog) (bytes : Bytes) (lsn : Nat) :
    Frame.Above log.regions lsn ∧
        log.answer (.write bytes lsn) = (.done, log.append ⟨lsn, bytes⟩) ∨
      ∃ last, log.regions.getLast? = some last ∧ lsn ≤ last.lsn ∧
        log.answer (.write bytes lsn) = (.failed (.outOfOrder lsn last.lsn), log) := by
  simp only [answer, Frame.Above]
  cases newest : log.regions.getLast? with
  | none => exact .inl ⟨nofun, rfl⟩
  | some last =>
      by_cases above : last.lsn < lsn
      · exact .inl ⟨by rintro _ ⟨⟩; exact above, if_pos above⟩
      · exact .inr ⟨last, rfl, Nat.not_lt.mp above, if_neg above⟩

theorem Sound.answer (sound : log.Sound) {event : DeviceEvent} (fits : event.Fits) :
    (log.answer event).2.Sound := by
  cases event with
  | write bytes lsn =>
      rcases log.answer_write bytes lsn with ⟨above, taken⟩ | ⟨last, _, _, refused⟩
      · rw [taken]
        exact sound.append fits above
      · rw [refused]
        exact sound
  | sync => exact sound
  | seek position =>
      cases position with
      | start => exact ⟨sound.sequence, Nat.zero_le _⟩
      | «end» => exact ⟨sound.sequence, Nat.le_refl _⟩
  | read direction =>
      cases direction with
      | forward =>
          rw [AppendLog.answer]
          split
          · exact sound
          · rename_i chunk found
            exact ⟨sound.sequence, (List.getElem?_eq_some_iff.mp found).1⟩
      | backward =>
          rw [AppendLog.answer]
          split
          · exact sound
          · exact ⟨sound.sequence, Nat.le_trans (Nat.sub_le _ _) sound.cursor_le⟩
  | reopen => exact ⟨sound.sequence, Nat.zero_le _⟩
  | crash offset => exact sound_crashed sound offset

/-! ## Log files -/

theorem bytes_append (log : AppendLog) (chunk : Chunk) :
    (log.append chunk).bytes = log.bytes ++ Frame.encode chunk := by
  rw [bytes, append, List.flatMap_append, List.flatMap_singleton, bytes]

/-- A write with a number above the others puts a frame behind the file. -/
theorem write_file_of_above {chunk : Chunk} (fits : chunk.Fits)
    (above : Frame.Above log.regions chunk.lsn) :
    Device.write log.file chunk.bytes chunk.lsn =
      (.ok (Frame.size chunk.bytes.length), (log.append chunk).file) := by
  -- The device compares with the newest frame, which has the number of the newest region.
  have newest := Frame.getLast?_index 0 log.regions
  have newer : (Frame.index 0 log.regions).getLast?.filter (chunk.lsn ≤ ·.lsn) = none := by
    rw [Option.filter_eq_none_iff]
    intro entry found
    rw [found] at newest
    rcases Option.map_eq_some_iff.mp newest.symm with
      ⟨last, last_eq, same : last.lsn = entry.lsn⟩
    rw [← same, decide_eq_true_eq]
    exact Nat.not_le.mpr (above last last_eq)
  have room : ¬ FileDevice.maxRegion < chunk.bytes.length := by
    have := fits.length_lt
    rw [FileDevice.maxRegion, UInt32.size]
    omega
  have appended : Medium.overwrite log.bytes log.bytes.length (Frame.encode chunk) =
      (log.append chunk).bytes := by
    rw [LogFile.overwrite_of_le (Nat.le_refl _), List.take_length,
      List.drop_eq_nil_of_le (Nat.le_add_right _ _), List.append_nil, bytes_append]
  have longer : log.bytes.length + Frame.size chunk.bytes.length =
      (log.append chunk).bytes.length := by
    rw [bytes_append, List.length_append, Frame.length_encode]
  have indexed : Frame.index 0 log.regions ++
      [⟨log.bytes.length, chunk.bytes.length, chunk.lsn⟩] =
        Frame.index 0 (log.append chunk).regions := by
    rw [append, Frame.index_concat, Nat.zero_add]
    rfl
  simp only [Device.write, FileDevice.write, file, newer, room, Medium.writeAt?, appended, longer,
    indexed, Bool.false_eq_true, ↓reduceIte]
  rfl

/-- A write with another number leaves the file and the device as they are. -/
theorem write_file_of_le {bytes : Bytes} {lsn : Nat} {last : Chunk}
    (newest : log.regions.getLast? = some last) (le : lsn ≤ last.lsn) :
    Device.write log.file bytes lsn = (.error (.outOfOrder lsn last.lsn), log.file) := by
  have indexed := Frame.getLast?_index 0 log.regions
  rw [newest] at indexed
  rcases Option.map_eq_some_iff.mp indexed with ⟨entry, entry_eq, same⟩
  have refused : (Frame.index 0 log.regions).getLast?.filter (lsn ≤ ·.lsn) = some entry := by
    rw [entry_eq, Option.filter_some, if_pos]
    rw [same]
    exact decide_eq_true le
  simp only [Device.write, FileDevice.write, file, refused, same, Bool.false_eq_true, ↓reduceIte]

/-- Every region of the log lies in the file where the index says. -/
theorem map_chunkOf_file (log : AppendLog) :
    (Frame.index 0 log.regions).map (LogFile.chunkOf log.bytes) = log.regions :=
  Frame.map_chunkOf_index [] log.regions

theorem holds_file (log : AppendLog) : log.file.Holds log.bytes := by
  refine ⟨rfl, rfl, Nat.le_refl _, ?_⟩
  intro entry member
  have inside := Frame.inside_of_mem_index member
  rw [Nat.zero_add] at inside
  exact inside

/-- A region is read from the frame that the index has in its place. -/
theorem exists_readFrame_of_getElem? {place : Nat} {chunk : Chunk}
    (found : log.regions[place]? = some chunk) :
    ∃ entry, (Frame.index 0 log.regions)[place]? = some entry ∧
      FileDevice.readFrame (.file log.bytes) entry = .ok (some chunk) := by
  rw [← map_chunkOf_file log, List.getElem?_map] at found
  rcases Option.map_eq_some_iff.mp found with ⟨entry, entry_eq, rfl⟩
  have inside := (holds_file log).inside entry (List.mem_of_getElem? entry_eq)
  exact ⟨entry, entry_eq, LogFile.readFrame_of_inside inside⟩

theorem read_file_forward (log : AppendLog) :
    Device.answer log.file (.read .forward) =
      ((log.answer (.read .forward)).1, (log.answer (.read .forward)).2.file) := by
  rw [answer]
  cases found : log.regions[log.cursor]? with
  | none =>
      have past : (Frame.index 0 log.regions)[log.cursor]? = none := by
        rw [List.getElem?_eq_none_iff, Frame.length_index]
        exact List.getElem?_eq_none_iff.mp found
      simp only [Device.answer, Device.read, FileDevice.read, file, past, Bool.false_eq_true,
        ↓reduceIte]
  | some chunk =>
      rcases exists_readFrame_of_getElem? found with ⟨entry, entry_eq, read⟩
      simp only [Device.answer, Device.read, FileDevice.read, file, entry_eq, read,
        Bool.false_eq_true, ↓reduceIte]
      rfl

theorem read_file_backward (sound : log.Sound) :
    Device.answer log.file (.read .backward) =
      ((log.answer (.read .backward)).1, (log.answer (.read .backward)).2.file) := by
  rw [answer]
  by_cases start : log.cursor = 0
  · simp only [Device.answer, Device.read, FileDevice.read, file, start, Bool.false_eq_true,
      ↓reduceIte]
  · have inside : log.cursor - 1 < log.regions.length := by
      have := sound.cursor_le
      omega
    have found := List.getElem?_eq_getElem inside
    rcases exists_readFrame_of_getElem? found with ⟨entry, entry_eq, read⟩
    simp only [Device.answer, Device.read, FileDevice.read, file, start, entry_eq, read, found,
      Bool.false_eq_true, ↓reduceIte]
    rfl

/-- A file of frames with a torn tail is opened as the log of the regions. -/
theorem openOn_frames {chunks : List Chunk} {tail : Bytes} (sequence : Frame.Sequence chunks)
    (torn : Frame.Torn tail) :
    LogFile.openOn (.file (chunks.flatMap Frame.encode ++ tail)) = .ok (file ⟨chunks, 0⟩) := by
  have scanned : Frame.scan (Medium.file (chunks.flatMap Frame.encode ++ tail)).content =
      .ok (Frame.index 0 chunks, 0 + (chunks.flatMap Frame.encode).length) :=
    Frame.scanFrom_frames sequence torn (by rintro _ ⟨⟩)
  rw [Nat.zero_add] at scanned
  have repaired : (Medium.file (chunks.flatMap Frame.encode ++ tail)).resize
      (chunks.flatMap Frame.encode).length = .file (chunks.flatMap Frame.encode) := by
    rw [LogFile.resize_of_le (by simp), List.take_left]
  simp only [LogFile.openOn, FileDevice.openOn, scanned, Except.map, file, bytes]
  split
  · rw [repaired]
  · rename_i whole
    have empty : tail = [] := by
      rw [Medium.content, List.length_append] at whole
      exact List.length_eq_zero_iff.mp (by omega)
    rw [empty, List.append_nil]

theorem torn_nil : Frame.Torn [] :=
  .inl (by decide)

theorem openOn_nil : LogFile.openOn (.file []) = .ok empty.file :=
  openOn_frames Frame.Sequence.nil torn_nil

/-- A closed file is opened as its log with the cursor at the start. -/
theorem reopen_file (sound : log.Sound) :
    LogFile.openOn log.file.medium = .ok log.rewound.file := by
  have opened := openOn_frames sound.sequence torn_nil
  rw [List.append_nil] at opened
  exact opened

/-- A file that was cut off is opened as the log after the crash. -/
theorem openOn_cut (sound : log.Sound) (offset : Nat) :
    LogFile.openOn (.file (log.bytes.take offset)) = .ok (log.crashed offset).file := by
  rcases Frame.take_frames sound.sequence offset 0 with ⟨tail, torn, taken⟩
  rw [Nat.zero_add] at taken
  rw [bytes, taken]
  exact openOn_frames (sound_crashed sound offset).sequence torn

/-- A log file makes of an event what its log does. -/
theorem answer_file (sound : log.Sound) {event : DeviceEvent} (fits : event.Fits) :
    Device.answer log.file event = ((log.answer event).1, (log.answer event).2.file) := by
  cases event with
  | write bytes lsn =>
      rcases log.answer_write bytes lsn with ⟨above, taken⟩ | ⟨last, newest, le, refused⟩
      · rw [taken, Device.answer, write_file_of_above fits above]
      · rw [refused, Device.answer, write_file_of_le newest le]
  | sync => rfl
  | seek position =>
      cases position with
      | start => rfl
      | «end» =>
          simp only [Device.answer, Device.seek, FileDevice.seek, file, Frame.length_index,
            answer, Bool.false_eq_true, ↓reduceIte]
          rfl
  | read direction =>
      cases direction with
      | forward => exact read_file_forward log
      | backward => exact read_file_backward sound
  | reopen =>
      have opened := reopen_file sound
      simp only [Device.answer, Device.restart, Device.Restarts.reopen, opened, answer]
  | crash offset =>
      have opened := openOn_cut sound offset
      rw [List.take_eq_take_min] at opened
      have cut := LogFile.resize_of_le (Nat.min_le_right offset log.bytes.length)
      simp only [Device.answer, Device.restart, Device.Restarts.reopen, Device.Restarts.cut,
        Medium.content, file, cut, answer]
      rw [opened]
      rfl

/-- A log file makes of a run of events what its log does. -/
theorem play_file (sound : log.Sound) {events : List DeviceEvent}
    (fits : ∀ event ∈ events, event.Fits) :
    (DeviceEvent.play answer log events).2.Sound ∧
      DeviceEvent.play Device.answer log.file events =
        ((DeviceEvent.play answer log events).1, (DeviceEvent.play answer log events).2.file) := by
  have step : ∀ log file event, event.Fits → Sound log ∧ file = log.file →
      (log.answer event).1 = (Device.answer file event).1 ∧
        (log.answer event).2.Sound ∧ (Device.answer file event).2 = (log.answer event).2.file := by
    rintro log _ event event_fits ⟨sound, rfl⟩
    rw [answer_file sound event_fits]
    exact ⟨rfl, sound.answer event_fits, rfl⟩
  rcases DeviceEvent.play_related step fits ⟨sound, rfl⟩ with ⟨same, sound, state⟩
  exact ⟨sound, Prod.ext same.symm state⟩

/-! ## Disks in memory -/

theorem regions_tearTails (disk : Disk) (count : Nat) :
    (disk.tearTails count).regions = disk.regions.take (disk.regions.length - count) := by
  induction count generalizing disk with
  | zero => rw [Disk.tearTails, Nat.sub_zero, List.take_length]
  | succ count ih =>
      rw [Disk.tearTails, ih, Disk.tearTail, List.length_dropLast, List.dropLast_eq_take,
        List.take_take]
      congr 1
      omega

/-- The log has the regions of the disk, and its cursor is where the cursor of the device
is. -/
structure Behind (log : AppendLog) (device : MemoryDevice) : Prop where
  regions_eq : device.disk.regions = log.regions
  cursor_eq : device.cursor = log.cursor

/-- A device in memory answers an event as the log behind it does, and stays in front of
it. -/
theorem Behind.answer {device : MemoryDevice} (behind : log.Behind device) (sound : log.Sound)
    (event : DeviceEvent) :
    ∃ after, Device.answer device event = ((log.answer event).1, after) ∧
      (log.answer event).2.Behind after := by
  rcases device with ⟨⟨regions, synced⟩, cursor⟩
  rcases log with ⟨logged, place⟩
  rcases behind with ⟨rfl, rfl⟩
  have cursor_le : min cursor regions.length = cursor := Nat.min_eq_left sound.cursor_le
  cases event with
  | write bytes lsn =>
      rcases answer_write ⟨regions, cursor⟩ bytes lsn with ⟨above, taken⟩ | ⟨last, newest, le, kept⟩
      · rcases Disk.write_cases ⟨regions, synced⟩ bytes lsn with written | ⟨last, newest, le, _⟩
        · rw [taken]
          refine ⟨⟨⟨regions ++ [⟨lsn, bytes⟩], synced⟩, cursor⟩, ?_, rfl, rfl⟩
          simp only [Device.answer, Device.write, written]
        · exact absurd (above last newest) (Nat.not_lt.mpr le)
      · rw [kept]
        refine ⟨⟨⟨regions, synced⟩, cursor⟩, ?_, rfl, rfl⟩
        simp only [Device.answer, Device.write, Disk.write, newest, if_pos le]
  | sync => exact ⟨_, rfl, rfl, rfl⟩
  | seek position => cases position <;> exact ⟨_, rfl, rfl, rfl⟩
  | read direction =>
      cases direction with
      | forward =>
          simp only [Device.answer, Device.read, MemoryDevice.read, AppendLog.answer, cursor_le]
          cases regions[cursor]? <;> exact ⟨_, rfl, rfl, rfl⟩
      | backward =>
          simp only [Device.answer, Device.read, MemoryDevice.read, AppendLog.answer, cursor_le]
          split
          · rename_i start
            exact ⟨_, rfl, rfl, start.symm⟩
          · exact ⟨_, rfl, rfl, rfl⟩
  | reopen => exact ⟨_, rfl, rfl, rfl⟩
  | crash offset =>
      have kept := Frame.endingBy_prefix offset 0 regions
      refine ⟨_, rfl, ?_, rfl⟩
      simp only [Device.Restarts.cut, AppendLog.answer, crashed, MemoryDevice.onDisk,
        regions_tearTails]
      rw [Nat.sub_sub_self kept.length_le]
      exact (List.prefix_iff_eq_take.mp kept).symm

/-- A device in memory gives the answers of the log behind it in any run of events. -/
theorem Behind.play {device : MemoryDevice} (behind : log.Behind device) (sound : log.Sound)
    {events : List DeviceEvent} (fits : ∀ event ∈ events, event.Fits) :
    (DeviceEvent.play Device.answer device events).1 =
      (DeviceEvent.play AppendLog.answer log events).1 := by
  have step : ∀ log device event, event.Fits → Sound log ∧ log.Behind device →
      (log.answer event).1 = (Device.answer device event).1 ∧
        (log.answer event).2.Sound ∧
          (log.answer event).2.Behind (Device.answer device event).2 := by
    rintro log device event event_fits ⟨sound, behind⟩
    rcases behind.answer sound event with ⟨after, answered, behind⟩
    rw [answered]
    exact ⟨rfl, sound.answer event_fits, behind⟩
  exact (DeviceEvent.play_related step fits ⟨sound, behind⟩).1.symm

end AppendLog

namespace LogFile

variable {log : AppendLog}

theorem reads_file (log : AppendLog) : Device.Reads log.file log.regions := by
  have reads := (AppendLog.holds_file log).reads
  rw [AppendLog.file, AppendLog.map_chunkOf_file] at reads
  exact reads

/-- The device has the regions of a log and goes on as the log does. -/
structure Serves (file : LogFile) (log : AppendLog) : Prop where
  reads : Device.Reads file log.regions
  accepts : ∀ chunk : Chunk, chunk.Fits → Frame.Above log.regions chunk.lsn →
    Device.write file chunk.bytes chunk.lsn =
      (.ok (Frame.size chunk.bytes.length), (log.append chunk).file)
  refuses : ∀ bytes lsn last, log.regions.getLast? = some last → lsn ≤ last.lsn →
    Device.write file bytes lsn = (.error (.outOfOrder lsn last.lsn), file)
  reopens : openOn file.medium = .ok log.rewound.file
  /-- The file is opened again after a crash, whatever bytes are lost. -/
  recovers : ∀ offset,
    openOn (.file (file.medium.content.take offset)) = .ok (log.crashed offset).file

theorem serves_file (sound : log.Sound) : log.file.Serves log where
  reads := reads_file log
  accepts _ fits above := AppendLog.write_file_of_above fits above
  refuses _ _ _ newest le := AppendLog.write_file_of_le newest le
  reopens := AppendLog.reopen_file sound
  recovers := AppendLog.openOn_cut sound

/-- A log file that starts empty answers any run of events as the log behind it does, and as
a disk in memory does. In the end it has the regions of that log and nothing else, and goes
on as the log does, also after one more crash. -/
theorem keeps_log {events : List DeviceEvent} {answers : List DeviceAnswer}
    (fits : ∀ event ∈ events, event.Fits)
    (played : DeviceEvent.play AppendLog.answer .empty events = (answers, log)) :
    ∃ opened, openOn (.file []) = .ok opened ∧
      DeviceEvent.play Device.answer opened events = (answers, log.file) ∧
      (DeviceEvent.play Device.answer (MemoryDevice.onDisk .empty) events).1 = answers ∧
      log.file.Serves log := by
  have empty : AppendLog.empty.Sound := ⟨Frame.Sequence.nil, Nat.le_refl 0⟩
  have blank : AppendLog.empty.Behind (MemoryDevice.onDisk .empty) := ⟨rfl, rfl⟩
  rcases AppendLog.play_file empty fits with ⟨sound, on_file⟩
  have in_memory := blank.play empty fits
  rw [played] at sound on_file in_memory
  exact ⟨AppendLog.empty.file, AppendLog.openOn_nil, on_file, in_memory, serves_file sound⟩

/-- A region that looks like a frame, a write that is refused, a crash within a frame and a
write with a number that the crash has made free again. -/
def restless : List DeviceEvent :=
  [.write Frame.magic 5, .write [1] 5, .write [2, 3] 9, .seek .end, .read .backward,
    .read .backward, .read .backward, .crash 50, .write [7, 8] 6, .read .forward, .reopen,
    .read .forward, .read .forward, .read .forward]

theorem fits_restless : ∀ event ∈ restless, event.Fits := by
  decide

theorem keeps_log_restless :
    (∀ event ∈ restless, event.Fits) ∧
      DeviceEvent.play Device.answer AppendLog.empty.file restless =
        ([.done, .failed (.outOfOrder 5 5), .done, .done, .region (some ⟨9, [2, 3]⟩),
          .region (some ⟨5, Frame.magic⟩), .region none, .done, .done,
          .region (some ⟨5, Frame.magic⟩), .done, .region (some ⟨5, Frame.magic⟩),
          .region (some ⟨6, [7, 8]⟩), .region none],
          AppendLog.file ⟨[⟨5, Frame.magic⟩, ⟨6, [7, 8]⟩], 2⟩) := by
  refine ⟨fits_restless, ?_⟩
  rcases keeps_log fits_restless rfl with ⟨opened, opening, on_file, _⟩
  cases opening.symm.trans AppendLog.openOn_nil
  exact on_file

end LogFile

end Logbook

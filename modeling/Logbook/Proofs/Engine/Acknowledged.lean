import Logbook.Probe.Action
import Logbook.Proofs.Engine.InMemory
import Logbook.Proofs.Engine.Stopping
import Logbook.Proofs.Recovery.Newest
import Logbook.Proofs.Storage.File

/-!
# The device holds what was acknowledged

Whatever producers do, and whenever the writer takes its steps, the regions that
an engine has written since it was opened hold the records up to the watermark,
in order and each once. No write is out of order, and an entry that is turned
away uses up no number.
-/

namespace Logbook

namespace Engine

variable {α σ δ : Type} [Device δ] [Device.Reliable δ] {app : Application α σ}
  {config : Config} {first : Nat} {old : List Chunk}

/-- An engine that has logged these records, with some of them in pieces on the
device. -/
def Logs (config : Config) (first : Nat) (old : List Chunk) (written : List Piece)
    (records : List Record) (engine : Engine σ δ) : Prop :=
  ∃ queued pending, written.flatMap Piece.records ++ (queued.flatten ++ pending) = records ∧
    Delivering config first old written queued pending engine ∧ Stopping pending engine

variable {written : List Piece} {records : List Record} {engine : Engine σ δ}

theorem Logs.sequenced (logs : Logs config first old written records engine) :
    Sequenced first records engine := by
  rcases logs with ⟨_, _, rfl, delivering, _⟩
  exact delivering.sequenced

theorem Logs.config_eq (logs : Logs config first old written records engine) :
    engine.config = config := by
  rcases logs with ⟨_, _, _, delivering, _⟩
  exact delivering.config_eq

theorem Logs.verdict (logs : Logs config first old written records engine)
    (failure : DurabilityFailure) : engine.writer.verdict ≠ some (.error failure) := by
  rcases logs with ⟨_, _, _, delivering, _⟩
  exact delivering.verdict failure

/-- A move adds what its outcome tells. -/
theorem Logs.move (logs : Logs config first old written records engine) {move : Move α δ}
    (faultless : engine.Faultless move)
    (fits : ∀ record ∈ engine.gained app move, record.Fits)
    (room : first + records.length + (engine.gained app move).toList.length <
      Sequencer.wordSize) :
    ∃ added, Logs config first old (written ++ added)
      (records ++ (engine.gained app move).toList) (engine.move app move) := by
  rcases logs with ⟨queued, pending, rfl, delivering, stopping⟩
  rcases delivering.advances_move faultless fits room with
    ⟨added, queued', pending', split, moved, goes_on⟩
  exact ⟨added, queued', pending', split, moved, goes_on stopping⟩

/-- A move that adds nothing. -/
theorem Logs.move_of_gained_eq_none (logs : Logs config first old written records engine)
    {move : Move α δ} (faultless : engine.Faultless move)
    (nothing : engine.gained app move = none) (room : first + records.length < Sequencer.wordSize) :
    ∃ added, Logs config first old (written ++ added) records (engine.move app move) := by
  rcases logs.move faultless (by rw [nothing]; exact fun record gained => by cases gained)
    (by rw [nothing]; exact room) with ⟨added, moved⟩
  rw [nothing, Option.toList_none, List.append_nil] at moved
  exact ⟨added, moved⟩

theorem Logs.log (logs : Logs config first old written records engine) {entry : Entry α}
    {sync : Bool} (fits : ∀ record ∈ engine.logged app entry sync, record.Fits)
    (room : first + records.length + (engine.logged app entry sync).toList.length <
      Sequencer.wordSize) :
    ∃ added, Logs config first old (written ++ added)
      (records ++ (engine.logged app entry sync).toList) (engine.log app entry sync).2 := by
  rcases logs with ⟨queued, pending, rfl, delivering, stopping⟩
  rcases delivering.advances_log fits room with
    ⟨added, queued', pending', split, logged, goes_on⟩
  exact ⟨added, queued', pending', split, logged, goes_on stopping⟩

/-- A run adds what its outcomes tell. -/
theorem Logs.run (logs : Logs config first old written records engine) {moves : List (Move α δ)}
    (faultless : engine.FaultlessRun app moves)
    (fits : ∀ record ∈ engine.accepted app moves, record.Fits)
    (room : first + records.length + (engine.accepted app moves).length < Sequencer.wordSize) :
    ∃ added, Logs config first old (written ++ added) (records ++ engine.accepted app moves)
      (engine.run app moves) := by
  induction moves generalizing engine written records with
  | nil => exact ⟨[], by simpa [accepted] using logs⟩
  | cons move moves ih =>
      rcases faultless with ⟨faultless, rest⟩
      rw [accepted] at fits room ⊢
      rw [List.length_append] at room
      obtain ⟨added, moved⟩ := logs.move faultless
        (fun record gained => fits record (List.mem_append_left _ (Option.mem_toList.mpr gained)))
        (by omega)
      obtain ⟨more, ran⟩ := ih moved rest
        (fun record member => fits record (List.mem_append_right _ member))
        (by rw [List.length_append]; omega)
      refine ⟨added ++ more, ?_⟩
      rw [← List.append_assoc, ← List.append_assoc]
      exact ran

/-- A run that adds nothing. -/
theorem Logs.run_of_accepted_eq_nil (logs : Logs config first old written records engine)
    {moves : List (Move α δ)} (faultless : engine.FaultlessRun app moves)
    (nothing : engine.accepted app moves = [])
    (room : first + records.length < Sequencer.wordSize) :
    ∃ added, Logs config first old (written ++ added) records (engine.run app moves) := by
  have fits : ∀ record ∈ engine.accepted app moves, record.Fits := by
    rw [nothing]
    exact fun record member => absurd member List.not_mem_nil
  have ran := logs.run faultless fits (by rw [nothing]; exact room)
  rw [nothing, List.append_nil] at ran
  exact ran

/-! ### From the opening on -/

theorem nextLsn_pos (report : RecoveryReport) : 0 < report.nextLsn := by
  unfold RecoveryReport.nextLsn
  split
  · exact Nat.succ_pos _
  · decide

omit [Device δ] [Device.Reliable δ] in
theorem sequenced_resume (config : Config) (report : RecoveryReport) (device : δ) (state : σ) :
    Sequenced report.nextLsn [] (resume config report device state) where
  sound := Chain.sound_create _ _ _
  failure := rfl
  holds record := by simp [resume, Chain.not_holds_create]
  consecutive := Record.consecutive_nil _
  next := rfl
  first_pos := nextLsn_pos report
  fixedEnd_lt window member last closed := by
    simp only [resume, Chain.create, List.mem_singleton] at member
    rw [member] at closed
    cases closed

/-- An engine that was just opened has logged nothing yet. -/
theorem logs_resume {device : δ} {report : RecoveryReport}
    (intact : Device.Reliable.Intact device) (reads : Device.Reads device old)
    (highest : report.highest = old.getLast?.map (·.lsn)) (state : σ) :
    Logs config report.nextLsn old [] [] (resume config report device state) := by
  refine ⟨[], [], rfl, ?_, .of_resume config report device state⟩
  have old_only : old ++ [].map Piece.chunk = old := List.append_nil old
  constructor
  · exact sequenced_resume config report device state
  · exact fun record member => absurd member List.not_mem_nil
  · rfl
  · exact intact
  · rw [old_only]
    exact reads
  · exact fun piece member => absurd member List.not_mem_nil
  · exact fun piece member => absurd member List.not_mem_nil
  · intro chunk newest
    rw [old_only] at newest
    rw [newest] at highest
    rw [RecoveryReport.nextLsn, highest]
    exact Nat.lt_succ_self _
  · exact Nat.sub_add_cancel (nextLsn_pos report)
  · exact trivial
  · exact fun batch member => absurd member List.not_mem_nil
  · exact ⟨_, rfl, rfl⟩
  · intro error failed
    cases failed

omit [Device.Reliable δ] in
/-- An engine that was opened goes on after a recovery that succeeded. -/
theorem recovered_of_open {schedule : Recovery.Schedule} {options : RecoveryOptions} {device : δ}
    {state : σ} {report : RecoveryReport}
    (opened : openUnder schedule app config options device state = .ok (report, engine)) :
    (Recovery.recoverWith app schedule config options (Device.newestFirst device) state).outcome =
        .ok report ∧
      engine = resume config report device
        (Recovery.recoverWith app schedule config options (Device.newestFirst device) state).state := by
  unfold openUnder at opened
  split at opened
  · cases opened
  · dsimp only at opened
    split at opened
    · rename_i recovered
      cases opened
      exact ⟨recovered, rfl⟩
    · cases opened
    · cases opened

omit [Device.Reliable δ] in
/-- A log whose recovery succeeds is opened. -/
theorem open_of_recovered {schedule : Recovery.Schedule} {options : RecoveryOptions} {device : δ}
    {state : σ} {report : RecoveryReport} (valid : config.validate = .ok ())
    (recovered : (Recovery.recoverWith app schedule config options
      (Device.newestFirst device) state).outcome = .ok report) :
    openUnder schedule app config options device state =
      .ok (report, resume config report device (Recovery.recoverWith app schedule config options
        (Device.newestFirst device) state).state) := by
  rw [openUnder, valid]
  simp only [recovered]

omit [Device.Reliable δ] in
theorem open_of_failed {schedule : Recovery.Schedule} {options : RecoveryOptions} {device : δ}
    {state : σ} {error : LogError} (valid : config.validate = .ok ())
    (failed : (Recovery.recoverWith app schedule config options
      (Device.newestFirst device) state).outcome = .failed error) :
    openUnder schedule app config options device state = .failed error := by
  rw [openUnder, valid]
  simp only [failed]

omit [Device.Reliable δ] in
theorem valid_of_open {schedule : Recovery.Schedule} {options : RecoveryOptions} {device : δ}
    {state : σ} {report : RecoveryReport}
    (opened : openUnder schedule app config options device state = .ok (report, engine)) :
    config.validate = .ok () := by
  unfold openUnder at opened
  split at opened
  · cases opened
  · assumption

/-- What opening a log leaves is an engine that has logged nothing yet. -/
theorem logs_of_open {schedule : Recovery.Schedule} {options : RecoveryOptions} {device : δ}
    {state : σ} {report : RecoveryReport} (intact : Device.Reliable.Intact device)
    (reads : Device.Reads device old)
    (opened : openUnder schedule app config options device state = .ok (report, engine)) :
    Logs config report.nextLsn old [] [] engine := by
  rcases recovered_of_open opened with ⟨recovered, rfl⟩
  rw [reads] at recovered
  exact logs_resume intact reads (Recovery.highest_of_recoverWith recovered) _

/-- What the device holds of the records that an engine has accepted. -/
structure Acknowledged (first : Nat) (old : List Chunk) (records : List Record)
    (engine : Engine σ δ) : Prop where
  /-- The records have the numbers from `first` on, and no other number is used up. -/
  consecutive : Record.Consecutive first records
  next : engine.sequencer.next = first + records.length
  /-- The watermark is one of the numbers, or the one before the first. -/
  first_le : first ≤ engine.durable + 1
  durable_lt : engine.durable < first + records.length
  /-- The regions behind the old ones ascend, and unpack to the records up to the
  watermark. -/
  regions : ∃ (chunks : List Chunk) (parts : List (List Record)),
    Device.Reads engine.device (old ++ chunks) ∧
      (chunks.map (·.lsn)).Pairwise (· < ·) ∧
      chunks.map (fun chunk => Region.unpack chunk.lsn engine.config.formatPolicy chunk.bytes) =
        parts.map .ok ∧
      parts.flatten = records.filter (·.lsn ≤ engine.durable)

namespace Delivering

variable {queued : List (List Record)} {pending : List Record}

/-- Pieces on the device are a log for every reader of the current format. -/
theorem cut (delivering : Delivering config first old written queued pending engine)
    {policy : FormatPolicy} (admits : policy.Admits .current) : Piece.Cut policy first written where
  consecutive := (Record.consecutive_append.mp delivering.sequenced.consecutive).1
  some_records := delivering.some_records
  admitted piece member := by
    rw [delivering.formats piece member]
    exact admits
  fits piece member record inside :=
    delivering.fits record
      (List.mem_append_left _ (List.mem_flatMap.mpr ⟨piece, member, inside⟩))

end Delivering

/-- The device has the first of the records behind the old regions. -/
theorem Logs.leaves (logs : Logs config first old written records engine)
    {policy : FormatPolicy} (admits : policy.Admits .current) :
    written.flatMap Piece.records <+: records ∧ Piece.Cut policy first written ∧
      (∀ piece ∈ written, piece.format = .current) ∧
      Device.Reads engine.device (old ++ written.map Piece.chunk) := by
  rcases logs with ⟨queued, pending, rfl, delivering, _⟩
  exact ⟨List.prefix_append _ _, delivering.cut admits, delivering.formats, delivering.reads⟩

/-- A writer that has ended has written all that was logged. -/
theorem Logs.written_eq (logs : Logs config first old written records engine)
    (ended : engine.writer.verdict ≠ none) : written.flatMap Piece.records = records := by
  rcases logs with ⟨queued, pending, rfl, delivering, stopping⟩
  rcases stopping.ended ended with ⟨collecting, empty⟩
  have queue := delivering.queue
  rw [empty] at queue
  cases queued with
  | nil =>
      rw [(stopping.collected collecting).2, List.flatten_nil, List.append_nil, List.append_nil]
  | cons records queued => exact absurd queue id

theorem Logs.acknowledged (logs : Logs config first old written records engine)
    (policy : config.formatPolicy ≠ .legacy) : Acknowledged first old records engine := by
  rcases logs with ⟨queued, pending, rfl, delivering, _⟩
  have durable := delivering.durable
  have consecutive := delivering.sequenced.consecutive
  have cut := delivering.cut (FormatPolicy.admits_current policy)
  refine ⟨consecutive, delivering.sequenced.next, ?_, ?_, written.map Piece.chunk,
    written.map Piece.records, delivering.reads, ?_, ?_, ?_⟩
  · rw [Engine.durable]
    omega
  · rw [Engine.durable, List.length_append]
    omega
  · rw [List.map_map]
    exact cut.pairwise_lsn.2
  · rw [delivering.config_eq, List.map_map, List.map_map]
    refine List.map_congr_left ?_
    intro piece member
    rw [Function.comp_apply, cut.unpack piece member,
      Piece.received_of_current (delivering.formats piece member)]
    rfl
  · rw [← List.flatMap_def, List.filter_append]
    have front : ∀ record ∈ written.flatMap Piece.records, record.lsn ≤ engine.durable := by
      intro record member
      rcases List.getElem?_of_mem member with ⟨offset, found⟩
      have inside := (List.getElem?_eq_some_iff.mp found).1
      rw [cut.consecutive.lsn_of_getElem? found, Engine.durable]
      omega
    have back : ∀ record ∈ queued.flatten ++ pending, ¬ record.lsn ≤ engine.durable := by
      intro record member
      rcases List.getElem?_of_mem member with ⟨offset, found⟩
      have later := (Record.consecutive_append.mp consecutive).2
      rw [later.lsn_of_getElem? found, Engine.durable]
      omega
    rw [List.filter_eq_self.mpr (by simpa using front),
      List.filter_eq_nil_iff.mpr (by simpa using back), List.append_nil]

/-- The device takes what the writer has for it. -/
theorem Logs.persist_ok (logs : Logs config first old written records engine)
    (faultless : engine.Faultless (.write : Move α δ)) (running : engine.writer.verdict = none)
    {batch : Batch} {rest : List Batch} (queue_eq : engine.writer.queue = batch :: rest) :
    (persist engine.device batch).1 = .ok () := by
  rcases logs with ⟨queued, pending, _, delivering, _⟩
  rcases delivering.persist_ok faultless running queue_eq with ⟨device, _, _, _, persisted, _⟩
  rw [persisted]

/-- Whatever is asked of an engine that was opened on a log, and wherever the writer
takes its steps in between, as long as the device does not fail: behind the old
regions there are at each moment regions that hold the accepted records up to the
watermark, no write is turned away, and the watermark does not fall. -/
theorem acknowledged_run {schedule : Recovery.Schedule} {options : RecoveryOptions}
    {device : δ} {state : σ} {report : RecoveryReport} {moves : List (Move α δ)}
    (policy : config.formatPolicy ≠ .legacy) (intact : Device.Reliable.Intact device)
    (opened : openUnder schedule app config options device state = .ok (report, engine))
    (faultless : engine.FaultlessRun app moves)
    (fits : ∀ record ∈ engine.accepted app moves, record.Fits)
    (room : report.nextLsn + (engine.accepted app moves).length < Sequencer.wordSize) :
    ∃ old, Device.Reads device old ∧
      ∀ front back, front ++ back = moves →
        Acknowledged report.nextLsn old (engine.accepted app front) (engine.run app front) ∧
          (∀ rest, back = .write :: rest →
            (engine.run app front).writer.verdict = none →
            ∀ batch queue, (engine.run app front).writer.queue = batch :: queue →
              (persist (engine.run app front).device batch).1 = .ok ()) ∧
          (engine.run app front).durable ≤ (engine.run app moves).durable := by
  rcases Device.Reliable.reads device intact with ⟨old, reads⟩
  refine ⟨old, reads, ?_⟩
  rintro front back rfl
  rw [faultlessRun_append] at faultless
  rw [accepted_append] at fits room
  rw [List.length_append] at room
  have opening := logs_of_open intact reads opened
  obtain ⟨written, logs⟩ := opening.run faultless.1
    (fun record member => fits record (List.mem_append_left _ member))
    (by rw [List.length_nil]; omega)
  rw [List.nil_append, List.nil_append] at logs
  refine ⟨logs.acknowledged policy, ?_, ?_⟩
  · rintro rest rfl running batch queue queue_eq
    exact logs.persist_ok faultless.2.1 running queue_eq
  · rw [run_append]
    exact durable_le_run app _ _

/-- A probe, one that cannot be encoded, and a member of a transaction that panics;
the writer collects before the member and writes after it. -/
def probing : List (Move Probe.Action Volume) :=
  [.append ⟨7, 0, 0, none, none, []⟩ true,
    .append ⟨8, 0, Probe.encodeErrorFlag, none, none, []⟩ false,
    .collect,
    .appendMember 1 ⟨9, 0, Probe.recordPanicFlag, none, none, []⟩,
    .write]

/-- An engine for probes on a new disk in memory. -/
def forProbes : Engine Probe.Journal Volume :=
  .resume .standard (.initial none Lsn.first) .newMemory .empty

theorem accepted_probing : forProbes.accepted Probe.app probing =
    [⟨100, 100, Entry.plainTag :: (Bytes.ofNat 8 7 ++ Bytes.ofNat 8 0 ++ [0])⟩,
      ⟨101, 100, Entry.memberTag :: (Bytes.ofNat 8 1 ++ Bytes.ofNat 8 9 ++ Bytes.ofNat 8 0
        ++ [Probe.recordPanicFlag])⟩] := by
  decide +kernel

theorem acknowledged_run_probing :
    (forProbes.run Probe.app probing).durable = 100 ∧
      ∃ old, Device.Reads Volume.newMemory old ∧
        Acknowledged 100 old (forProbes.accepted Probe.app probing)
          (forProbes.run Probe.app probing) := by
  have inside : ∀ move ∈ probing, move.Inside := by
    simp [probing, Move.Inside]
  have fits : ∀ record ∈ forProbes.accepted Probe.app probing, record.Fits := by
    rw [accepted_probing]
    simp only [List.forall_mem_cons]
    exact ⟨⟨by decide, by decide, by decide⟩, ⟨by decide, by decide, by decide⟩, by simp⟩
  have policy : Config.standard.formatPolicy ≠ .legacy := by decide
  have opened : openUnder .late Probe.app .standard {} Volume.newMemory .empty =
      .ok (.initial none Lsn.first, forProbes) := rfl
  have room : (RecoveryReport.initial none Lsn.first).nextLsn +
      (forProbes.accepted Probe.app probing).length < Sequencer.wordSize := by
    rw [accepted_probing]
    decide
  obtain ⟨old, reads, acknowledged⟩ := acknowledged_run policy trivial opened
    (faultlessRun_of_inMemory ⟨_, rfl⟩ inside) fits room
  exact ⟨by decide +kernel, old, reads, (acknowledged probing [] (List.append_nil _)).1⟩

end Engine

end Logbook

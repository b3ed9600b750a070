import Logbook.Proofs.Engine.Halted
import Logbook.Proofs.Engine.Promised
import Logbook.Proofs.Engine.Quiet

/-!
# Stopping a log

The call that stops a log turns producers away, lets the writer come to its end, and returns
how that was. A good end means that every number handed out is in a region of the disk and
that all regions are synced; if the device failed at any point, the call returns that failure.
A log that is stopped already answers well at once, whatever its end was or will be, so such an
answer is worth as much as the first one was.
-/

namespace Logbook

/-- The move leaves the device to the engine, or sets its switch. -/
def Move.Switching {α δ : Type} : Move α (Faulty δ) → Prop
  | .onDevice work => ∃ set, work = fun device => device.onSwitch set
  | _ => True

theorem Move.Inside.switching {α δ : Type} {move : Move α (Faulty δ)} (inside : move.Inside) :
    move.Switching := by
  cases move with
  | onDevice => exact absurd inside id
  | append | beginTransaction | appendMember | commit | setLowestLive | closeBarrier
  | requestStop | collect | write | finish => exact trivial

namespace Engine

variable {α σ δ : Type} [Device δ] {app : Application α σ} {config : Config} {first : Nat}
  {old : List Chunk} {records added : List Record}

/-! ### Calls -/

/-- An engine that comes of another by moves, some of which set the switch of the device, and
by returns of the call that stops the log; with the records that it gains on the way. -/
inductive Reaches (app : Application α σ) (start : Engine σ (Faulty δ)) :
    List Record → Engine σ (Faulty δ) → Prop where
  | start : Reaches app start [] start
  | move {added : List Record} {engine : Engine σ (Faulty δ)}
      (reaches : Reaches app start added engine) {move : Move α (Faulty δ)}
      (switching : move.Switching) :
      Reaches app start (added ++ (engine.gained app move).toList) (engine.move app move)
  | returned {added : List Record} {engine : Engine σ (Faulty δ)}
      (reaches : Reaches app start added engine) (ended : engine.writer.verdict ≠ none) :
      Reaches app start added { engine with watermark := engine.watermark.close }

/-- How a call that stops a log returns, and what it leaves: at once, if the log is stopped
already; else when the writer has come to its end, with whatever else is done meanwhile. -/
inductive Stops (app : Application α σ) (engine : Engine σ (Faulty δ)) :
    Except LogError Unit → Engine σ (Faulty δ) → Prop where
  | again (closed : engine.isOpen = false) : Stops app engine (.ok ()) engine
  | first (running : engine.isOpen = true) {added : List Record} {now : Engine σ (Faulty δ)}
      (reaches : Reaches app engine.requestStop added now) {outcome : WriteOutcome}
      (ended : now.writer.verdict = some outcome) :
      Stops app engine (outcome.mapError .durability)
        { now with watermark := now.watermark.close }

variable {start engine : Engine σ (Faulty δ)}

theorem Reaches.run (reaches : Reaches app start added engine) {moves : List (Move α (Faulty δ))}
    (switching : ∀ move ∈ moves, move.Switching) :
    Reaches app start (added ++ engine.accepted app moves) (engine.run app moves) := by
  induction moves generalizing engine added with
  | nil =>
      rw [accepted, List.append_nil]
      exact reaches
  | cons move moves ih =>
      rw [List.forall_mem_cons] at switching
      rw [accepted, ← List.append_assoc]
      exact ih (reaches.move switching.1) switching.2

theorem Reaches.trans {now : Engine σ (Faulty δ)} {more : List Record}
    (front : Reaches app start added engine) (back : Reaches app engine more now) :
    Reaches app start (added ++ more) now := by
  induction back with
  | start =>
      rw [List.append_nil]
      exact front
  | move reaches switching ih =>
      rw [← List.append_assoc]
      exact ih.move switching
  | returned reaches ended ih => exact ih.returned ended

/-- Letting the writer run takes moves of its own only. -/
theorem reaches_settle (app : Application α σ) (engine : Engine σ (Faulty δ)) :
    Reaches app engine [] engine.settle := by
  rcases settle_eq_run app engine with ⟨moves, quiet, settled⟩
  have ran := (Reaches.start : Reaches app engine [] engine).run fun move member =>
    (quiet move member).inside.switching
  rw [accepted_of_quiet quiet] at ran
  rw [settled]
  exact ran

/-- The call that stops a log, with nothing else going on. -/
theorem stops_of_shutdown (app : Application α σ) {result : Except LogError Unit}
    {after : Engine σ (Faulty δ)} (returned : engine.shutdown = (some result, after)) :
    Stops app engine result after := by
  rw [shutdown] at returned
  cases running : engine.isOpen with
  | false =>
      rw [if_pos (by rw [running]; exact Bool.false_ne_true)] at returned
      cases returned
      exact .again running
  | true =>
      rw [if_neg (not_not_intro running), Prod.mk.injEq] at returned
      rcases returned with ⟨ended, rfl⟩
      rcases Option.map_eq_some_iff.mp ended with ⟨outcome, verdict, rfl⟩
      exact .first running (reaches_settle app engine.requestStop) verdict

/-- An engine that turns producers away goes on doing so, and gains nothing. -/
theorem closed_move {engine : Engine σ δ} (closed : engine.isOpen = false) (move : Move α δ) :
    engine.gained app move = none ∧ (engine.move app move).isOpen = false := by
  have logging : ∀ entry sync, (engine.log app entry sync).2.isOpen = false := by
    intro entry sync
    rcases log_frame app engine entry sync with ⟨_, _, _, logged⟩
    rw [logged]
    exact closed
  have quiet : ∀ {move : Move α δ}, move.Quiet → (engine.move app move).isOpen = false := by
    intro move quiet
    rcases quiet_frame app engine quiet with ⟨_, _, _, _, moved⟩
    rw [moved]
    exact closed
  cases move with
  | append | appendMember | commit =>
      exact ⟨logged_of_closed closed _ _, logging _ _⟩
  | beginTransaction | setLowestLive | onDevice => exact ⟨rfl, closed⟩
  | requestStop => exact ⟨rfl, rfl⟩
  | closeBarrier | collect | write | finish => exact ⟨rfl, quiet trivial⟩

theorem Reaches.closed (reaches : Reaches app start added engine) (closed : start.isOpen = false) :
    added = [] ∧ engine.isOpen = false := by
  induction reaches with
  | start => exact ⟨rfl, closed⟩
  | @move added engine reaches move switching ih =>
      rcases ih with ⟨rfl, closed⟩
      rcases closed_move closed move with ⟨nothing, closed⟩
      rw [nothing]
      exact ⟨rfl, closed⟩
  | returned reaches ended ih => exact ih

/-- What is done to a log after the request to stop it adds nothing. -/
theorem Reaches.stopping {now : Engine σ (Faulty δ)} {more : List Record}
    (reaches : Reaches app start added engine)
    (stopping : Reaches app engine.requestStop more now) : Reaches app start added now := by
  obtain ⟨rfl, _⟩ := stopping.closed rfl
  have requested : Reaches app start (added ++ []) engine.requestStop :=
    reaches.move (show Move.Switching (.requestStop : Move α _) from trivial)
  have reached := requested.trans stopping
  rw [List.append_nil, List.append_nil] at reached
  exact reached

/-- What a call leaves that stops a log can be gone on with. -/
theorem Reaches.of_stops {after : Engine σ (Faulty δ)} {result : Except LogError Unit}
    (reaches : Reaches app start added engine) (stops : Stops app engine result after) :
    Reaches app start added after := by
  cases stops with
  | again => exact reaches
  | first running stopping ended =>
      exact (reaches.stopping stopping).returned (ended ▸ Option.some_ne_none _)

/-- The switch of a device does not matter to what the device holds. -/
theorem Logs.onSwitch [Device.Reliable δ] {written : List Piece}
    (logs : Logs config first old written records engine) (set : FaultSwitch → FaultSwitch) :
    Logs config first old written records
      { engine with device := engine.device.onSwitch set } := by
  rcases logs with ⟨queued, pending, split, delivering, stopping⟩
  refine ⟨queued, pending, split, ?_,
    ⟨stopping.turnedAway, stopping.collected, stopping.ended⟩⟩
  exact { delivering with
    sequenced := { delivering.sequenced with }
    intact := delivering.intact
    reads := (Faulty.newestFirst_eq (engine.device.onSwitch set)).trans
      ((Faulty.newestFirst_eq engine.device).symm.trans delivering.reads) }

/-! ### A disk in memory behind a switch -/

variable {start engine before : Engine σ (Faulty MemoryDevice)}

/-- The disk holds the numbers from `first` up to the newest record, and is synced. -/
structure Safe (first : Nat) (engine : Engine σ (Faulty MemoryDevice)) : Prop where
  held : ∀ lsn, first ≤ lsn → lsn ≤ engine.current →
    ∃ index record, engine.device.inner.disk.HoldsAt index record ∧ record.lsn = lsn
  synced : engine.device.inner.disk.synced = engine.device.inner.disk.regions.length

/-- A log that has not failed has logged these records, and its disk is synced once the
writer has come to its end. -/
structure Stands (config : Config) (first : Nat) (old : List Chunk) (records : List Record)
    (engine : Engine σ (Faulty MemoryDevice)) : Prop where
  logs : ∃ written, Logs config first old written records engine
  unfailed : engine.watermark.failure = none
  swept : engine.writer.verdict ≠ none →
    engine.device.inner.disk.synced = engine.device.inner.disk.regions.length

namespace Stands

theorem sequenced (stands : Stands config first old records engine) :
    Sequenced first records engine := by
  rcases stands.logs with ⟨_, logs⟩
  exact logs.sequenced

/-- What the end of the writer leaves. -/
theorem safe (stands : Stands config first old records engine)
    (ended : engine.writer.verdict ≠ none) : Safe first engine where
  held lsn first_le le_current := by
    rcases stands.sequenced.exists_record first_le le_current with ⟨record, member, lsn_eq⟩
    rcases stands.logs with ⟨written, logs⟩
    rw [← logs.written_eq ended] at member
    have admits : FormatPolicy.current.Admits .current := rfl
    rcases logs.leaves admits with ⟨_, cut, formats, reads⟩
    have regions := (engine.device.inner.reads).unique ((Faulty.newestFirst_eq _).symm.trans reads)
    rcases Disk.exists_holdsAt regions cut formats member with ⟨index, _, held⟩
    exact ⟨index, record, held, lsn_eq⟩
  synced := stands.swept ended

/-- A move that the device serves neither fails the log nor ends it too early. -/
theorem still (app : Application α σ) (stands : Stands config first old records engine)
    {move : Move α (Faulty MemoryDevice)} (switching : move.Switching)
    (served : engine.served move = true) :
    (engine.move app move).watermark.failure = none ∧
      ((engine.move app move).writer.verdict ≠ none →
        (engine.move app move).device.inner.disk.synced =
          (engine.move app move).device.inner.disk.regions.length) := by
  have unfailed := stands.unfailed
  have swept := stands.swept
  have logging : ∀ entry sync, (engine.log app entry sync).2.watermark.failure = none ∧
      ((engine.log app entry sync).2.writer.verdict ≠ none →
        (engine.log app entry sync).2.device.inner.disk.synced =
          (engine.log app entry sync).2.device.inner.disk.regions.length) := by
    intro entry sync
    rcases log_frame app engine entry sync with ⟨_, _, _, logged⟩
    rw [logged]
    exact ⟨unfailed, swept⟩
  cases move with
  | append | appendMember | commit => exact logging _ _
  | beginTransaction | setLowestLive | requestStop => exact ⟨unfailed, swept⟩
  | onDevice =>
      rcases switching with ⟨set, rfl⟩
      exact ⟨unfailed, swept⟩
  | closeBarrier =>
      rw [Engine.move, closeBarrier]
      split
      · exact ⟨unfailed, swept⟩
      · exact ⟨unfailed, swept⟩
  | collect =>
      rcases stands.logs with ⟨_, _, _, _, delivering, _⟩
      have collects := delivering.lined.tracked.collects
      rw [Engine.move]
      generalize engine.collect = after at collects
      cases collects with
      | barred | waiting | stopped => exact ⟨unfailed, swept⟩
      | closed able closes called here closed =>
          rw [(delivering.of_called called).collectClosed_eq here closed]
          exact ⟨unfailed, swept⟩
  | write =>
      rcases stands.logs with ⟨_, _, _, _, delivering, _⟩
      rcases delivering.write_cases (faultless_of_served trivial served) with ⟨_, none⟩ |
        ⟨batch, rest, device, _, _, queue_eq, _, _, _, _, written_eq⟩
      · rw [Engine.move, none]
        exact ⟨unfailed, swept⟩
      · have running : engine.writer.verdict = none := by
          rcases stands.logs with ⟨_, _, _, _, _, stopping⟩
          cases verdict : engine.writer.verdict with
          | none => rfl
          | some outcome =>
              rw [(stopping.ended (verdict ▸ Option.some_ne_none outcome)).2] at queue_eq
              cases queue_eq
        rw [Engine.move, written_eq]
        exact ⟨unfailed, fun ended => absurd running ended⟩
  | finish =>
      rcases stands.logs with ⟨_, _, _, _, delivering, _⟩
      rcases delivering.finish_cases (faultless_of_served trivial served) with ⟨_, idle⟩ |
        ⟨_, _, device, synced, finished⟩
      · rw [Engine.move, idle]
        exact ⟨unfailed, swept⟩
      · rw [Engine.move, finished]
        refine ⟨unfailed, fun _ => ?_⟩
        rcases engine.device.sync_cases with crashed | ⟨_, inner⟩
        · rw [show engine.device.sync = _ from synced] at crashed
          cases crashed
        · rw [show engine.device.sync = _ from synced] at inner
          dsimp only at inner ⊢
          rw [inner]
          rfl

theorem move (stands : Stands config first old records engine)
    {move : Move α (Faulty MemoryDevice)} (switching : move.Switching)
    (served : engine.served move = true) (fits : ∀ record ∈ engine.gained app move, record.Fits)
    (room : first + records.length + (engine.gained app move).toList.length <
      Sequencer.wordSize) :
    Stands config first old (records ++ (engine.gained app move).toList)
      (engine.move app move) := by
  have still := stands.still app switching served
  refine ⟨?_, still.1, still.2⟩
  rcases stands.logs with ⟨written, logs⟩
  have inside : move.Inside → ∃ written, Logs config first old written
      (records ++ (engine.gained app move).toList) (engine.move app move) := by
    intro inside
    rcases logs.move (faultless_of_served inside served) fits room with ⟨added, moved⟩
    exact ⟨written ++ added, moved⟩
  cases move with
  | onDevice =>
      rcases switching with ⟨set, rfl⟩
      have kept := logs.onSwitch set
      rw [← List.append_nil records] at kept
      exact ⟨written, kept⟩
  | append | beginTransaction | appendMember | commit | setLowestLive | closeBarrier
  | requestStop | collect | write | finish => exact inside trivial

/-- The first move that the device does not serve fails the log. -/
theorem halted (stands : Stands config first old records engine)
    {move : Move α (Faulty MemoryDevice)} (unserved : engine.served move = false) :
    ∃ failure, Halted failure (engine.move app move) := by
  have running := stands.sequenced.failure
  rcases abandoned_of_unserved app unserved with ⟨device, lsn, error, moved⟩ | ⟨failure, failed, _⟩
  · rw [moved]
    exact ⟨_, halted_abandon running stands.unfailed lsn error⟩
  · rw [running] at failed
    cases failed

end Stands

/-- A log that is used goes on without a failure, or has failed for good. -/
theorem Reaches.stands (reaches : Reaches app start added engine)
    (stands : Stands config first old records start ∨ ∃ failure, Halted failure start)
    (fits : ∀ record ∈ added, record.Fits)
    (room : first + records.length + added.length < Sequencer.wordSize) :
    Stands config first old (records ++ added) engine ∨ ∃ failure, Halted failure engine := by
  induction reaches with
  | start =>
      rw [List.append_nil]
      exact stands
  | @move added engine reaches move switching ih =>
      rw [List.forall_mem_append] at fits
      rw [List.length_append] at room
      rcases ih fits.1 (by omega) with stands | ⟨failure, halted⟩
      · cases served : engine.served move with
        | false => exact .inr (stands.halted served)
        | true =>
            rw [← List.append_assoc]
            refine .inl (stands.move switching served
              (fun record gained => fits.2 record (Option.mem_toList.mpr gained)) ?_)
            rw [List.length_append]
            omega
      · exact .inr ⟨failure, halted.of_spared (halted.stalled.spared app move)⟩
  | returned reaches ended ih =>
      rcases ih fits room with stands | ⟨failure, halted⟩
      · refine .inl ⟨?_, stands.unfailed, stands.swept⟩
        rcases stands.logs with ⟨written, queued, pending, split, delivering, stopping⟩
        exact ⟨written, queued, pending, split,
          { delivering with sequenced := { delivering.sequenced with } },
          ⟨stopping.turnedAway, stopping.collected, stopping.ended⟩⟩
      · exact .inr ⟨failure, halted.verdict, halted.chain, halted.watermark⟩

theorem Stands.of_open {schedule : Recovery.Schedule} {options : RecoveryOptions}
    {device : Faulty MemoryDevice} {state : σ} {report : RecoveryReport}
    (opened : openUnder schedule app config options device state = .ok (report, engine)) :
    ∃ old, Stands config report.nextLsn old [] engine := by
  rcases Device.Reliable.reads device trivial with ⟨old, reads⟩
  have logs := logs_of_open trivial reads opened
  rcases recovered_of_open opened with ⟨_, rfl⟩
  exact ⟨old, ⟨[], logs⟩, rfl, fun ended => absurd rfl ended⟩

/-- Whatever is done to a log on a disk in memory that can be made to fail, with the switch
set at any time: when a call that stops the log returns well, every number handed out is on
the disk and all of it is synced, and if the device has failed the log, the call returns that
failure, as it does as soon as there is one. That is so for the first call, and for each later
one after a first that returned well. -/
theorem shutdown_safe {schedule : Recovery.Schedule} {options : RecoveryOptions}
    {device : Faulty MemoryDevice} {state : σ} {report : RecoveryReport}
    (opened : openUnder schedule app config options device state = .ok (report, engine))
    (reaches : Reaches app engine records before) (fits : ∀ record ∈ records, record.Fits)
    (room : report.nextLsn + records.length < Sequencer.wordSize)
    (well : before.isOpen = false → before.writer.verdict = some (.ok ())) :
    (∀ result after, Stops app before result after →
      (result = .ok () → Safe report.nextLsn after) ∧
        ∀ failure, after.chain.failure = some failure → result = .error (.durability failure)) ∧
    ∀ added now failure, before.isOpen = true → Reaches app before.requestStop added now →
      now.chain.failure = some failure →
      Stops app before (.error (.durability failure))
        { now with watermark := now.watermark.close } := by
  rcases Stands.of_open opened with ⟨old, opening⟩
  have stood : ∀ {now}, Reaches app engine records now →
      Stands config report.nextLsn old records now ∨ ∃ failure, Halted failure now := by
    intro now reached
    have stands := reached.stands (.inl opening) fits (by rw [List.length_nil]; omega)
    rw [List.nil_append] at stands
    exact stands
  constructor
  · intro result after stops
    cases stops with
    | again closed =>
        have ended := well closed
        rcases stood reaches with stands | ⟨failure, halted⟩
        · refine ⟨fun _ => stands.safe (by rw [ended]; exact Option.some_ne_none _), ?_⟩
          intro failure failed
          rw [stands.sequenced.failure] at failed
          cases failed
        · rw [halted.verdict] at ended
          cases ended
    | @first running added now stopping outcome ended =>
        rcases stood (reaches.stopping stopping) with stands | ⟨failure, halted⟩
        · refine ⟨fun _ => ?_, ?_⟩
          · have safe := stands.safe (by rw [ended]; exact Option.some_ne_none _)
            exact ⟨safe.held, safe.synced⟩
          · intro failure failed
            rw [show now.chain.failure = none from stands.sequenced.failure] at failed
            cases failed
        · rw [halted.verdict] at ended
          cases ended
          refine ⟨nofun, ?_⟩
          intro failure' failed
          rw [show now.chain.failure = some failure from halted.chain] at failed
          cases failed
          rfl
  · intro added now failure running stopping failed
    rcases stood (reaches.stopping stopping) with stands | ⟨failure', halted⟩
    · rw [stands.sequenced.failure] at failed
      cases failed
    · rw [halted.chain] at failed
      cases failed
      exact .first running stopping halted.verdict

/-- Three probes, with a fault to come that does not come in time. -/
def saving : List (Move Probe.Action (Faulty MemoryDevice)) :=
  [.append ⟨7, 0, 0, none, none, []⟩ false, .append ⟨8, 0, 0, none, none, []⟩ true, .collect,
    .onDevice fun device => device.onSwitch (·.failWritesAfter 5),
    .append ⟨9, 0, 0, none, none, []⟩ false]

/-- The first call that stops a log, and another one after it. -/
theorem shutdown_safe_saving :
    (forProbesAtRisk.run Probe.app saving).current = 102 ∧
      ∃ first second, (forProbesAtRisk.run Probe.app saving).shutdown = (some (.ok ()), first) ∧
        Safe 100 first ∧ first.shutdown = (some (.ok ()), second) ∧ Safe 100 second := by
  have opened : openUnder .late Probe.app .standard {}
      (.wrap (.onDisk .empty) : Faulty MemoryDevice) .empty =
        .ok (.initial none Lsn.first, forProbesAtRisk) := rfl
  have switching : ∀ move ∈ saving, move.Switching := by
    simp only [saving, List.forall_mem_cons]
    exact ⟨trivial, trivial, trivial, ⟨_, rfl⟩, trivial, nofun⟩
  have accepted : forProbesAtRisk.accepted Probe.app saving =
      [probeRecord 100 7, probeRecord 101 8, probeRecord 102 9] := by decide +kernel
  have fits : ∀ record ∈ forProbesAtRisk.accepted Probe.app saving, record.Fits := by
    rw [accepted]
    simp only [List.forall_mem_cons]
    exact ⟨⟨by decide, by decide, by decide⟩, ⟨by decide, by decide, by decide⟩,
      ⟨by decide, by decide, by decide⟩, by simp⟩
  have room : (RecoveryReport.initial none Lsn.first).nextLsn +
      (forProbesAtRisk.accepted Probe.app saving).length < Sequencer.wordSize := by
    rw [accepted]
    decide
  have reaches := (Reaches.start : Reaches Probe.app forProbesAtRisk [] _).run switching
  rw [List.nil_append] at reaches
  have current : (forProbesAtRisk.run Probe.app saving).current = 102 := by decide +kernel
  have running : (forProbesAtRisk.run Probe.app saving).isOpen = true := by decide +kernel
  have ends : (forProbesAtRisk.run Probe.app saving).endsWell = true := by decide +kernel
  have ends_again : (forProbesAtRisk.run Probe.app saving).shutdown.2.endsWell = true := by
    decide +kernel
  generalize forProbesAtRisk.run Probe.app saving = before at *
  have verdict := verdict_of_shutdown running (clean_of_endsWell ends)
  rcases returned : before.shutdown with ⟨result, first⟩
  rcases returned_again : first.shutdown with ⟨result', second⟩
  have result_eq := clean_of_endsWell ends
  have ended : first.writer.verdict = some (.ok ()) := by
    rw [shutdown, if_neg (not_not_intro running), Prod.mk.injEq] at returned
    rw [← returned.2]
    exact verdict
  rw [returned] at result_eq ends_again
  have result_eq' := clean_of_endsWell ends_again
  rw [returned_again] at result_eq'
  cases result_eq
  cases result_eq'
  have stops := stops_of_shutdown Probe.app returned
  have safe := (shutdown_safe opened reaches fits room
    (fun closed => by rw [running] at closed; cases closed)).1 _ _ stops
  have safe_again := (shutdown_safe opened (reaches.of_stops stops) fits room
    (fun _ => ended)).1 _ _ (stops_of_shutdown Probe.app returned_again)
  exact ⟨current, first, second, rfl, safe.1 rfl, returned_again, safe_again.1 rfl⟩

/-- The failure that a call returns that stops a log. -/
def stopFailure? (engine : Engine σ δ) : Option DurabilityFailure :=
  match engine.shutdown.1 with
  | some (.error (.durability failure)) => some failure
  | _ => none

theorem shutdown_of_stopFailure? {engine : Engine σ δ} {failure : DurabilityFailure}
    (failed : engine.stopFailure? = some failure) :
    engine.shutdown.1 = some (.error (.durability failure)) := by
  unfold stopFailure? at failed
  split at failed
  · rename_i result
    cases failed
    exact result
  · cases failed

/-- A probe that the device refuses. -/
def dooming : List (Move Probe.Action (Faulty MemoryDevice)) :=
  [.onDevice fun device => device.onSwitch (·.failWritesAfter 0),
    .append ⟨1, 0, 0, none, none, []⟩ false]

/-- After a first call that stops a log and returns the failure of the device, a second one
returns well, with nothing on the disk of the record that was handed out. -/
theorem shutdown_again_returns_ok : ∃ failure first second,
    (forProbesAtRisk.run Probe.app dooming).shutdown =
        (some (.error (.durability failure)), first) ∧
      first.current = 100 ∧ first.shutdown = (some (.ok ()), second) ∧
      second.chain.failure = some failure ∧ ¬ Safe 100 second := by
  have failed : (forProbesAtRisk.run Probe.app dooming).stopFailure? =
      some ⟨100, (StorageError.io (.simulatedCrash .write)).message⟩ := by decide +kernel
  have current : (forProbesAtRisk.run Probe.app dooming).shutdown.2.current = 100 := by
    decide +kernel
  have again : (forProbesAtRisk.run Probe.app dooming).shutdown.2.endsWell = true := by
    decide +kernel
  have failure_eq : (forProbesAtRisk.run Probe.app dooming).shutdown.2.shutdown.2.chain.failure =
      some ⟨100, (StorageError.io (.simulatedCrash .write)).message⟩ := by decide +kernel
  have nothing : (forProbesAtRisk.run Probe.app dooming).shutdown.2.shutdown.2.device.inner.disk =
      .empty := by decide +kernel
  have allocated : 100 ≤ (forProbesAtRisk.run Probe.app dooming).shutdown.2.shutdown.2.current := by
    decide +kernel
  generalize forProbesAtRisk.run Probe.app dooming = before at *
  refine ⟨_, before.shutdown.2, before.shutdown.2.shutdown.2,
    Prod.ext (shutdown_of_stopFailure? failed) rfl, current,
    Prod.ext (clean_of_endsWell again) rfl, failure_eq, fun safe => ?_⟩
  rcases safe.held 100 (Nat.le_refl _) allocated with
    ⟨index, record, ⟨chunk, records, found, _⟩, _⟩
  rw [nothing] at found
  cases found

end Engine

end Logbook

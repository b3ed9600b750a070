import Logbook.Proofs.Engine.Gathered
import Logbook.Proofs.Engine.Lined

/-!
# A device that fails

The writer fails in the first write, or the sync after it, that the device refuses. Then it
has come to its end: nothing more goes to the device, the watermark stays below the batch
that was refused, and all who log, close a window or wait for what is not written learn of
that failure, while what was written before stays acknowledged.
-/

namespace Logbook

namespace Move

variable {α σ δ : Type}

/-- What a move does to the device without the engine. -/
def outside : Move α δ → δ → δ
  | .onDevice work => work
  | _ => id

/-- What is left of the state of the application when the entry of a move is disposed
of. -/
def disposed (app : Application α σ) (move : Move α δ) (state : σ) : σ :=
  match move.entry? with
  | some entry => entry.dispose app state
  | none => state

end Move

namespace Engine

variable {α σ δ : Type} {app : Application α σ} {config : Config} {first : Nat}
  {records : List Record} {engine : Engine σ δ} {failure : DurabilityFailure}

/-! ### Before the failure -/

/-- The writer has neither failed nor been told to stop. -/
structure Running (engine : Engine σ δ) : Prop where
  isOpen : engine.isOpen = true
  going : engine.writer.stopRequested = false
  collecting : engine.writer.collecting = true
  verdict : engine.writer.verdict = none
  watermark : engine.watermark.failure = none

/-- A log that works has logged these records, and knows how far each has come. -/
def Works (config : Config) (first : Nat) (records : List Record) (engine : Engine σ δ) : Prop :=
  ∃ written queued pending, written ++ (queued.flatten ++ pending) = records ∧
    Lined config first written queued pending engine ∧ Running engine

theorem works_resume (config : Config) (report : RecoveryReport) (device : δ) (state : σ) :
    Works config report.nextLsn [] (resume config report device state) :=
  ⟨[], [], [], rfl,
    ⟨.of_resume config report device state, rfl, Nat.sub_add_cancel (nextLsn_pos report), trivial,
      _, rfl, rfl⟩,
    ⟨rfl, rfl, rfl, rfl, rfl⟩⟩

/-- A step that changes neither the windows nor the writer. -/
theorem Works.carry (works : Works config first records engine) {after : Engine σ δ}
    (same : after.config = engine.config ∧ after.chain = engine.chain ∧
      after.sequencer = engine.sequencer ∧ after.watermark = engine.watermark ∧
      after.isOpen = engine.isOpen ∧ after.writer = engine.writer) :
    Works config first records after := by
  rcases works with ⟨written, queued, pending, split, lined, running⟩
  rcases engine with ⟨_, _, _, _, _, _, _, _, _, _⟩
  rcases after with ⟨_, _, _, _, _, _, _, _, _, _⟩
  rcases same with ⟨rfl, rfl, rfl, rfl, rfl, rfl⟩
  refine ⟨written, queued, pending, split, ?_, ⟨running.isOpen, running.going, running.collecting,
    running.verdict, running.watermark⟩⟩
  exact ⟨⟨{ lined.sequenced with }, lined.tracked.places, lined.tracked.cursor⟩, lined.config_eq,
    lined.durable, lined.queue, lined.cursor⟩

theorem Works.log (works : Works config first records engine) (entry : Entry α) (sync : Bool)
    (room : first + records.length + (engine.logged app entry sync).toList.length <
      Sequencer.wordSize) :
    Works config first (records ++ (engine.logged app entry sync).toList)
      (engine.log app entry sync).2 := by
  rcases works with ⟨written, queued, pending, rfl, lined, running⟩
  refine ⟨written, queued, pending ++ (engine.logged app entry sync).toList, ?_,
    lined.log entry sync fun record logged => ?_, ?_⟩
  · simp only [List.append_assoc]
  · rw [Option.mem_def.mp logged] at room
    exact room
  · rcases log_frame app engine entry sync with ⟨_, _, _, logged⟩
    rw [logged]
    exact ⟨running.isOpen, running.going, running.collecting, running.verdict, running.watermark⟩

theorem Works.closeBarrier (works : Works config first records engine) :
    Works config first records engine.closeBarrier.2 := by
  rcases works with ⟨written, queued, pending, split, lined, running⟩
  refine ⟨written, queued, pending, split, lined.closeBarrier, ?_⟩
  rw [Engine.closeBarrier]
  split
  · exact running
  · exact ⟨running.isOpen, running.going, running.collecting, running.verdict, running.watermark⟩

theorem Works.collect (works : Works config first records engine) :
    Works config first records engine.collect := by
  rcases works with ⟨written, queued, pending, rfl, lined, running⟩
  obtain ⟨queued', pending', split, collected⟩ := lined.collect
  refine ⟨written, queued', pending', by rw [split], collected, ?_⟩
  have collects := lined.tracked.collects
  generalize engine.collect = after at collects
  cases collects with
  | barred | waiting => exact running
  | stopped here idle stop nothing =>
      rw [running.going] at stop
      cases stop
  | closed able closes called here closed =>
      rw [(lined.of_called called).collectClosed_eq here closed]
      exact ⟨running.isOpen, running.going, running.collecting, running.verdict,
        running.watermark⟩

variable [Device δ]

theorem write_of_ok (running : engine.writer.verdict = none) {batch : Batch} {rest : List Batch}
    (queue_eq : engine.writer.queue = batch :: rest) {device : δ}
    (persisted : persist engine.device batch = (.ok (), device)) :
    engine.write = { engine with device := device }.finishBatch batch rest := by
  rw [Engine.write, running, queue_eq]
  simp only [persisted]

theorem write_of_error (running : engine.writer.verdict = none) {batch : Batch}
    {rest : List Batch} (queue_eq : engine.writer.queue = batch :: rest) {error : StorageError}
    {device : δ} (persisted : persist engine.device batch = (.error error, device)) :
    engine.write = { engine with device := device }.abandon batch.last error := by
  rw [Engine.write, running, queue_eq]
  simp only [persisted]

theorem Works.write (works : Works config first records engine)
    (served : engine.served (.write : Move α δ) = true) :
    Works config first records engine.write := by
  rcases works with ⟨written, queued, pending, rfl, lined, running⟩
  cases queue_eq : engine.writer.queue with
  | nil =>
      rw [Engine.write, running.verdict, queue_eq]
      exact ⟨written, queued, pending, rfl, lined, running⟩
  | cons batch rest =>
      simp only [Engine.served, running.verdict, queue_eq] at served
      rcases persisted : persist engine.device batch with ⟨error | _, device⟩
      · rw [persisted] at served
        cases served
      · obtain ⟨head, more, rfl, _⟩ := lined.exists_head queue_eq
        rw [write_of_ok running.verdict queue_eq persisted]
        refine ⟨written ++ head, more, pending, ?_, lined.finishBatch queue_eq device,
          ⟨running.isOpen, running.going, running.collecting, running.verdict,
            running.watermark⟩⟩
        simp only [List.flatten_cons, List.append_assoc]

/-- A move that the device serves, and that does not stop the log, logs what it gains. -/
theorem Works.move (works : Works config first records engine) {move : Move α δ}
    (serving : move ≠ .requestStop) (served : engine.served move = true)
    (room : first + records.length + (engine.gained app move).toList.length <
      Sequencer.wordSize) :
    Works config first (records ++ (engine.gained app move).toList) (engine.move app move) := by
  have quiet : ∀ {after : Engine σ δ}, Works config first records after →
      Works config first (records ++ (none : Option Record).toList) after := by
    intro after works
    rw [Option.toList_none, List.append_nil]
    exact works
  cases move with
  | append | appendMember | commit => exact works.log _ _ room
  | beginTransaction | setLowestLive | onDevice =>
      exact quiet (works.carry ⟨rfl, rfl, rfl, rfl, rfl, rfl⟩)
  | requestStop => exact absurd rfl serving
  | closeBarrier => exact quiet works.closeBarrier
  | collect => exact quiet works.collect
  | write => exact quiet (works.write served)
  | finish =>
      have active : engine.finish = engine := by
        rcases works with ⟨_, _, _, _, _, running⟩
        rw [Engine.finish, if_pos (.inl running.collecting)]
      rw [Engine.move, active]
      exact quiet works

/-- Where the device fails a log that nobody stops, it fails in a write. -/
theorem Works.eq_write (works : Works config first records engine) {move : Move α δ}
    (unserved : engine.served move = false) : move = .write := by
  cases move with
  | write => rfl
  | finish =>
      rcases works with ⟨_, _, _, _, _, running⟩
      rw [Engine.served, if_pos (.inl running.collecting)] at unserved
      cases unserved
  | append | appendMember | commit | beginTransaction | setLowestLive | requestStop
  | closeBarrier | collect | onDevice => cases unserved

/-- A run in which the device fails works up to a write. -/
theorem Works.exists_failing (works : Works config first records engine)
    {moves : List (Move α δ)} (serving : .requestStop ∉ moves)
    (unserved : engine.servedRun app moves = false)
    (room : first + records.length + (engine.accepted app moves).length < Sequencer.wordSize) :
    ∃ front back, moves = front ++ .write :: back ∧
      Works config first (records ++ engine.accepted app front) (engine.run app front) ∧
      (engine.run app front).served (.write : Move α δ) = false := by
  induction moves generalizing engine records with
  | nil => cases unserved
  | cons move moves ih =>
      rw [List.mem_cons, not_or] at serving
      rw [accepted, List.length_append] at room
      cases served : engine.served move with
      | false =>
          obtain rfl := works.eq_write served
          refine ⟨[], moves, rfl, ?_, served⟩
          rw [accepted, List.append_nil]
          exact works
      | true =>
          rw [servedRun, served, Bool.true_and] at unserved
          have moved : Works config first (records ++ (engine.gained app move).toList)
              (engine.move app move) := works.move (Ne.symm serving.1) served (by omega)
          obtain ⟨front, back, rfl, ran, failing⟩ :=
            ih moved serving.2 unserved (by rw [List.length_append]; omega)
          refine ⟨move :: front, back, rfl, ?_, failing⟩
          rw [accepted, ← List.append_assoc]
          exact ran

/-! ### The failure -/

/-- The device refuses the oldest batch of a log, which has some of the accepted records,
none of them on the device so far. -/
structure Refused (records : List Record) (engine : Engine σ δ) (batch : Batch)
    (error : StorageError) (lost : List Record) : Prop where
  running : Running engine
  unfailed : engine.chain.failure = none
  head : ∃ rest, engine.writer.queue = batch :: rest
  persisted : (persist engine.device batch).1 = .error error
  region : batch.region = some (Region.pack .current engine.config.checksum lost)
  some_records : lost ≠ []
  accepted : ∀ record ∈ lost, record ∈ records
  /-- The batch has the records behind the watermark, up to its last. -/
  consecutive : Record.Consecutive (engine.durable + 1) lost
  last : batch.last = engine.durable + lost.length

theorem Works.refused (works : Works config first records engine)
    (unserved : engine.served (.write : Move α δ) = false) :
    ∃ batch error lost, Refused records engine batch error lost := by
  rcases works with ⟨written, queued, pending, rfl, lined, running⟩
  simp only [Engine.served, running.verdict] at unserved
  cases queue_eq : engine.writer.queue with
  | nil =>
      rw [queue_eq] at unserved
      cases unserved
  | cons batch rest =>
      simp only [queue_eq] at unserved
      obtain ⟨lost, more, rfl, last_eq, region_eq⟩ := lined.exists_head queue_eq
      have durable := lined.durable
      rcases persisted : persist engine.device batch with ⟨error | _, device⟩
      · have some_records : lost ≠ [] := by
          rintro rfl
          rw [persist, region_eq] at persisted
          cases persisted
        rw [if_neg some_records] at region_eq
        refine ⟨batch, error, lost, running, lined.sequenced.failure, ⟨rest, queue_eq⟩,
          by rw [persisted], ?_, some_records, fun record member => ?_, ?_, ?_⟩
        · rw [region_eq, lined.config_eq]
        · simp only [List.mem_append, List.flatten_cons]
          exact .inr (.inl (.inl member))
        · rw [Engine.durable, durable]
          exact lined.consecutive_queued
        · rw [Engine.durable]
          omega
      · rw [persisted] at unserved
        cases unserved

/-- The writer has failed, and all parts of the log know of it. -/
structure Halted (failure : DurabilityFailure) (engine : Engine σ δ) : Prop where
  verdict : engine.writer.verdict = some (.error failure)
  chain : engine.chain.failure = some failure
  watermark : engine.watermark.failure = some failure

omit [Device δ] in
theorem halted_abandon (unfailed : engine.chain.failure = none)
    (running : engine.watermark.failure = none) {device : δ} (lsn : Nat) (error : StorageError) :
    Halted ⟨lsn, error.message⟩ ({ engine with device := device }.abandon lsn error) where
  verdict := rfl
  chain := by simp only [abandon, fail, Chain.fail, unfailed, Option.getD_none]
  watermark := by simp only [abandon, fail, Watermark.fail, running, Option.getD_none]

/-- What the refusal of a batch leaves. -/
theorem Refused.halted {batch : Batch} {error : StorageError} {lost : List Record}
    (refused : Refused records engine batch error lost) :
    Halted ⟨batch.last, error.message⟩ engine.write ∧
      engine.write.isOpen = true ∧ engine.write.durable = engine.durable ∧
      engine.write.device = (persist engine.device batch).2 := by
  rcases refused.head with ⟨rest, queue_eq⟩
  have running := refused.running
  have persisted := refused.persisted
  rcases outcome : persist engine.device batch with ⟨result, device⟩
  rw [outcome] at persisted
  cases persisted
  rw [write_of_error running.verdict queue_eq outcome]
  exact ⟨halted_abandon refused.unfailed running.watermark batch.last error, running.isOpen, rfl,
    rfl⟩

/-! ### After the failure -/

/-- What some moves leave of an engine that has failed: entries are disposed of, each once,
and the device sees only what is done to it from outside. -/
structure Spared (app : Application α σ) (moves : List (Move α δ)) (before after : Engine σ δ) :
    Prop where
  chain : after.chain = before.chain
  sequencer : after.sequencer = before.sequencer
  watermark : after.watermark = before.watermark
  isOpen : .requestStop ∉ moves → after.isOpen = before.isOpen
  verdict : after.writer.verdict = before.writer.verdict
  device : after.device = moves.foldl (fun device move => move.outside device) before.device
  state : after.state = moves.foldl (fun state move => move.disposed app state) before.state

/-- The log has failed and the writer has ended, so neither has anything left to do. -/
structure Stalled (engine : Engine σ δ) : Prop where
  ended : engine.writer.verdict ≠ none
  failed : engine.chain.failure ≠ none

namespace Stalled

omit [Device δ] in
theorem exists_refusal (stalled : Stalled engine) : ∃ error, engine.refusal = some error := by
  rcases Option.ne_none_iff_exists'.mp stalled.failed with ⟨failure, failed⟩
  rw [refusal, failed]
  split
  · exact ⟨_, rfl⟩
  · exact ⟨_, rfl⟩

omit [Device δ] in
/-- An entry that is offered to an engine that has failed is disposed of. -/
theorem log_eq (stalled : Stalled engine) (app : Application α σ) (entry : Entry α)
    (sync : Bool) :
    (engine.log app entry sync).2 = { engine with state := entry.dispose app engine.state } := by
  rcases stalled.exists_refusal with ⟨error, refused⟩
  rw [log, refused]
  rfl

/-- One move of an engine that has failed. -/
theorem spared (stalled : Stalled engine) (app : Application α σ) (move : Move α δ) :
    Spared app [move] engine (engine.move app move) := by
  have still : ∀ {move : Move α δ}, move.outside = id → move.entry? = none →
      Spared app [move] engine engine := by
    intro move outside entry
    refine ⟨rfl, rfl, rfl, fun _ => rfl, rfl, ?_, ?_⟩
    · rw [List.foldl_cons, outside]
      rfl
    · rw [List.foldl_cons, Move.disposed, entry]
      rfl
  cases move with
  | append | appendMember | commit =>
      simp only [Engine.move, append, stalled.log_eq]
      exact ⟨rfl, rfl, rfl, fun _ => rfl, rfl, rfl, rfl⟩
  | beginTransaction | setLowestLive | onDevice =>
      exact ⟨rfl, rfl, rfl, fun _ => rfl, rfl, rfl, rfl⟩
  | requestStop =>
      exact ⟨rfl, rfl, rfl, fun serving => absurd List.mem_cons_self serving, rfl, rfl, rfl⟩
  | closeBarrier =>
      rcases stalled.exists_refusal with ⟨error, refused⟩
      rw [Engine.move, closeBarrier, refused]
      exact still rfl rfl
  | collect =>
      have barred : ¬ engine.writer.CanCollect engine.config := fun able =>
        stalled.ended able.2.1
      rw [Engine.move, collect, if_pos barred]
      exact still rfl rfl
  | write =>
      rcases Option.ne_none_iff_exists'.mp stalled.ended with ⟨outcome, ended⟩
      rw [Engine.move, write, ended]
      exact still rfl rfl
  | finish =>
      rw [Engine.move, finish, if_pos (.inr (.inr stalled.ended))]
      exact still rfl rfl

omit [Device δ] in
theorem of_spared (stalled : Stalled engine) {moves : List (Move α δ)} {after : Engine σ δ}
    (spared : Spared app moves engine after) : Stalled after where
  ended := spared.verdict ▸ stalled.ended
  failed := spared.chain ▸ stalled.failed

/-- Any number of moves of an engine that has failed. -/
theorem spared_run (stalled : Stalled engine) (app : Application α σ)
    (moves : List (Move α δ)) : Spared app moves engine (engine.run app moves) := by
  induction moves generalizing engine with
  | nil => exact ⟨rfl, rfl, rfl, fun _ => rfl, rfl, rfl, rfl⟩
  | cons move moves ih =>
      have first := stalled.spared app move
      have rest := ih (stalled.of_spared first)
      refine ⟨rest.chain.trans first.chain, rest.sequencer.trans first.sequencer,
        rest.watermark.trans first.watermark, fun serving => ?_, rest.verdict.trans first.verdict,
        ?_, ?_⟩
      · rw [List.mem_cons, not_or] at serving
        exact (rest.isOpen serving.2).trans
          (first.isOpen fun member => serving.1 (List.mem_singleton.mp member))
      · rw [run_cons, rest.device, first.device]
        rfl
      · rw [run_cons, rest.state, first.state]
        rfl

end Stalled

namespace Halted

omit [Device δ] in
theorem stalled (halted : Halted failure engine) : Stalled engine where
  ended := halted.verdict ▸ Option.some_ne_none _
  failed := halted.chain ▸ Option.some_ne_none _

omit [Device δ] in
theorem of_spared (halted : Halted failure engine) {moves : List (Move α δ)}
    {after : Engine σ δ} (spared : Spared app moves engine after) : Halted failure after where
  verdict := spared.verdict.trans halted.verdict
  chain := spared.chain ▸ halted.chain
  watermark := spared.watermark ▸ halted.watermark

end Halted

/-- What everyone learns from an engine whose writer has failed. -/
structure Contained (app : Application α σ) (failure : DurabilityFailure) (engine : Engine σ δ) :
    Prop where
  condition : engine.condition = .failed
  append : ∀ action sync, engine.append app action sync =
    (.failed (.durability failure), { engine with state := app.dispose action engine.state })
  appendSync : ∀ action, engine.appendSync app action =
    (some (.failed (.durability failure)),
      { engine with state := app.dispose action engine.state })
  appendMember : ∀ txn action, engine.appendMember app txn action =
    (.failed (.durability failure), txn,
      { engine with state := app.dispose action engine.state })
  commit : ∀ txn sync, engine.commit app txn sync = (.failed (.durability failure), engine)
  freeze : engine.freeze = (some (.error (.durability failure)), engine)
  waitFor_above : ∀ lsn, engine.durable < lsn →
    engine.waitFor lsn = some (.error (.durability failure))
  waitFor_below : ∀ lsn, lsn ≤ engine.durable → engine.waitFor lsn = some (.ok ())

theorem Halted.contained (halted : Halted failure engine) (isOpen : engine.isOpen = true) :
    Contained app failure engine := by
  have refusal : engine.refusal = some (.durability failure) := by
    rw [Engine.refusal, if_pos isOpen, halted.chain]
    rfl
  have refused : ∀ entry sync, engine.log app entry sync = (.failed (.durability failure),
      { engine with state := entry.dispose app engine.state }) := by
    intro entry sync
    rw [Engine.log, refusal]
    rfl
  constructor
  · rw [Engine.condition, halted.chain]
    rfl
  · exact fun action sync => refused (.plain action) sync
  · intro action
    rw [Engine.appendSync, Engine.append, refused]
    rfl
  · intro txn action
    rw [Engine.appendMember, refused]
    rfl
  · exact fun txn sync => refused (.commit txn.id) sync
  · rw [Engine.freeze, closeBarrier, refusal]
  · intro lsn above
    rw [durable] at above
    rw [waitFor, Watermark.waitFor, if_neg (Nat.not_le.mpr above), halted.watermark]
  · intro lsn below
    rw [durable] at below
    rw [waitFor, Watermark.waitFor, if_pos below]

/-- Whatever is asked of an engine that nobody stops, from its opening on, if the device
refuses anything: it refuses a batch in some write, and from then on, whatever is asked of
the engine, the device sees nothing more of it, the watermark stays below that batch, what
is offered to the log is disposed of, and all learn of the one failure, except who waits for
what the device holds. -/
theorem contained_run {schedule : Recovery.Schedule} {options : RecoveryOptions} {device : δ}
    {state : σ} {report : RecoveryReport} {moves : List (Move α δ)}
    (opened : openUnder schedule app config options device state = .ok (report, engine))
    (serving : .requestStop ∉ moves) (unserved : engine.servedRun app moves = false)
    (room : report.nextLsn + (engine.accepted app moves).length < Sequencer.wordSize) :
    ∃ front back batch error lost, moves = front ++ .write :: back ∧
      Refused (engine.accepted app front) (engine.run app front) batch error lost ∧
      ∀ middle rest, middle ++ rest = back →
        let failing := engine.run app front
        let failed := engine.run app (front ++ [.write])
        let after := engine.run app (front ++ .write :: middle)
        failed.device = (persist failing.device batch).2 ∧
          Spared app middle failed after ∧ after.durable = failing.durable ∧
          Contained app ⟨batch.last, error.message⟩ after := by
  rcases recovered_of_open opened with ⟨_, rfl⟩
  obtain ⟨front, back, rfl, works, failing⟩ :=
    (works_resume config report device _).exists_failing serving unserved
      (by rw [List.length_nil]; omega)
  rw [List.nil_append] at works
  obtain ⟨batch, error, lost, refused⟩ := works.refused failing
  refine ⟨front, back, batch, error, lost, rfl, refused, ?_⟩
  rintro middle rest rfl
  rcases refused.halted with ⟨halted, isOpen, durable_eq, device_eq⟩
  have serving_middle : .requestStop ∉ middle := fun member =>
    serving (List.mem_append_right _ (List.mem_cons_of_mem _ (List.mem_append_left _ member)))
  dsimp only
  rw [run_append, run_append]
  have spared := halted.stalled.spared_run app middle
  refine ⟨device_eq, spared, ?_, ?_⟩
  · rw [← durable_eq]
    exact congrArg Watermark.durable spared.watermark
  · exact (halted.of_spared spared).contained ((spared.isOpen serving_middle).trans isOpen)

/-- An engine for probes on a memory device that can be made to fail. -/
def forProbesAtRisk : Engine Probe.Journal (Faulty MemoryDevice) :=
  .resume .standard (.initial none Lsn.first) (.wrap (.onDisk .empty)) .empty

/-- The device takes the first of some probes and refuses the two after it. It would take
what comes then, but it is not asked any more. -/
def refusing : List (Move Probe.Action (Faulty MemoryDevice)) :=
  [.append ⟨7, 0, 0, none, none, []⟩ true, .collect, .write,
    .onDevice (·.onSwitch (·.failWritesAfter 0)),
    .append ⟨8, 0, 0, none, none, []⟩ false, .append ⟨9, 0, 0, none, none, []⟩ true,
    .collect, .write,
    .onDevice (·.onSwitch (·.failWritesAfter 9)),
    .appendMember 1 ⟨10, 0, 0, none, none, []⟩, .collect, .write]

theorem contained_run_refusing :
    (forProbesAtRisk.run Probe.app refusing).durable = 100 ∧
      (forProbesAtRisk.run Probe.app refusing).current = 102 ∧
      (forProbesAtRisk.run Probe.app refusing).device.switch.writes = 1 ∧
      ∃ failure, Contained Probe.app failure (forProbesAtRisk.run Probe.app refusing) := by
  have opened : openUnder .late Probe.app .standard {}
      (.wrap (.onDisk .empty) : Faulty MemoryDevice) .empty =
        .ok (.initial none Lsn.first, forProbesAtRisk) := rfl
  have serving : .requestStop ∉ refusing := by simp [refusing]
  have unserved : forProbesAtRisk.servedRun Probe.app refusing = false := by decide +kernel
  have room : (RecoveryReport.initial none Lsn.first).nextLsn +
      (forProbesAtRisk.accepted Probe.app refusing).length < Sequencer.wordSize := by
    decide +kernel
  obtain ⟨front, back, batch, error, lost, split, _, after⟩ :=
    contained_run opened serving unserved room
  refine ⟨by decide +kernel, by decide +kernel, by decide +kernel,
    ⟨batch.last, error.message⟩, ?_⟩
  rw [split]
  exact (after back [] (List.append_nil back)).2.2.2

end Engine

end Logbook

import Logbook.Proofs.Engine.Quiet
import Logbook.Proofs.KeyValue.Rebuilt

/-!
# A store through its rounds

Through any number of rounds a chronicle upholds this: the disk holds the records of
a first stretch of its history, cut into regions somewhere; the engine has the rest
in its windows; and the store shows what stands of the history. What a crash leaves
is a first stretch of the regions, so recovery finds a log of the same kind.
-/

namespace Logbook

theorem Disk.crashImage_regions (disk : Disk) (point : CrashPoint) :
    ∃ count, (disk.crashImage point).regions = disk.regions.take count := by
  cases point with
  | afterWrite => exact ⟨disk.regions.length, List.take_length.symm⟩
  | loseUnsynced => exact ⟨disk.synced, rfl⟩
  | tearTail => exact ⟨disk.regions.length - 1, List.dropLast_eq_take⟩

/-- A caller who relies on a result gets one just if there is one. -/
theorem Outcome.expect_eq_ok_iff {β : Type} {outcome : Outcome β} {complaint : String}
    {value : β} : outcome.expect complaint = .ok value ↔ outcome = .ok value := by
  cases outcome with
  | ok | panicked => exact Iff.rfl
  | failed => exact ⟨nofun, nofun⟩

namespace KeyValue

namespace Holding

variable {policy : FormatPolicy} {pieces : List Piece} {history : List Stamped}

/-- Pieces that a log starts with hold a first stretch of its history. -/
theorem of_append {front back : List Piece} (holding : Holding policy (front ++ back) history) :
    ∃ kept, kept <+: history ∧ Holding policy front kept := by
  have records_eq := holding.records_eq
  rw [List.flatMap_append] at records_eq
  refine ⟨history.take (front.flatMap Piece.records).length, List.take_prefix _ _, ?_⟩
  constructor
  · exact (Piece.cut_append.mp holding.cut).1
  · exact fun piece member => holding.current piece (List.mem_append_left _ member)
  · exact Store.records_take records_eq
  · have loggable := holding.loggable
    rw [← List.take_append_drop (front.flatMap Piece.records).length history] at loggable
    exact loggable.of_append

/-- Pieces with the first of the mutations that come next. -/
theorem extend {held : List Piece} {base recent : List Stamped}
    (holding : Holding policy held base) (loggable : Loggable (base ++ recent))
    (is_front : pieces.flatMap Piece.records <+: (Store.empty.applyAll base).records recent)
    (cut : Piece.Cut policy (Lsn.first + base.length) pieces)
    (current : ∀ piece ∈ pieces, piece.format = .current) :
    ∃ kept, kept <+: base ++ recent ∧ Holding policy (held ++ pieces) kept := by
  rcases is_front with ⟨rest, split⟩
  have length : (held.flatMap Piece.records).length = base.length := by
    rw [holding.records_eq, Store.length_records]
  refine ⟨base ++ recent.take (pieces.flatMap Piece.records).length, ?_, ?_⟩
  · exact (List.prefix_append_right_inj base).mpr (List.take_prefix _ _)
  · constructor
    · rw [Piece.cut_append, length]
      exact ⟨holding.cut, cut⟩
    · rw [List.forall_mem_append]
      exact ⟨holding.current, current⟩
    · rw [List.flatMap_append, holding.records_eq, Store.records_append,
        ← Store.records_take split]
    · rw [← List.take_append_drop (pieces.flatMap Piece.records).length recent,
        ← List.append_assoc] at loggable
      exact loggable.of_append

end Holding

/-- A log in memory whose writer ends well is opened on the same disk again. -/
theorem Log.reopenUnder_eq {log : Log} {device : MemoryDevice} {schedule : Recovery.Schedule}
    {options : RecoveryOptions} (running : log.engine.isOpen = true)
    (no_failure : ∀ failure,
      log.engine.requestStop.settle.writer.verdict ≠ some (.error failure))
    (device_eq : log.engine.requestStop.settle.device = .memory device) :
    log.reopenUnder schedule options =
      (openUnder schedule log.engine.requestStop.settle.config options
        (.memory (.onDisk device.disk))).expect "Failed to reopen log" := by
  unfold reopenUnder Engine.shutdown
  rw [if_neg (not_not_intro running)]
  dsimp only
  rw [device_eq, Volume.reopen]
  cases verdict : log.engine.requestStop.settle.writer.verdict with
  | none => rfl
  | some outcome =>
      cases outcome with
      | error failure => exact absurd verdict (no_failure failure)
      | ok => rfl

/-- What survives of a history are the mutations up to the last one that was kept. -/
theorem surviving_eq {history kept : List Stamped} (ordered : history.Pairwise (·.lsn < ·.lsn))
    (is_front : kept <+: history) {report : RecoveryReport}
    (highest : report.highest = kept.getLast?.map (·.lsn)) :
    Chronicle.surviving history report = kept := by
  rcases is_front with ⟨lost, rfl⟩
  rw [Chronicle.surviving, highest]
  cases newest : kept.getLast? with
  | none =>
      rw [List.getLast?_eq_none_iff.mp newest]
      simp
  | some last =>
      rcases List.getLast?_eq_some_iff.mp newest with ⟨before, rfl⟩
      rw [List.append_assoc, List.singleton_append, List.pairwise_append,
        List.pairwise_cons] at ordered
      rcases ordered with ⟨_, ⟨behind, _⟩, ahead⟩
      rw [List.filter_append, List.filter_eq_self.mpr, List.filter_eq_nil_iff.mpr,
        List.append_nil]
      · intro later member
        have lt := behind later member
        simpa using lt
      · intro earlier member
        rcases List.mem_append.mp member with inside | here
        · have lt := ahead earlier inside last List.mem_cons_self
          simpa using Nat.le_of_lt lt
        · rw [List.mem_singleton.mp here]
          simp

/-- The history from which an engine goes on is followed by the next number. -/
theorem nextLsn_eq {history : List Stamped}
    (consecutive : history.map (·.lsn) = List.range' Lsn.first history.length)
    {report : RecoveryReport} (highest : report.highest = history.getLast?.map (·.lsn)) :
    report.nextLsn = Lsn.first + history.length := by
  rw [RecoveryReport.nextLsn, highest]
  cases newest : history.getLast? with
  | none =>
      rw [List.getLast?_eq_none_iff.mp newest]
      rfl
  | some last =>
      have ends := congrArg List.getLast? consecutive
      rw [List.getLast?_map, newest, List.getLast?_range'] at ends
      split at ends
      · cases ends
      · have last_eq : last.lsn = _ := Option.some.inj ends
        have some_logged := List.length_pos_of_mem (List.mem_of_getLast? newest)
        change last.lsn + 1 = _
        omega

namespace Chronicle

/-! ### Callers who wait -/

/-- Quiet moves are steps of a round. -/
theorem stepAll_of_quiet {moves : List (Move Action Volume)} (quiet : ∀ move ∈ moves, move.Quiet) :
    ∃ steps : List Step, (∀ step ∈ steps, step.operation? = none) ∧
      ∀ chronicle : Chronicle,
        chronicle.stepAll steps = .ok (chronicle.onEngine (·.run app moves)) := by
  induction moves with
  | nil => exact ⟨[], nofun, fun _ => rfl⟩
  | cons move moves ih =>
      rw [List.forall_mem_cons] at quiet
      rcases ih quiet.2 with ⟨steps, silent, ran⟩
      have first : ∃ step : Step, step.operation? = none ∧ ∀ chronicle : Chronicle,
          chronicle.step step = .ok (chronicle.onEngine (·.move app move)) := by
        cases move with
        | closeBarrier => exact ⟨.closeBarrier, rfl, fun _ => rfl⟩
        | collect => exact ⟨.collect, rfl, fun _ => rfl⟩
        | write => exact ⟨.write, rfl, fun _ => rfl⟩
        | finish => exact ⟨.finish, rfl, fun _ => rfl⟩
        | append | beginTransaction | appendMember | commit | setLowestLive | requestStop
        | onDevice => exact absurd quiet.1 id
      rcases first with ⟨step, step_silent, stepped⟩
      refine ⟨step :: steps, List.forall_mem_cons.mpr ⟨step_silent, silent⟩, ?_⟩
      intro chronicle
      rw [stepAll, stepped]
      exact ran _

/-- A caller who waits for a mutation takes part in a round like any other. -/
theorem stepAll_of_apply {chronicle : Chronicle} {operation : Operation} {sync : Bool}
    {receipt : Receipt} {log : Log}
    (applied : chronicle.log.apply operation sync = (.ok receipt, log)) :
    ∃ steps : List Step, (∀ step ∈ steps, step.operation? = none) ∧
      chronicle.stepAll (.apply operation sync :: steps) =
        .ok ⟨log, chronicle.history ++ [⟨receipt.lsn, operation⟩]⟩ := by
  simp only [Log.apply, Log.append] at applied
  simp only [stepAll, step]
  generalize chronicle.log.engine.append app (chronicle.log.store.build operation) sync = outcome
    at applied ⊢
  rcases outcome with ⟨lsn | error | panic, engine⟩
  · cases applied
    rcases engine.settle_eq_run app with ⟨moves, quiet, settled⟩
    rcases stepAll_of_quiet quiet with ⟨steps, silent, ran⟩
    refine ⟨steps, silent, ?_⟩
    rw [settled]
    exact ran _
  · cases applied
  · cases applied

variable {config : Config} {base : List Stamped} {held : List Piece} {chronicle : Chronicle}

/-- A mutation that has an encoding is logged under the next number. -/
theorem step_of_encoded {first lsn : Nat} {old : List Chunk} {written : List Piece}
    {records : List Record}
    (logs : Engine.Logs config first old written records chronicle.log.engine)
    (running : chronicle.log.engine.isOpen = true) (next : first + records.length = lsn)
    {operation : Operation} {payload : Bytes}
    (encoded : (Entry.plain (chronicle.log.store.build operation)).encode app = .ok payload)
    (sync : Bool) (fits : Record.Fits ⟨lsn, chronicle.log.engine.lowestLive, payload⟩)
    (room : lsn + 1 < Sequencer.wordSize) :
    ∃ sequencer chain added,
      let engine : Engine Store Volume :=
        { chronicle.log.engine with
          sequencer := sequencer
          chain := chain
          state := chronicle.log.store.apply operation lsn }
      chronicle.step (.apply operation sync) =
          .ok ⟨⟨engine, chronicle.log.report⟩, chronicle.history ++ [⟨lsn, operation⟩]⟩ ∧
        Engine.Logs config first old (written ++ added)
          (records ++ [⟨lsn, chronicle.log.engine.lowestLive, payload⟩]) engine := by
  have sequenced := logs.sequenced
  have next_eq : chronicle.log.engine.sequencer.next = lsn := sequenced.next.trans next
  have admitted : chronicle.log.engine.refusal = none := by
    rw [Engine.refusal, running, sequenced.failure]
    rfl
  have appended := sequenced.log_of_encoded admitted encoded sync
  have logged : chronicle.log.engine.logged app
      (.plain (chronicle.log.store.build operation)) sync =
        some ⟨lsn, chronicle.log.engine.lowestLive, payload⟩ := by
    rw [Engine.logged_of_log encoded appended, Engine.nextRecord, next_eq]
  have gained_fits : ∀ record ∈ chronicle.log.engine.logged app
      (.plain (chronicle.log.store.build operation)) sync, record.Fits := by
    rw [logged]
    rintro record ⟨⟩
    exact fits
  have enough : first + records.length + (chronicle.log.engine.logged app
      (.plain (chronicle.log.store.build operation)) sync).toList.length <
        Sequencer.wordSize := by
    rw [logged, next]
    exact room
  rcases logs.log gained_fits enough with ⟨added, after⟩
  rw [logged, Option.toList_some, appended] at after
  refine ⟨chronicle.log.engine.sequencer.allocate.2, (chronicle.log.engine.chain.append
    (chronicle.log.engine.nextRecord payload) sync).2, added, ?_, ?_⟩
  · rw [Chronicle.step, Engine.append, appended, ← next_eq]
    rfl
  · rw [← next_eq] at after ⊢
    exact after

/-- What a chronicle upholds since it was opened with a first stretch `base` of its
history in the pieces `held`. -/
structure Upheld (config : Config) (base : List Stamped) (held : List Piece)
    (chronicle : Chronicle) : Prop where
  holding : Holding config.formatPolicy held base
  logs : ∃ written recent, chronicle.history = base ++ recent ∧
    Engine.Logs config (Lsn.first + base.length) (held.map Piece.chunk) written
      ((Store.empty.applyAll base).records recent) chronicle.log.engine
  loggable : Loggable chronicle.history
  shows : chronicle.log.store.Shows chronicle.history
  memory : chronicle.log.engine.device.InMemory
  isOpen : chronicle.log.engine.isOpen = true
  lowestLive : chronicle.log.engine.lowestLive = Lsn.first

/-- A log that is opened on pieces upholds their history. -/
theorem upheld_open (valid : config.validate = .ok ())
    (holding : Holding config.formatPolicy held base) {device : MemoryDevice}
    (reads : Device.Reads (Volume.memory device) (held.map Piece.chunk))
    (schedule : Recovery.Schedule) :
    ∃ log, Log.openUnder schedule config {} (.memory device) = .ok log ∧
      log.report.highest = base.getLast?.map (·.lsn) ∧ Upheld config base held ⟨log, base⟩ := by
  rcases holding.recovers schedule with
    ⟨report, final, uses, recovered, highest, boundary, shows⟩
  have opened : Engine.openUnder schedule app config {} (Volume.memory device) .empty =
      .ok (report, .resume config report (.memory device) final) := by
    rw [Engine.openUnder, valid, reads]
    simp only [recovered]
  refine ⟨⟨.resume config report (.memory device) final, report⟩, ?_, highest, ?_⟩
  · rw [Log.openUnder, opened]
  · have logs : Engine.Logs config report.nextLsn (held.map Piece.chunk) [] [] _ :=
      Engine.logs_of_open trivial reads opened
    rw [nextLsn_eq holding.loggable.consecutive highest] at logs
    exact {
      holding := holding
      logs := ⟨[], [], (List.append_nil base).symm, logs⟩
      loggable := holding.loggable
      shows := shows
      memory := ⟨device, rfl⟩
      isOpen := rfl
      lowestLive := boundary }

namespace Upheld

theorem length_recent {recent : List Stamped} (split : chronicle.history = base ++ recent) :
    Lsn.first + base.length + ((Store.empty.applyAll base).records recent).length =
      Lsn.first + chronicle.history.length := by
  rw [Store.length_records, split, List.length_append, Nat.add_assoc]

/-- A quiet move changes nothing that a chronicle tells. -/
theorem quiet (upheld : Upheld config base held chronicle) (move : Move Action Volume)
    (quiet : move.Quiet) (room : Lsn.first + chronicle.history.length < Sequencer.wordSize) :
    Upheld config base held (chronicle.onEngine (·.move app move)) := by
  rcases upheld.logs with ⟨written, recent, split, logs⟩
  rcases logs.move_of_gained_eq_none (Engine.faultless_of_inMemory upheld.memory quiet.inside)
    (Engine.gained_of_quiet quiet) (by rw [length_recent split]; exact room) with ⟨added, moved⟩
  rcases Engine.quiet_frame app chronicle.log.engine quiet with
    ⟨chain, watermark, writer, device, frame⟩
  exact {
    holding := upheld.holding
    logs := ⟨_, recent, split, moved⟩
    loggable := upheld.loggable
    shows := by
      change (chronicle.log.engine.move app move).state.Shows chronicle.history
      rw [frame]
      exact upheld.shows
    memory := Engine.inMemory_move upheld.memory quiet.inside
    isOpen := by
      change (chronicle.log.engine.move app move).isOpen = true
      rw [frame]
      exact upheld.isOpen
    lowestLive := by
      change (chronicle.log.engine.move app move).lowestLive = Lsn.first
      rw [frame]
      exact upheld.lowestLive }

/-- A mutation is logged, and the chronicle tells it. -/
theorem apply (upheld : Upheld config base held chronicle) {operation : Operation}
    (short : operation.Short) (sync : Bool)
    (room : Lsn.first + chronicle.history.length + 1 < Sequencer.wordSize) :
    ∃ after, chronicle.step (.apply operation sync) = .ok after ∧
      Upheld config base held after ∧
      after.history.length = chronicle.history.length + 1 := by
  have loggable := upheld.loggable.concat short (Nat.lt_of_succ_lt room)
  have fits := loggable.record_fits
  have record_eq : (Store.empty.applyAll chronicle.history).record
      ⟨Lsn.first + chronicle.history.length, operation⟩ =
      ⟨Lsn.first + chronicle.history.length, chronicle.log.engine.lowestLive,
        (chronicle.log.store.build operation).payload⟩ := by
    rw [Store.record, upheld.lowestLive, Store.build, Store.build,
      upheld.shows.supersededBy_eq upheld.loggable.shows]
  rcases upheld.logs with ⟨written, recent, split, logs⟩
  rw [record_eq] at fits
  rcases step_of_encoded logs upheld.isOpen (length_recent split) (Action.encode_plain short) sync
    fits room with ⟨sequencer, chain, added, stepped, logs⟩
  have records_eq : (Store.empty.applyAll base).records recent ++
      [(Store.empty.applyAll chronicle.history).record
        ⟨Lsn.first + chronicle.history.length, operation⟩] =
      (Store.empty.applyAll base).records
        (recent ++ [⟨Lsn.first + chronicle.history.length, operation⟩]) := by
    rw [Store.records_append, ← Store.applyAll_append, ← split]
    rfl
  rw [← record_eq, records_eq] at logs
  exact ⟨_, stepped, {
    holding := upheld.holding
    logs := ⟨_, _, by rw [split, List.append_assoc], logs⟩
    loggable := loggable
    shows := upheld.shows.apply (timely_of_inOrder (inOrder_of_ordered loggable.ordered))
    memory := upheld.memory
    isOpen := upheld.isOpen
    lowestLive := upheld.lowestLive }, List.length_append⟩

/-- Every step succeeds. -/
theorem step (upheld : Upheld config base held chronicle) {step : Step}
    (short : ∀ operation ∈ step.operation?, operation.Short)
    (room : Lsn.first + chronicle.history.length + step.operation?.toList.length <
      Sequencer.wordSize) :
    ∃ after, chronicle.step step = .ok after ∧ Upheld config base held after ∧
      after.history.length = chronicle.history.length + step.operation?.toList.length := by
  cases step with
  | apply operation sync => exact upheld.apply (short operation rfl) sync room
  | closeBarrier => exact ⟨_, rfl, upheld.quiet .closeBarrier trivial room, rfl⟩
  | collect => exact ⟨_, rfl, upheld.quiet .collect trivial room, rfl⟩
  | write => exact ⟨_, rfl, upheld.quiet .write trivial room, rfl⟩
  | finish => exact ⟨_, rfl, upheld.quiet .finish trivial room, rfl⟩

/-- All steps of a round succeed. -/
theorem stepAll (upheld : Upheld config base held chronicle) {steps : List Step}
    (short : ∀ operation ∈ steps.filterMap Step.operation?, operation.Short)
    (room : Lsn.first + chronicle.history.length +
      (steps.filterMap Step.operation?).length < Sequencer.wordSize) :
    ∃ after, chronicle.stepAll steps = .ok after ∧ Upheld config base held after ∧
      after.history.length =
        chronicle.history.length + (steps.filterMap Step.operation?).length := by
  induction steps generalizing chronicle with
  | nil => exact ⟨chronicle, rfl, upheld, rfl⟩
  | cons first rest ih =>
      have split : (first :: rest).filterMap Step.operation? =
          first.operation?.toList ++ rest.filterMap Step.operation? := by
        rw [List.filterMap_cons]
        cases first.operation? with
        | none => rfl
        | some operation => rfl
      rw [split] at short room ⊢
      rw [List.length_append] at room ⊢
      rw [List.forall_mem_append] at short
      rcases upheld.step (fun operation told => short.1 operation (Option.mem_toList.mpr told))
        (by omega) with ⟨middle, stepped, upheld, length⟩
      rcases ih upheld short.2 (by omega) with ⟨after, ran, upheld, total⟩
      refine ⟨after, ?_, upheld, by omega⟩
      rw [Chronicle.stepAll, stepped]
      exact ran

end Upheld

/-- What the log is opened on at the end of a round: the first of the regions that its
writer has left on the disk. -/
theorem exists_opened_on {first : Nat} {old : List Chunk} {written : List Piece}
    {records : List Record}
    (logs : Engine.Logs config first old written records chronicle.log.engine)
    (memory : chronicle.log.engine.device.InMemory)
    (running : chronicle.log.engine.isOpen = true)
    (room : first + records.length < Sequencer.wordSize) (ending : Ending) :
    ∃ pieces disk count, pieces.flatMap Piece.records <+: records ∧
      Piece.Cut .auto first pieces ∧ (∀ piece ∈ pieces, piece.format = .current) ∧
      disk.regions = (old ++ pieces.map Piece.chunk).take count ∧
      ∀ schedule log, chronicle.opened ending schedule = .ok log ↔
        Log.openUnder schedule config {} (.memory (.onDisk disk)) = .ok log := by
  have admits : FormatPolicy.auto.Admits .current := trivial
  cases ending with
  | reopened =>
      rcases logs.stop app memory room with ⟨added, stopped, device, device_eq⟩
      rcases stopped.leaves admits with ⟨is_front, cut, current, reads⟩
      rw [device_eq, Volume.reads_memory] at reads
      have regions := device.reads.unique reads
      refine ⟨written ++ added, device.disk, device.disk.regions.length, is_front, cut, current,
        ?_, ?_⟩
      · rw [← regions, List.take_length]
      · intro schedule log
        rw [opened, Log.reopenUnder_eq running stopped.verdict device_eq, stopped.config_eq]
        exact Outcome.expect_eq_ok_iff
  | crashed point =>
      rcases logs.leaves admits with ⟨is_front, cut, current, reads⟩
      rcases memory with ⟨device, device_eq⟩
      rw [device_eq, Volume.reads_memory] at reads
      have regions := device.reads.unique reads
      rcases device.disk.crashImage_regions point with ⟨count, image⟩
      refine ⟨written, device.disk.crashImage point, count, is_front, cut, current, ?_, ?_⟩
      · rw [← regions]
        exact image
      · intro schedule log
        rw [opened, Log.crashUnder, Log.volume, device_eq, logs.config_eq]
        rfl

/-- The log that is opened at the end of a round is open, and tells what survived. -/
theorem Upheld.opened (upheld : Upheld config base held chronicle)
    (valid : config.validate = .ok ()) (policy : config.formatPolicy ≠ .legacy)
    (room : Lsn.first + chronicle.history.length < Sequencer.wordSize) (ending : Ending)
    (schedule : Recovery.Schedule) :
    ∃ log, chronicle.opened ending schedule = .ok log ∧
      ∃ base held, Upheld config base held ⟨log, surviving chronicle.history log.report⟩ := by
  rcases upheld.logs with ⟨written, recent, split, logs⟩
  have loggable := upheld.loggable
  rcases exists_opened_on logs upheld.memory upheld.isOpen
    (by rw [length_recent split]; exact room) ending with
    ⟨pieces, disk, count, is_front, cut, current, regions, opened_iff⟩
  rw [split] at loggable ⊢
  rcases upheld.holding.extend loggable is_front
    (cut.of_current current (FormatPolicy.admits_current policy)) current with
    ⟨kept, kept_front, holding⟩
  rw [← List.take_append_drop count (held ++ pieces)] at holding
  rcases holding.of_append with ⟨left, is_left, holding⟩
  rw [← List.map_append, ← List.map_take] at regions
  have reads : Device.Reads (Volume.memory (.onDisk disk))
      (((held ++ pieces).take count).map Piece.chunk) := by
    rw [← regions]
    exact Volume.reads_memory.mpr (MemoryDevice.reads _)
  rcases upheld_open valid holding reads schedule with ⟨log, opened, highest, upheld⟩
  rw [← surviving_eq loggable.ordered (is_left.trans kept_front) highest] at upheld
  exact ⟨log, (opened_iff schedule log).mpr opened, _, _, upheld⟩

/-- A round succeeds. -/
theorem Upheld.play (upheld : Upheld config base held chronicle)
    (valid : config.validate = .ok ()) (policy : config.formatPolicy ≠ .legacy) {round : Round}
    (short : ∀ operation ∈ round.operations, operation.Short)
    (room : Lsn.first + chronicle.history.length + round.operations.length <
      Sequencer.wordSize) :
    ∃ after, chronicle.play round = .ok after ∧ (∃ base held, Upheld config base held after) ∧
      after.history.length ≤ chronicle.history.length + round.operations.length := by
  rcases upheld.stepAll short room with ⟨middle, ran, upheld, length⟩
  rw [Nat.add_assoc] at room
  rw [Round.operations, ← length] at room
  rcases upheld.opened valid policy room round.ending round.schedule with
    ⟨log, opened, upheld⟩
  refine ⟨⟨log, surviving middle.history log.report⟩, ?_, upheld, ?_⟩
  · rw [Chronicle.play, ran]
    simp only [opened]
  · rw [Round.operations, ← length]
    exact List.length_filter_le _ _

/-- All rounds succeed. -/
theorem Upheld.playAll (upheld : Upheld config base held chronicle)
    (valid : config.validate = .ok ()) (policy : config.formatPolicy ≠ .legacy)
    {rounds : List Round} (short : ∀ operation ∈ rounds.flatMap Round.operations, operation.Short)
    (room : Lsn.first + chronicle.history.length +
      (rounds.flatMap Round.operations).length < Sequencer.wordSize) :
    ∃ after, chronicle.playAll rounds = .ok after ∧ ∃ base held, Upheld config base held after := by
  induction rounds generalizing chronicle base held with
  | nil => exact ⟨chronicle, rfl, base, held, upheld⟩
  | cons first rest ih =>
      rw [List.flatMap_cons, List.forall_mem_append] at short
      rw [List.flatMap_cons, List.length_append] at room
      rcases upheld.play valid policy short.1 (by omega) with
        ⟨middle, played, ⟨base, held, upheld⟩, le⟩
      rcases ih upheld short.2 (by omega) with ⟨after, rest_played, upheld⟩
      refine ⟨after, ?_, upheld⟩
      rw [Chronicle.playAll, played]
      exact rest_played

/-- A new log upholds a history without mutations. -/
theorem upheld_begin (valid : config.validate = .ok ()) :
    ∃ start, begin config = .ok start ∧ start.history = [] ∧ Upheld config [] [] start := by
  have holding : Holding config.formatPolicy [] [] :=
    ⟨⟨rfl, nofun, nofun, nofun⟩, nofun, rfl, ⟨rfl, nofun, nofun⟩⟩
  have reads : Device.Reads Volume.newMemory ([].map Piece.chunk) :=
    Volume.reads_memory.mpr (MemoryDevice.reads _)
  rcases upheld_open valid holding reads (.prompt config.replayWorkers) with
    ⟨log, opened, _, upheld⟩
  refine ⟨⟨log, []⟩, ?_, rfl, upheld⟩
  have made : Log.newMemory config = .ok log := by
    rw [Log.newMemory, Log.openOn, Volume.newMemory, opened]
    rfl
  rw [begin, made]

/-- Whatever is logged in any number of rounds, however the writer cuts it into
regions, however each round ends and whenever the workers of its recovery take their
jobs: every call succeeds, and after each round the tables of the store are those of
an empty store to which the surviving mutations were applied in the order of their
numbers. -/
theorem rebuilt_playAll {rounds : List Round} (valid : config.validate = .ok ())
    (policy : config.formatPolicy ≠ .legacy)
    (short : ∀ operation ∈ rounds.flatMap Round.operations, operation.Short)
    (room : Lsn.first + (rounds.flatMap Round.operations).length < Sequencer.wordSize) :
    ∃ start chronicle, begin config = .ok start ∧ start.playAll rounds = .ok chronicle ∧
      chronicle.history.Pairwise (·.lsn < ·.lsn) ∧
      chronicle.log.store.Agrees (Store.empty.applyAll chronicle.history) := by
  rcases upheld_begin valid with ⟨start, begun, no_history, upheld⟩
  have enough : Lsn.first + start.history.length +
      (rounds.flatMap Round.operations).length < Sequencer.wordSize := by
    rw [no_history]
    exact room
  rcases upheld.playAll valid policy short enough with ⟨chronicle, played, _, _, upheld⟩
  refine ⟨start, chronicle, begun, played, upheld.loggable.ordered, ?_⟩
  exact upheld.shows.agrees upheld.loggable.shows

/-- A put that is synced and written and a deletion that is not, then a crash; in the
second round the number of the deletion is given out again, and the scope deleted. -/
def twoRounds : List Round :=
  [⟨[.apply (.put ⟨1, "a"⟩ [7]) true, .collect, .write, .apply (.delete ⟨1, "a"⟩) false],
      .crashed .loseUnsynced, .late⟩,
    ⟨[.apply (.put ⟨1, "b"⟩ [8]) false, .apply (.deleteScope 1) false], .reopened, .prompt 3⟩]

/-- The history that some rounds on a new disk leave. -/
def historyOf (rounds : List Round) : Option (List Stamped) :=
  match begin .small with
  | .ok start =>
      match start.playAll rounds with
      | .ok chronicle => some chronicle.history
      | .failed _ => none
      | .panicked _ => none
  | .failed _ => none
  | .panicked _ => none

theorem rebuilt_playAll_twoRounds :
    ∃ start chronicle, begin .small = .ok start ∧ start.playAll twoRounds = .ok chronicle ∧
      chronicle.history =
        [⟨100, .put ⟨1, "a"⟩ [7]⟩, ⟨101, .put ⟨1, "b"⟩ [8]⟩, ⟨102, .deleteScope 1⟩] ∧
      chronicle.log.store.Agrees (Store.empty.applyAll chronicle.history) := by
  have valid : Config.small.validate = .ok () := rfl
  have policy : Config.small.formatPolicy ≠ .legacy := by decide
  have short : ∀ operation ∈ twoRounds.flatMap Round.operations, operation.Short := by
    decide +kernel
  have room : Lsn.first + (twoRounds.flatMap Round.operations).length < Sequencer.wordSize := by
    decide
  rcases rebuilt_playAll valid policy short room with
    ⟨start, chronicle, begun, played, _, agrees⟩
  have computed : historyOf twoRounds =
      some [⟨100, .put ⟨1, "a"⟩ [7]⟩, ⟨101, .put ⟨1, "b"⟩ [8]⟩, ⟨102, .deleteScope 1⟩] := by
    decide +kernel
  rw [historyOf, begun] at computed
  simp only [played] at computed
  exact ⟨start, chronicle, begun, played, Option.some.inj computed, agrees⟩

end Chronicle

end KeyValue

end Logbook

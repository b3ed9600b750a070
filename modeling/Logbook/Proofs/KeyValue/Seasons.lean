import Logbook.KeyValue.Seasons
import Logbook.Proofs.KeyValue.Carried
import Logbook.Proofs.KeyValue.Rounds
import Mathlib.Data.List.Basic

/-!
# A store whose log is given up from below

Raising the lowest live number loses no value of the store. Through any number of
seasons a chronicle sustains this: the records on the disk and in the windows carry the
history, with markers no higher than the lowest live number, and all values that stand
were put from that number on. Recovery goes by the marker of the newest record that it
finds, and that record was logged when the same could be said.
-/

namespace Logbook.KeyValue.Chronicle

open Recovery

variable {config : Config} {held : List Piece} {chronicle after : Chronicle}

/-- What a chronicle sustains since it was opened with the pieces `held`. -/
structure Sustains (config : Config) (held : List Piece) (chronicle : Chronicle) : Prop where
  cut : Piece.Cut .auto Lsn.first held
  current : ∀ piece ∈ held, piece.format = .current
  logs : ∃ written recent,
    Engine.Logs config (Lsn.first + (held.flatMap Piece.records).length) (held.map Piece.chunk)
      written recent chronicle.log.engine ∧
    Carries chronicle.history (held.flatMap Piece.records ++ recent) ∧
    ∀ record ∈ held.flatMap Piece.records ++ recent,
      record.lowest ≤ chronicle.log.engine.lowestLive
  shows : chronicle.log.store.Shows (onward chronicle.log.report.boundary chronicle.history)
  live : LiveFrom chronicle.log.engine.lowestLive chronicle.history
  first_le : Lsn.first ≤ chronicle.log.report.boundary
  boundary_le : chronicle.log.report.boundary ≤ chronicle.log.engine.lowestLive
  lowestLive_le : chronicle.log.engine.lowestLive ≤ Lsn.first + chronicle.history.length
  scanned : ∀ lsn, chronicle.log.report.lowest = some lsn → chronicle.log.report.boundary ≤ lsn
  memory : chronicle.log.engine.device.InMemory
  isOpen : chronicle.log.engine.isOpen = true

/-! ### Openings -/

/-- A log is opened on pieces that carry a history, if it can read them. -/
theorem sustains_open (valid : config.validate = .ok ()) (cut : Piece.Cut .auto Lsn.first held)
    (current : ∀ piece ∈ held, piece.format = .current)
    (admits : held ≠ [] → config.formatPolicy.Admits .current) {history : List Stamped}
    (carries : Carries history (held.flatMap Piece.records)) {device : MemoryDevice}
    (reads : Device.Reads (Volume.memory device) (held.map Piece.chunk))
    (schedule : Schedule) :
    ∃ log, Log.openUnder schedule config {} (.memory device) = .ok log ∧
      log.report.highest = history.getLast?.map (·.lsn) ∧ Sustains config held ⟨log, history⟩ := by
  rcases carries.recovers cut current admits schedule with
    ⟨report, final, uses, recovered, recalls⟩
  rw [← reads] at recovered
  have opened := Engine.open_of_recovered valid (congrArg (·.outcome) recovered)
  rw [recovered] at opened
  refine ⟨⟨.resume config report (.memory device) final, report⟩, ?_, recalls.highest, ?_⟩
  · rw [Log.openUnder, opened]
  · have logs : Engine.Logs config report.nextLsn (held.map Piece.chunk) [] [] _ :=
      Engine.logs_of_open trivial reads opened
    have consecutive := cut.consecutive
    rw [Record.Consecutive, ← carries.map_lsn, ← carries.length_eq] at consecutive
    rw [nextLsn_eq consecutive recalls.highest, carries.length_eq] at logs
    exact {
      cut := cut
      current := current
      logs := ⟨[], [], logs, by rwa [List.append_nil], by
        rw [List.append_nil]
        exact recalls.lowest_le⟩
      shows := recalls.shows
      live := recalls.live
      first_le := recalls.first_le
      boundary_le := Nat.le_refl _
      lowestLive_le := recalls.boundary_le
      scanned := recalls.scanned
      memory := ⟨device, rfl⟩
      isOpen := rfl }

/-- A log that was opened on pieces can read them. -/
theorem admits_of_open (current : ∀ piece ∈ held, piece.format = .current) {device : MemoryDevice}
    (reads : Device.Reads (Volume.memory device) (held.map Piece.chunk)) {schedule : Schedule}
    {log : Log} (opened : Log.openUnder schedule config {} (.memory device) = .ok log) :
    held ≠ [] → config.formatPolicy.Admits .current := by
  intro some_held
  unfold Log.openUnder at opened
  split at opened
  · rename_i report engine found
    have recovered := (Engine.recovered_of_open found).1
    rw [reads] at recovered
    rcases List.eq_nil_or_concat held with none | ⟨front, newest, rfl⟩
    · exact absurd none some_held
    · rw [List.concat_eq_append] at current recovered
      have found : ((front ++ [newest]).map Piece.chunk).getLast? = some newest.chunk := by
        rw [List.map_append, List.map_singleton, List.getLast?_concat]
      rcases bounds_of_recoverWith found recovered with ⟨_, records, _, unpacked, _⟩
      have format := current newest (List.mem_append_right _ (List.mem_singleton_self _))
      exact format ▸ Region.admits_of_unpack unpacked
  · cases opened
  · cases opened

/-- A new log sustains a history without mutations. -/
theorem sustains_begin (valid : config.validate = .ok ()) :
    ∃ start, begin config = .ok start ∧ start.history = [] ∧ Sustains config [] start := by
  have cut : Piece.Cut .auto Lsn.first [] := ⟨rfl, nofun, nofun, nofun⟩
  have reads : Device.Reads Volume.newMemory ([].map Piece.chunk) :=
    Volume.reads_memory.mpr (MemoryDevice.reads _)
  rcases sustains_open valid cut nofun (absurd rfl) .nil reads (.prompt config.replayWorkers) with
    ⟨log, opened, _, sustains⟩
  refine ⟨⟨log, []⟩, ?_, rfl, sustains⟩
  have made : Log.newMemory config = .ok log := by
    rw [Log.newMemory, Log.openOn, Volume.newMemory, opened]
    rfl
  rw [begin, made]

namespace Sustains

theorem consecutive (sustains : Sustains config held chronicle) :
    chronicle.history.map (·.lsn) = List.range' Lsn.first chronicle.history.length := by
  rcases sustains.logs with ⟨written, recent, logs, carries, _⟩
  have consecutive := Record.consecutive_append.mpr
    ⟨sustains.cut.consecutive, logs.sequenced.consecutive⟩
  rw [carries.map_lsn, carries.length_eq]
  exact consecutive

theorem ordered (sustains : Sustains config held chronicle) :
    chronicle.history.Pairwise (·.lsn < ·.lsn) :=
  ordered_of_consecutive sustains.consecutive

theorem lsn_lt (sustains : Sustains config held chronicle) {stamped : Stamped}
    (member : stamped ∈ chronicle.history) :
    stamped.lsn < Lsn.first + chronicle.history.length := by
  have inside : stamped.lsn ∈ chronicle.history.map (·.lsn) := List.mem_map_of_mem member
  rw [sustains.consecutive, List.mem_range'_1] at inside
  exact inside.2

/-- The store has the values that the history gives it. -/
theorem entries_eq (sustains : Sustains config held chronicle) :
    chronicle.log.store.entries.toList =
      (Store.empty.applyAll chronicle.history).entries.toList :=
  sustains.shows.entries_eq (sustains.live.mono sustains.boundary_le)
    (shows_of_ordered sustains.ordered)

/-! ### Acts -/

theorem length_recent {recent : List Record}
    (carries : Carries chronicle.history (held.flatMap Piece.records ++ recent)) :
    Lsn.first + (held.flatMap Piece.records).length + recent.length =
      Lsn.first + chronicle.history.length := by
  rw [carries.length_eq, List.length_append, Nat.add_assoc]

/-- The next number follows the history. -/
theorem next_eq (sustains : Sustains config held chronicle) :
    chronicle.log.engine.sequencer.next = Lsn.first + chronicle.history.length := by
  rcases sustains.logs with ⟨written, recent, logs, carries, _⟩
  rw [logs.sequenced.next, length_recent carries]

/-- A move that logs nothing and raises the lowest live number no further than it may. -/
theorem moved (sustains : Sustains config held chronicle) (move : Move Action Volume)
    (inside : move.Inside) (nothing : chronicle.log.engine.gained app move = none)
    (room : Lsn.first + chronicle.history.length < Sequencer.wordSize)
    (state : (chronicle.log.engine.move app move).state = chronicle.log.engine.state)
    (isOpen : (chronicle.log.engine.move app move).isOpen = chronicle.log.engine.isOpen)
    (le : chronicle.log.engine.lowestLive ≤ (chronicle.log.engine.move app move).lowestLive)
    (le_next : (chronicle.log.engine.move app move).lowestLive ≤
      Lsn.first + chronicle.history.length)
    (live : LiveFrom (chronicle.log.engine.move app move).lowestLive chronicle.history) :
    Sustains config held (chronicle.onEngine (·.move app move)) := by
  rcases sustains.logs with ⟨written, recent, logs, carries, marked⟩
  rcases logs.move_of_gained_eq_none (Engine.faultless_of_inMemory sustains.memory inside) nothing
    (by rw [length_recent carries]; exact room) with ⟨added, logs⟩
  exact {
    cut := sustains.cut
    current := sustains.current
    logs := ⟨_, recent, logs, carries, fun record member => Nat.le_trans (marked record member) le⟩
    shows := by
      change (chronicle.log.engine.move app move).state.Shows _
      rw [state]
      exact sustains.shows
    live := live
    first_le := sustains.first_le
    boundary_le := Nat.le_trans sustains.boundary_le le
    lowestLive_le := le_next
    scanned := sustains.scanned
    memory := Engine.inMemory_move sustains.memory inside
    isOpen := isOpen.trans sustains.isOpen }

theorem quiet (sustains : Sustains config held chronicle) (move : Move Action Volume)
    (quiet : move.Quiet) (room : Lsn.first + chronicle.history.length < Sequencer.wordSize) :
    Sustains config held (chronicle.onEngine (·.move app move)) := by
  rcases Engine.quiet_frame app chronicle.log.engine quiet with ⟨_, _, _, _, frame⟩
  apply sustains.moved move quiet.inside (Engine.gained_of_quiet quiet) room
  · rw [frame]
  · rw [frame]
  · exact Nat.le_of_eq (by rw [frame])
  · rw [frame]
    exact sustains.lowestLive_le
  · rw [frame]
    exact sustains.live

/-- The lowest live number is raised where it may be. -/
theorem raised (sustains : Sustains config held chronicle) {lsn : Nat}
    (may_raise : chronicle.MayRaise lsn)
    (room : Lsn.first + chronicle.history.length < Sequencer.wordSize) :
    Sustains config held (chronicle.onEngine (·.setLowestLive lsn)) := by
  have next := sustains.next_eq
  rcases may_raise with ⟨above, le⟩
  rw [Engine.current, Sequencer.current] at le
  have live : LiveFrom lsn chronicle.history :=
    sustains.shows.liveFrom (sustains.live.mono sustains.boundary_le) above
  have le_next : lsn ≤ Lsn.first + chronicle.history.length := by
    have first_pos : 0 < Lsn.first := by decide
    omega
  -- No record carries the number yet, so nothing changes but what the next ones will carry.
  apply sustains.moved (.setLowestLive lsn) trivial rfl room rfl rfl
  · exact Nat.le_max_left _ _
  · exact Nat.max_le.mpr ⟨sustains.lowestLive_le, le_next⟩
  · intro key value version stands
    exact Nat.max_le.mpr ⟨sustains.live key value version stands, live key value version stands⟩

/-- A mutation that is logged has an encoding. -/
theorem encoded_of_step (sustains : Sustains config held chronicle) {operation : Operation}
    {sync : Bool} (stepped : chronicle.step (.apply operation sync) = .ok after) :
    ∃ payload, (Entry.plain (chronicle.log.store.build operation)).encode app = .ok payload := by
  rcases sustains.logs with ⟨_, _, logs, _, _⟩
  rcases logs.sequenced.log_cases app (.plain (chronicle.log.store.build operation)) sync with
    ⟨error, failed⟩ | ⟨payload, encoded, _⟩
  · rw [Chronicle.step, Engine.append, failed] at stepped
    cases stepped
  · exact ⟨payload, encoded⟩

/-- A mutation that has an encoding is logged, and the chronicle tells it. -/
theorem apply (sustains : Sustains config held chronicle) {operation : Operation} {payload : Bytes}
    (encoded : (Entry.plain (chronicle.log.store.build operation)).encode app = .ok payload)
    (sync : Bool) (room : Lsn.first + chronicle.history.length + 1 < Sequencer.wordSize) :
    ∃ after, chronicle.step (.apply operation sync) = .ok after ∧ Sustains config held after ∧
      after.history.length = chronicle.history.length + 1 := by
  rcases sustains.logs with ⟨written, recent, logs, carries, marked⟩
  have word : Sequencer.wordSize = 256 ^ 8 := by decide
  have next_lt : Lsn.first + chronicle.history.length < 256 ^ 8 := by omega
  have lowestLive_le := sustains.lowestLive_le
  have built : ((Entry.plain operation).map chronicle.log.store.build).encode app = .ok payload :=
    encoded
  rcases sustains.shows.decode_of_encode
    (fun stamped member => Nat.lt_trans (sustains.lsn_lt (mem_onward.mp member).1) next_lt)
    built nofun with ⟨decoded, length_lt⟩
  have fits : Record.Fits ⟨Lsn.first + chronicle.history.length,
      chronicle.log.engine.lowestLive, payload⟩ :=
    ⟨next_lt, Nat.lt_of_le_of_lt lowestLive_le next_lt, length_lt⟩
  rcases step_of_encoded logs sustains.isOpen (length_recent carries) encoded sync fits room with
    ⟨sequencer, chain, added, stepped, logs⟩
  have timely : Timely chronicle.history ⟨Lsn.first + chronicle.history.length, operation⟩ :=
    timely_of_lt fun earlier member => sustains.lsn_lt member
  exact ⟨_, stepped, {
    cut := sustains.cut
    current := sustains.current
    logs := by
      refine ⟨_, _, logs, ?_, ?_⟩
      · rw [← List.append_assoc]
        exact .concat carries sustains.shows sustains.first_le sustains.boundary_le lowestLive_le
          marked sustains.live rfl decoded
      · rw [← List.append_assoc, List.forall_mem_append, List.forall_mem_singleton]
        exact ⟨marked, Nat.le_refl _⟩
    shows := by
      rw [onward_concat (Nat.le_trans sustains.boundary_le lowestLive_le)]
      exact sustains.shows.apply fun earlier member => timely earlier (mem_onward.mp member).1
    live := sustains.live.concat timely lowestLive_le
    first_le := sustains.first_le
    boundary_le := sustains.boundary_le
    lowestLive_le := by
      rw [List.length_append]
      exact Nat.le_trans lowestLive_le (Nat.le_add_right _ 1)
    scanned := sustains.scanned
    memory := sustains.memory
    isOpen := sustains.isOpen }, List.length_append⟩

/-- An act that succeeds, if the lowest live number may be raised as it does. -/
theorem of_act (sustains : Sustains config held chronicle) {act : Act}
    (careful : ∀ lsn ∈ act.raised?, chronicle.MayRaise lsn)
    (room : Lsn.first + chronicle.history.length + act.operation?.toList.length <
      Sequencer.wordSize) (acted : chronicle.act act = .ok after) :
    Sustains config held after ∧
      after.history.length = chronicle.history.length + act.operation?.toList.length := by
  cases act with
  | raise lsn =>
      cases acted
      exact ⟨sustains.raised (careful lsn rfl) room, rfl⟩
  | step step =>
      cases step with
      | apply operation sync =>
          rcases sustains.encoded_of_step acted with ⟨payload, encoded⟩
          rcases sustains.apply encoded sync room with ⟨next, stepped, sustains, length⟩
          cases stepped.symm.trans acted
          exact ⟨sustains, length⟩
      | closeBarrier =>
          cases acted
          exact ⟨sustains.quiet .closeBarrier trivial room, rfl⟩
      | collect =>
          cases acted
          exact ⟨sustains.quiet .collect trivial room, rfl⟩
      | write =>
          cases acted
          exact ⟨sustains.quiet .write trivial room, rfl⟩
      | finish =>
          cases acted
          exact ⟨sustains.quiet .finish trivial room, rfl⟩

/-- An act succeeds if what it logs is short enough. -/
theorem exists_act (sustains : Sustains config held chronicle) {act : Act}
    (short : ∀ operation ∈ act.operation?, operation.Short)
    (room : Lsn.first + chronicle.history.length + act.operation?.toList.length <
      Sequencer.wordSize) : ∃ after, chronicle.act act = .ok after := by
  cases act with
  | raise lsn => exact ⟨_, rfl⟩
  | step step =>
      cases step with
      | apply operation sync =>
          have encoded : (Entry.plain (chronicle.log.store.build operation)).encode app = .ok _ :=
            Action.encode_plain (short operation rfl)
          rcases sustains.apply encoded sync room with ⟨after, stepped, _⟩
          exact ⟨after, stepped⟩
      | closeBarrier | collect | write | finish => exact ⟨_, rfl⟩

end Sustains

/-! ### Acts, one after the other -/

theorem operations_cons (first : Act) (rest : List Act) :
    (first :: rest).filterMap Act.operation? =
      first.operation?.toList ++ rest.filterMap Act.operation? := by
  simp only [List.filterMap_eq_flatMap_toList, List.flatMap_cons]

theorem actAll_cons_of_ok {first : Act} {rest : List Act} {middle : Chronicle}
    (acted : chronicle.act first = .ok middle) :
    chronicle.actAll (first :: rest) = middle.actAll rest := by
  rw [actAll, acted]

theorem careful_cons_of_ok {first : Act} {rest : List Act} {middle : Chronicle}
    (acted : chronicle.act first = .ok middle) :
    chronicle.Careful (first :: rest) ↔
      (∀ lsn ∈ first.raised?, chronicle.MayRaise lsn) ∧ middle.Careful rest := by
  rw [Careful, acted]

theorem exists_act_of_actAll {first : Act} {rest : List Act}
    (acted : chronicle.actAll (first :: rest) = .ok after) :
    ∃ middle, chronicle.act first = .ok middle ∧ middle.actAll rest = .ok after := by
  rw [actAll] at acted
  split at acted
  · exact ⟨_, ‹_›, acted⟩
  · cases acted
  · cases acted

namespace Sustains

theorem of_actAll (sustains : Sustains config held chronicle) {acts : List Act}
    (careful : chronicle.Careful acts)
    (room : Lsn.first + chronicle.history.length + (acts.filterMap Act.operation?).length <
      Sequencer.wordSize) (acted : chronicle.actAll acts = .ok after) :
    Sustains config held after ∧
      after.history.length =
        chronicle.history.length + (acts.filterMap Act.operation?).length := by
  induction acts generalizing chronicle with
  | nil =>
      cases acted
      exact ⟨sustains, rfl⟩
  | cons first rest ih =>
      rw [operations_cons, List.length_append] at room ⊢
      rcases exists_act_of_actAll acted with ⟨middle, first_acted, rest_acted⟩
      rcases (careful_cons_of_ok first_acted).mp careful with ⟨may_raise, careful⟩
      rcases sustains.of_act may_raise (by omega) first_acted with ⟨sustains, length⟩
      rcases ih sustains careful (by omega) rest_acted with ⟨sustains, total⟩
      exact ⟨sustains, by omega⟩

theorem exists_actAll (sustains : Sustains config held chronicle) {acts : List Act}
    (careful : chronicle.Careful acts)
    (short : ∀ operation ∈ acts.filterMap Act.operation?, operation.Short)
    (room : Lsn.first + chronicle.history.length + (acts.filterMap Act.operation?).length <
      Sequencer.wordSize) : ∃ after, chronicle.actAll acts = .ok after := by
  induction acts generalizing chronicle with
  | nil => exact ⟨chronicle, rfl⟩
  | cons first rest ih =>
      rw [operations_cons, List.length_append] at room
      rw [operations_cons, List.forall_mem_append] at short
      rcases sustains.exists_act
        (fun operation told => short.1 operation (Option.mem_toList.mpr told)) (by omega) with
        ⟨middle, acted⟩
      rcases (careful_cons_of_ok acted).mp careful with ⟨may_raise, careful⟩
      rcases sustains.of_act may_raise (by omega) acted with ⟨sustains, length⟩
      rw [actAll_cons_of_ok acted]
      exact ih sustains careful short.2 (by omega)

/-! ### The end of a season -/

/-- What the log is opened on at the end of a season carries a first stretch of the
history. -/
theorem opened_on (sustains : Sustains config held chronicle)
    (room : Lsn.first + chronicle.history.length < Sequencer.wordSize) (ending : Ending) :
    ∃ pieces kept device, kept <+: chronicle.history ∧
      Carries kept (pieces.flatMap Piece.records) ∧ Piece.Cut .auto Lsn.first pieces ∧
      (∀ piece ∈ pieces, piece.format = .current) ∧
      Device.Reads (Volume.memory device) (pieces.map Piece.chunk) ∧
      ∀ schedule log, chronicle.opened ending schedule = .ok log ↔
        Log.openUnder schedule config {} (.memory device) = .ok log := by
  rcases sustains.logs with ⟨written, recent, logs, carries, _⟩
  rcases exists_opened_on logs sustains.memory sustains.isOpen
    (by rw [length_recent carries]; exact room) ending with
    ⟨pieces, disk, count, ⟨lost, split⟩, cut, current, regions, opened_iff⟩
  have all_cut := Piece.cut_append.mpr ⟨sustains.cut, cut⟩
  have all_current := List.forall_mem_append.mpr ⟨sustains.current, current⟩
  rw [← split, ← List.append_assoc, ← List.flatMap_append,
    ← List.take_append_drop count (held ++ pieces), List.flatMap_append, List.append_assoc]
    at carries
  rw [← List.take_append_drop count (held ++ pieces)] at all_cut all_current
  rw [← List.map_append, ← List.map_take] at regions
  -- What a crash keeps is a first stretch of the records, and so carries one of the history.
  rcases carries.of_append with ⟨kept, is_front, carries⟩
  refine ⟨(held ++ pieces).take count, kept, .onDisk disk, is_front, carries,
    (Piece.cut_append.mp all_cut).1, (List.forall_mem_append.mp all_current).1, ?_, opened_iff⟩
  rw [← regions]
  exact Volume.reads_memory.mpr (MemoryDevice.reads _)

/-- The log that is opened at the end of a season sustains what survived. -/
theorem of_opened (sustains : Sustains config held chronicle) (valid : config.validate = .ok ())
    (room : Lsn.first + chronicle.history.length < Sequencer.wordSize) {ending : Ending}
    {schedule : Schedule} {log : Log} (opened : chronicle.opened ending schedule = .ok log) :
    ∃ held, Sustains config held ⟨log, surviving chronicle.history log.report⟩ := by
  rcases sustains.opened_on room ending with
    ⟨pieces, kept, device, is_front, carries, cut, current, reads, opened_iff⟩
  have opened := (opened_iff schedule log).mp opened
  rcases sustains_open valid cut current (admits_of_open current reads opened) carries reads
    schedule with ⟨same, found, highest, after⟩
  cases found.symm.trans opened
  rw [← surviving_eq sustains.ordered is_front highest] at after
  exact ⟨pieces, after⟩

/-- A log is opened at the end of a season, by a reader of the current format. -/
theorem exists_opened (sustains : Sustains config held chronicle)
    (valid : config.validate = .ok ()) (policy : config.formatPolicy ≠ .legacy)
    (room : Lsn.first + chronicle.history.length < Sequencer.wordSize) (ending : Ending)
    (schedule : Schedule) : ∃ log, chronicle.opened ending schedule = .ok log := by
  rcases sustains.opened_on room ending with
    ⟨pieces, kept, device, _, carries, cut, current, reads, opened_iff⟩
  rcases sustains_open valid cut current (fun _ => FormatPolicy.admits_current policy) carries
    reads schedule with ⟨log, opened, _⟩
  exact ⟨log, (opened_iff schedule log).mpr opened⟩

end Sustains

/-! ### Seasons -/

theorem spend_of_ok {season : Season} {middle : Chronicle} {log : Log}
    (acted : chronicle.actAll season.acts = .ok middle)
    (opened : middle.opened season.ending season.schedule = .ok log) :
    chronicle.spend season = .ok ⟨log, surviving middle.history log.report⟩ := by
  rw [spend, acted]
  simp only [opened]

theorem exists_opened_of_spend {season : Season} (spent : chronicle.spend season = .ok after) :
    ∃ middle log, chronicle.actAll season.acts = .ok middle ∧
      middle.opened season.ending season.schedule = .ok log ∧
      after = ⟨log, surviving middle.history log.report⟩ := by
  rw [spend] at spent
  split at spent
  · rename_i middle acted
    split at spent
    · rename_i log opened
      cases spent
      exact ⟨middle, log, acted, opened, rfl⟩
    · cases spent
    · cases spent
  · cases spent
  · cases spent

theorem spendAll_cons_of_ok {first : Season} {rest : List Season} {middle : Chronicle}
    (spent : chronicle.spend first = .ok middle) :
    chronicle.spendAll (first :: rest) = middle.spendAll rest := by
  rw [spendAll, spent]

theorem carefulAll_cons_of_ok {first : Season} {rest : List Season} {middle : Chronicle}
    (spent : chronicle.spend first = .ok middle) :
    chronicle.CarefulAll (first :: rest) ↔
      chronicle.Careful first.acts ∧ middle.CarefulAll rest := by
  rw [CarefulAll, spent]

theorem exists_spend_of_spendAll {first : Season} {rest : List Season}
    (spent : chronicle.spendAll (first :: rest) = .ok after) :
    ∃ middle, chronicle.spend first = .ok middle ∧ middle.spendAll rest = .ok after := by
  rw [spendAll] at spent
  split at spent
  · exact ⟨_, ‹_›, spent⟩
  · cases spent
  · cases spent

namespace Sustains

/-- A season that succeeds. -/
theorem of_spend (sustains : Sustains config held chronicle) (valid : config.validate = .ok ())
    {season : Season} (careful : chronicle.Careful season.acts)
    (room : Lsn.first + chronicle.history.length + season.operations.length <
      Sequencer.wordSize) (spent : chronicle.spend season = .ok after) :
    (∃ held, Sustains config held after) ∧
      after.history.length ≤ chronicle.history.length + season.operations.length := by
  rcases exists_opened_of_spend spent with ⟨middle, log, acted, opened, rfl⟩
  rcases sustains.of_actAll careful room acted with ⟨sustains, length⟩
  rw [Nat.add_assoc, Season.operations, ← length] at room
  rw [Season.operations, ← length]
  exact ⟨sustains.of_opened valid room opened, List.length_filter_le _ _⟩

/-- A season succeeds if what it logs is short enough. -/
theorem exists_spend (sustains : Sustains config held chronicle)
    (valid : config.validate = .ok ()) (policy : config.formatPolicy ≠ .legacy) {season : Season}
    (careful : chronicle.Careful season.acts)
    (short : ∀ operation ∈ season.operations, operation.Short)
    (room : Lsn.first + chronicle.history.length + season.operations.length <
      Sequencer.wordSize) : ∃ after, chronicle.spend season = .ok after := by
  rcases sustains.exists_actAll careful short room with ⟨middle, acted⟩
  rcases sustains.of_actAll careful room acted with ⟨sustains, length⟩
  rw [Nat.add_assoc, Season.operations, ← length] at room
  rcases sustains.exists_opened valid policy room season.ending season.schedule with
    ⟨log, opened⟩
  exact ⟨_, spend_of_ok acted opened⟩

theorem of_spendAll (sustains : Sustains config held chronicle) (valid : config.validate = .ok ())
    {seasons : List Season} (careful : chronicle.CarefulAll seasons)
    (room : Lsn.first + chronicle.history.length +
      (seasons.flatMap Season.operations).length < Sequencer.wordSize)
    (spent : chronicle.spendAll seasons = .ok after) : ∃ held, Sustains config held after := by
  induction seasons generalizing chronicle held with
  | nil =>
      cases spent
      exact ⟨held, sustains⟩
  | cons first rest ih =>
      rw [List.flatMap_cons, List.length_append] at room
      rcases exists_spend_of_spendAll spent with ⟨middle, first_spent, rest_spent⟩
      rcases (carefulAll_cons_of_ok first_spent).mp careful with ⟨first_careful, careful⟩
      rcases sustains.of_spend valid first_careful (by omega) first_spent with
        ⟨⟨held, sustains⟩, le⟩
      exact ih sustains careful (by omega) rest_spent

theorem exists_spendAll (sustains : Sustains config held chronicle)
    (valid : config.validate = .ok ()) (policy : config.formatPolicy ≠ .legacy)
    {seasons : List Season} (careful : chronicle.CarefulAll seasons)
    (short : ∀ operation ∈ seasons.flatMap Season.operations, operation.Short)
    (room : Lsn.first + chronicle.history.length +
      (seasons.flatMap Season.operations).length < Sequencer.wordSize) :
    ∃ after, chronicle.spendAll seasons = .ok after := by
  induction seasons generalizing chronicle held with
  | nil => exact ⟨chronicle, rfl⟩
  | cons first rest ih =>
      rw [List.flatMap_cons, List.length_append] at room
      rw [List.flatMap_cons, List.forall_mem_append] at short
      have first_careful : chronicle.Careful first.acts := careful.1
      rcases sustains.exists_spend valid policy first_careful short.1 (by omega) with
        ⟨middle, spent⟩
      rcases sustains.of_spend valid first_careful (by omega) spent with ⟨⟨held, sustains⟩, le⟩
      rw [spendAll_cons_of_ok spent]
      exact ih sustains ((carefulAll_cons_of_ok spent).mp careful).2 short.2 (by omega)

end Sustains

/-- The lowest live number may be raised at any time, as far as the values of the store and
the next number allow, and no value is lost for it. Whatever is logged in any number of
seasons, however the writer cuts it into regions and however each season ends: the store
that recovery leaves has the values and versions that the surviving mutations give an empty
store in the order of their numbers, though no record below the boundary was scanned. All
calls succeed, if no name or value is too long and the regions are not read under a policy
that turns them away. -/
theorem entries_spendAll {seasons : List Season} (valid : config.validate = .ok ())
    (room : Lsn.first + (seasons.flatMap Season.operations).length < Sequencer.wordSize) :
    ∃ start, begin config = .ok start ∧ (start.CarefulAll seasons →
      (config.formatPolicy ≠ .legacy →
        (∀ operation ∈ seasons.flatMap Season.operations, operation.Short) →
          ∃ chronicle, start.spendAll seasons = .ok chronicle) ∧
      ∀ chronicle, start.spendAll seasons = .ok chronicle →
        chronicle.history.Pairwise (·.lsn < ·.lsn) ∧
        chronicle.log.store.entries.toList =
          (Store.empty.applyAll chronicle.history).entries.toList ∧
        ∀ lsn, chronicle.log.report.lowest = some lsn →
          chronicle.log.report.boundary ≤ lsn) := by
  rcases sustains_begin valid with ⟨start, begun, no_history, sustains⟩
  have enough : Lsn.first + start.history.length +
      (seasons.flatMap Season.operations).length < Sequencer.wordSize := by
    rw [no_history]
    exact room
  refine ⟨start, begun, fun careful => ⟨fun policy short => ?_, fun chronicle spent => ?_⟩⟩
  · exact sustains.exists_spendAll valid policy careful short enough
  · rcases sustains.of_spendAll valid careful enough spent with ⟨held, sustains⟩
    exact ⟨sustains.ordered, sustains.entries_eq, sustains.scanned⟩

/-- A key is deleted and the number raised past its put, then the other key is put again; a
crash loses one more put. In the second season the number is raised once more, which gives up
the deletion, and the first key comes back. -/
def twoSeasons : List Season :=
  [⟨[.step (.apply (.put ⟨1, "a"⟩ [7]) false), .step (.apply (.put ⟨1, "b"⟩ [8]) false),
      .step (.apply (.delete ⟨1, "a"⟩) false), .raise 101,
      .step (.apply (.put ⟨1, "b"⟩ [9]) true), .step .collect, .step .write,
      .step (.apply (.put ⟨1, "a"⟩ [5]) false)], .crashed .loseUnsynced, .late⟩,
    ⟨[.raise 103, .step (.apply (.deleteScope 2) false),
      .step (.apply (.put ⟨1, "a"⟩ [6]) false)], .reopened, .prompt 3⟩]

/-- Whether some seasons on a new disk are careful. -/
def carefulOf (seasons : List Season) : Bool :=
  match begin .small with
  | .ok start => start.CarefulAll seasons
  | .failed _ | .panicked _ => false

/-- The history that some seasons on a new disk leave, and the boundary of the last
recovery. -/
def courseOf (seasons : List Season) : Option (List Stamped × Nat) :=
  match begin .small with
  | .ok start =>
      match start.spendAll seasons with
      | .ok chronicle => some (chronicle.history, chronicle.log.report.boundary)
      | .failed _ | .panicked _ => none
  | .failed _ | .panicked _ => none

theorem entries_spendAll_twoSeasons :
    ∃ start chronicle, begin .small = .ok start ∧ start.CarefulAll twoSeasons ∧
      start.spendAll twoSeasons = .ok chronicle ∧ chronicle.log.report.boundary = 103 ∧
      chronicle.history.map (·.lsn) = [100, 101, 102, 103, 104, 105] ∧
      chronicle.log.store.entries.toList =
        [(⟨1, "a"⟩, ⟨[6], 105⟩), (⟨1, "b"⟩, ⟨[9], 103⟩)] := by
  have valid : Config.small.validate = .ok () := rfl
  have policy : Config.small.formatPolicy ≠ .legacy := by decide
  have short : ∀ operation ∈ twoSeasons.flatMap Season.operations, operation.Short := by
    decide +kernel
  have room : Lsn.first + (twoSeasons.flatMap Season.operations).length < Sequencer.wordSize := by
    decide
  rcases entries_spendAll valid room with ⟨start, begun, results⟩
  have careful : start.CarefulAll twoSeasons := by
    have computed : carefulOf twoSeasons = true := by decide +kernel
    rw [carefulOf, begun] at computed
    exact of_decide_eq_true computed
  rcases (results careful).1 policy short with ⟨chronicle, spent⟩
  rcases (results careful).2 chronicle spent with ⟨_, entries, _⟩
  have computed : courseOf twoSeasons = some
      ([⟨100, .put ⟨1, "a"⟩ [7]⟩, ⟨101, .put ⟨1, "b"⟩ [8]⟩, ⟨102, .delete ⟨1, "a"⟩⟩,
        ⟨103, .put ⟨1, "b"⟩ [9]⟩, ⟨104, .deleteScope 2⟩, ⟨105, .put ⟨1, "a"⟩ [6]⟩], 103) := by
    decide +kernel
  rw [courseOf, begun] at computed
  simp only [spent, Option.some.injEq, Prod.mk.injEq] at computed
  rcases computed with ⟨history, boundary⟩
  refine ⟨start, chronicle, begun, careful, spent, boundary, ?_, ?_⟩
  · rw [history]
    rfl
  · rw [entries, history]
    decide +kernel

end Logbook.KeyValue.Chronicle

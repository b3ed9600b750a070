import Logbook.Proofs.Chain.Custody
import Logbook.Proofs.Engine.Acknowledged

/-!
# No hole in the windows

An entry may be turned away, an action may panic, and windows are closed by the writer,
by barriers and by records that go past them. Whatever the order of all that, a number is
handed out exactly when its record goes to a window. So as long as the device serves the
writer, no window is closed past the numbers handed out, each of these from the tail on
lies in one slot, and neither the writer nor a producer meets a hole.
-/

namespace Logbook.Engine

open Windows

variable {α σ δ : Type} {app : Application α σ} {first : Nat} {records : List Record}
  {engine : Engine σ δ}

/-- What the writer and the producers of a log may rely on, which has accepted some
records. -/
structure Gathered (app : Application α σ) (records : List Record) (engine : Engine σ δ) :
    Prop where
  /-- A closed window ends at a number that was handed out. -/
  fixedEnd_le : ∀ place window last, engine.chain.window? place = some window →
    window.fixedEnd = some last → last ≤ engine.current
  /-- A number handed out, from the base of the tail on, is the one of an accepted record
  that lies in its slot, in the tail or a window after it, and in no other slot. -/
  held : ∀ lsn, engine.chain.baseAt engine.chain.tail ≤ lsn → lsn ≤ engine.current →
    ∃ place window record sync, engine.chain.tail ≤ place ∧
      engine.chain.window? place = some window ∧
      window.base ≤ lsn ∧ lsn ≤ window.fixedEnd.getD window.naturalEnd ∧
      window.slots[lsn - window.base]? = some (.filled record sync) ∧
      record.lsn = lsn ∧ record ∈ records ∧
      ∀ place' window' offset record' sync', engine.chain.window? place' = some window' →
        window'.slots[offset]? = some (.filled record' sync') → record'.lsn = lsn →
        place' = place ∧ offset = lsn - window.base
  /-- A window, the tail among them, can be closed where the writer closes it, and then
  misses no record. -/
  contiguous : ∀ place window, engine.chain.window? place = some window →
    ∃ fixed chain taken, engine.chain.closeAt place (engine.highWater window) = (.ok fixed, chain) ∧
      chain.contiguousAt place = .ok (some taken)
  /-- The writer collects its window as soon as there is work in it. -/
  collected : engine.writer.CanCollect engine.config →
    ∀ window, engine.chain.window? engine.writer.cursor = some window → window.hasWork = true →
      ∃ batch, engine.collect.writer.queue = engine.writer.queue ++ [batch]
  /-- No entry is turned away for a fault of the windows. -/
  log_ne : ∀ entry sync fault, (engine.log app entry sync).1 ≠ .failed (.invariant fault)
  /-- No barrier fails for one. -/
  closeBarrier_ne : ∀ fault, engine.closeBarrier.1 ≠ .error (.invariant fault)

namespace Sequenced

theorem kept (sequenced : Sequenced first records engine) :
    Chain.History.Kept first ⟨engine.chain, records⟩ where
  sound := sequenced.sound
  failure := sequenced.failure
  holds := sequenced.holds
  once := by
    rw [sequenced.consecutive]
    exact List.nodup_range'

theorem current_eq (sequenced : Sequenced first records engine) :
    engine.current + 1 = first + records.length := by
  have := sequenced.first_pos
  rw [current, Sequencer.current, sequenced.next]
  omega

/-- A record from the base of the tail on lies in no window before it. -/
theorem tail_le (sequenced : Sequenced first records engine) {place : Nat} {window : Window}
    {lsn : Nat} (here : engine.chain.window? place = some window)
    (base_le : engine.chain.baseAt engine.chain.tail ≤ lsn)
    (le_end : lsn ≤ window.fixedEnd.getD window.naturalEnd) : engine.chain.tail ≤ place := by
  refine Nat.le_of_not_lt fun before => ?_
  have tail_lt := sequenced.sound.tail_lt
  have tail : engine.chain.window? engine.chain.tail =
      some engine.chain.windows[engine.chain.tail] := List.getElem?_eq_getElem _
  rcases sequenced.sound.linked.fixedEnd_lt_base here tail before with ⟨last, closed, last_lt⟩
  rw [Chain.baseAt, tail, Option.map_some, Option.getD_some] at base_le
  rw [closed, Option.getD_some] at le_end
  exact absurd (Nat.lt_of_le_of_lt le_end last_lt) (Nat.not_lt.mpr base_le)

/-- Each number handed out is the one of a record, from the first on. -/
theorem exists_record (sequenced : Sequenced first records engine) {lsn : Nat}
    (first_le : first ≤ lsn) (le_current : lsn ≤ engine.current) :
    ∃ record ∈ records, record.lsn = lsn := by
  have := sequenced.current_eq
  have inside : lsn - first < records.length := by omega
  have found := List.getElem?_eq_getElem inside
  refine ⟨_, List.mem_of_getElem? found, ?_⟩
  rw [sequenced.consecutive.lsn_of_getElem? found]
  omega

theorem first_le_baseAt (sequenced : Sequenced first records engine) :
    first ≤ engine.chain.baseAt engine.chain.tail := by
  have tail_lt := sequenced.sound.tail_lt
  have here : engine.chain.window? engine.chain.tail =
      some engine.chain.windows[engine.chain.tail] := List.getElem?_eq_getElem _
  rw [Chain.baseAt, here]
  exact sequenced.sound.linked.base_le (List.getElem_mem tail_lt)

/-- A window that the writer closes misses no record. -/
theorem contiguousAt_highWater (sequenced : Sequenced first records engine) {place : Nat}
    {window : Window} (here : engine.chain.window? place = some window) :
    ∃ fixed chain taken,
      engine.chain.closeAt place (engine.highWater window) = (.ok fixed, chain) ∧
        chain.contiguousAt place = .ok (some taken) := by
  obtain ⟨fixed, chain, window', last, closes, called, here', closed⟩ :=
    sequenced.closeAt_highWater here
  have gathered := (sequenced.of_called called).contiguous_eq here' closed
  have taken : chain.contiguousAt place = window'.contiguous chain.failure := by
    rw [Chain.contiguousAt, here']
  exact ⟨fixed, chain, _, closes, taken.trans gathered⟩

/-- An entry is turned away for the state of the log or for its encoding, if at all. -/
theorem log_ne_invariant (sequenced : Sequenced first records engine) (app : Application α σ)
    (entry : Entry α) (sync : Bool) (fault : WindowFault) :
    (engine.log app entry sync).1 ≠ .failed (.invariant fault) := by
  cases admitted : engine.refusal with
  | some error =>
      rw [Engine.log, admitted]
      simp only [refuse]
      intro failed
      cases failed
      unfold refusal at admitted
      split at admitted
      · rw [sequenced.failure] at admitted
        cases admitted
      · cases admitted
  | none =>
      cases encoded : entry.encode app with
      | error error =>
          simp only [Engine.log, admitted, encoded, refuse]
          intro failed
          cases failed
      | ok payload =>
          rw [sequenced.log_of_encoded admitted encoded sync]
          rcases recorded_cases app engine entry with ok | ⟨panic, panicked⟩
          · rw [ok]
            intro failed
            cases failed
          · rw [panicked]
            intro failed
            cases failed

theorem closeBarrier_ne_invariant (sequenced : Sequenced first records engine)
    (fault : WindowFault) : engine.closeBarrier.1 ≠ .error (.invariant fault) := by
  rw [closeBarrier]
  split
  · rename_i error refused
    intro failed
    cases failed
    unfold refusal at refused
    split at refused
    · rw [sequenced.failure] at refused
      cases refused
    · cases refused
  · have := sequenced.current_eq
    have current_lt : engine.current < first + records.length := by omega
    have isOk := Chain.isOk_closeThrough sequenced.sound current_lt
      fun _ => sequenced.lsn_le_of_holds
    rcases Chain.exists_eq_ok isOk with ⟨_, ok⟩
    simp only [ok]
    intro failed
    cases failed

end Sequenced

namespace Tracked

/-- Where there is work for the writer it collects a batch. -/
theorem exists_batch (tracked : Tracked first records engine)
    (able : engine.writer.CanCollect engine.config) {window : Window}
    (here : engine.chain.window? engine.writer.cursor = some window)
    (work : window.hasWork = true) :
    ∃ batch, engine.collect.writer.queue = engine.writer.queue ++ [batch] := by
  have collects := tracked.collects
  generalize engine.collect = after at collects ⊢
  cases collects with
  | barred barred => exact absurd able barred
  | waiting here' idle | stopped here' idle =>
      cases here.symm.trans here'
      rw [work] at idle
      cases idle
  | closed able closes called here' closed =>
      rw [(tracked.of_called called).sequenced.collectClosed_eq here' closed]
      exact ⟨_, rfl⟩

theorem gathered (tracked : Tracked first records engine) : Gathered app records engine := by
  have sequenced := tracked.sequenced
  constructor
  · intro place window last here closed
    have := sequenced.current_eq
    have := sequenced.fixedEnd_lt window (List.mem_of_getElem? here) last closed
    omega
  · intro lsn base_le le_current
    obtain ⟨record, member, rfl⟩ :=
      sequenced.exists_record (Nat.le_trans sequenced.first_le_baseAt base_le) le_current
    rcases sequenced.kept.exists_slot member with
      ⟨place, window, here, _, window_le, le_end, sync, found⟩
    refine ⟨place, window, record, sync, sequenced.tail_le here base_le le_end, here, window_le,
      le_end, found, rfl, member, ?_⟩
    intro place' window' offset record' sync' there found' same
    rcases sequenced.kept.slot_unique here there found found' same with
      ⟨place_eq, offset_eq, _⟩
    exact ⟨place_eq, offset_eq⟩
  · exact fun place window here => sequenced.contiguousAt_highWater here
  · exact fun able window here work => tracked.exists_batch able here work
  · exact sequenced.log_ne_invariant app
  · exact sequenced.closeBarrier_ne_invariant

end Tracked

variable [Device δ]

namespace Tracked

theorem write (tracked : Tracked first records engine)
    (served : engine.served (.write : Move α δ) = true) : Tracked first records engine.write := by
  unfold Engine.write
  split
  · rename_i batch rest running queue_eq
    simp only [Engine.served, running, queue_eq] at served
    rcases persisted : persist engine.device batch with ⟨error | _, device⟩
    · rw [persisted] at served
      cases served
    · have retired := tracked.retire (queue_eq ▸ List.mem_cons_self)
        (decide (engine.config.packingDepth = 0))
      exact ⟨{ retired.sequenced with },
        fun batch member => retired.places batch (queue_eq ▸ List.mem_cons_of_mem _ member),
        retired.cursor⟩
  · exact tracked

theorem finish (tracked : Tracked first records engine)
    (served : engine.served (.finish : Move α δ) = true) :
    Tracked first records engine.finish := by
  unfold Engine.finish
  split
  · exact tracked
  · rename_i idle
    rw [Engine.served, if_neg idle] at served
    rw [tracked.sequenced.failure]
    rcases synced : Device.sync engine.device with ⟨error | _, device⟩
    · rw [synced] at served
      cases served
    · exact ⟨{ tracked.sequenced with }, tracked.places, tracked.cursor⟩

/-- A move leaves the writer with its windows, and logs what it gains. -/
theorem move (tracked : Tracked first records engine) {move : Move α δ}
    (served : engine.served move = true)
    (room : first + records.length + (engine.gained app move).toList.length <
      Sequencer.wordSize) :
    Tracked first (records ++ (engine.gained app move).toList) (engine.move app move) := by
  have logging : ∀ entry sync, first + records.length +
      (engine.logged app entry sync).toList.length < Sequencer.wordSize →
        Tracked first (records ++ (engine.logged app entry sync).toList)
          (engine.log app entry sync).2 := by
    intro entry sync room
    refine tracked.log entry sync fun record logged => ?_
    rw [Option.mem_def.mp logged] at room
    exact room
  have quiet : ∀ {after : Engine σ δ}, Tracked first records after →
      Tracked first (records ++ (none : Option Record).toList) after := by
    intro after tracked
    rw [Option.toList_none, List.append_nil]
    exact tracked
  cases move with
  | append | appendMember | commit => exact logging _ _ room
  | beginTransaction | setLowestLive | requestStop | onDevice =>
      exact quiet ⟨{ tracked.sequenced with }, tracked.places, tracked.cursor⟩
  | closeBarrier => exact quiet tracked.closeBarrier
  | collect => exact quiet tracked.collect
  | write => exact quiet (tracked.write served)
  | finish => exact quiet (tracked.finish served)

theorem run (tracked : Tracked first records engine) {moves : List (Move α δ)}
    (served : engine.servedRun app moves = true)
    (room : first + records.length + (engine.accepted app moves).length < Sequencer.wordSize) :
    Tracked first (records ++ engine.accepted app moves) (engine.run app moves) := by
  induction moves generalizing engine records with
  | nil => simpa [accepted] using tracked
  | cons move moves ih =>
      rw [servedRun, Bool.and_eq_true] at served
      rw [accepted, List.length_append] at room
      rw [accepted, ← List.append_assoc]
      refine ih (tracked.move served.1 (by omega)) served.2 ?_
      rw [List.length_append]
      omega

omit [Device δ] in
theorem of_resume (config : Config) (report : RecoveryReport) (device : δ) (state : σ) :
    Tracked report.nextLsn [] (resume config report device state) where
  sequenced := sequenced_resume config report device state
  places := nofun
  cursor := ⟨_, rfl⟩

end Tracked

/-- Whatever is asked of an engine from its opening on, and wherever the writer takes its
steps in between, as long as the device serves it: no closed window waits for a record,
none is lost or doubled, and no append fails for a fault of the windows. -/
theorem gathered_run {schedule : Recovery.Schedule} {config : Config} {options : RecoveryOptions}
    {device : δ} {state : σ} {report : RecoveryReport} {moves : List (Move α δ)}
    (opened : openUnder schedule app config options device state = .ok (report, engine))
    (served : engine.servedRun app moves = true)
    (room : report.nextLsn + (engine.accepted app moves).length < Sequencer.wordSize) :
    Gathered app (engine.accepted app moves) (engine.run app moves) := by
  rcases recovered_of_open opened with ⟨_, rfl⟩
  exact ((Tracked.of_resume config report device _).run served room).gathered

/-- A probe before and one after a barrier, one that cannot be encoded, and a member of a
transaction that panics before the commit; the writer takes a step here and there. -/
def mingling : List (Move Probe.Action Volume) :=
  [.append ⟨7, 0, 0, none, none, []⟩ false,
    .append ⟨8, 0, Probe.encodeErrorFlag, none, none, []⟩ false,
    .closeBarrier,
    .append ⟨9, 0, 0, none, none, []⟩ true,
    .collect,
    .appendMember 1 ⟨10, 0, Probe.recordPanicFlag, none, none, []⟩,
    .collect,
    .write,
    .commit 1 false]

theorem gathered_run_mingling :
    (forProbes.run Probe.app mingling).current = 103 ∧
      (forProbes.run Probe.app mingling).chain.baseAt
        (forProbes.run Probe.app mingling).chain.tail = 101 ∧
      Gathered Probe.app (forProbes.accepted Probe.app mingling)
        (forProbes.run Probe.app mingling) := by
  have opened : openUnder .late Probe.app .standard {} Volume.newMemory .empty =
      .ok (.initial none Lsn.first, forProbes) := rfl
  have served : forProbes.servedRun Probe.app mingling = true := by decide +kernel
  have room : (RecoveryReport.initial none Lsn.first).nextLsn +
      (forProbes.accepted Probe.app mingling).length < Sequencer.wordSize := by decide +kernel
  exact ⟨by decide +kernel, by decide +kernel, gathered_run opened served room⟩

end Logbook.Engine

import Logbook.Proofs.Engine.Lineage
import Logbook.Proofs.Recovery.Covered

/-!
# A log that goes on after a recovery

A recovery hands on its boundary, which the engine stamps into the records that it logs,
and the next recovery takes it from the newest of them. So what is logged after a
recovery is covered by the next one, if the boundary of the first was not above the
number at which the log goes on. Options and old records can put it there, and what is
logged below it is then passed over.
-/

namespace Logbook

/-- The move leaves the lowest live number alone. -/
def Move.KeepsLowest {α δ : Type} : Move α δ → Prop
  | .setLowestLive _ => False
  | _ => True

namespace Recovery

variable {α σ : Type} {app : Application α σ} {state : σ} {schedule : Schedule} {config : Config}
  {options : RecoveryOptions} {chunks : List Chunk} {report : RecoveryReport}

/-- A log whose boundary is not above its next number has got past the first number. -/
theorem first_le_nextLsn
    (recovered : (recoverWith app schedule config options (chunks.reverse.map .ok) state).outcome =
      .ok report)
    (below : report.boundary ≤ report.nextLsn) : Lsn.first ≤ report.nextLsn := by
  cases found : chunks.getLast? with
  | none =>
      have highest_eq := highest_of_recoverWith recovered
      rw [found] at highest_eq
      rw [RecoveryReport.nextLsn, highest_eq]
      exact Nat.le_refl _
  | some newest =>
      rcases bounds_of_recoverWith found recovered with ⟨_, _, _, _, _, _, boundary_eq⟩
      exact Nat.le_trans (boundary_eq ▸ Nat.le_max_right _ _) below

/-- A recovery that succeeds can read the newest regions as far as there are records from
the boundary on, and decodes these. -/
theorem readable_of_recovered
    (recovered : (recoverWith app schedule config options (chunks.reverse.map .ok) state).outcome =
      .ok report) :
    ∃ unread read parts first, chunks = unread ++ read ∧ Unpacks config.formatPolicy read parts ∧
      Record.Consecutive first parts.flatten ∧ first ≤ max report.boundary Lsn.first ∧
      first + parts.flatten.length = report.nextLsn ∧
      ∀ record ∈ parts.flatten, report.boundary ≤ record.lsn →
        ∃ entry, Entry.decode app record.payload = .ok entry := by
  rcases recoverWith_ok_cases recovered with ⟨above, _⟩ |
    ⟨highest, highest_eq, le, unread, read, parts, first, readings, accounts⟩
  · refine ⟨chunks, [], [], report.nextLsn, by simp, rfl, Record.consecutive_nil _, ?_, rfl, nofun⟩
    cases highest_eq : report.highest with
    | none =>
        rw [RecoveryReport.nextLsn, highest_eq]
        exact Nat.le_max_right _ _
    | some highest =>
        rw [RecoveryReport.nextLsn, highest_eq]
        exact Nat.le_trans (above highest highest_eq) (Nat.le_max_left _ _)
  · have next_eq : report.nextLsn = highest + 1 := by
      rw [RecoveryReport.nextLsn, highest_eq]
    refine ⟨unread, read, parts, first, readings.chunks_eq, readings.unpacks, readings.consecutive,
      Nat.le_trans readings.first_le (Nat.le_max_left _ _), readings.ends.trans next_eq.symm, ?_⟩
    intro record member above
    have bounds := readings.consecutive.bounds member
    have := readings.ends
    have inside : record.lsn ∈ descent report.boundary highest :=
      mem_descent.mpr ⟨above, by omega⟩
    rcases accounts.entries record.lsn inside with ⟨entry, found⟩
    have known := Ledger.entry_ofRecords readings.consecutive member app highest
    exact ⟨entry, decode_of_toOption (known.symm.trans found)⟩

/-- Records behind those of a recovery that succeeded: they go on with the next number, and
each of them carries the boundary of that recovery. -/
structure Continues (report : RecoveryReport) (new : List Chunk) (parts : List (List Record)) :
    Prop where
  unpacks : ∀ policy : FormatPolicy, policy.Admits .current → Unpacks policy new parts
  consecutive : Record.Consecutive report.nextLsn parts.flatten
  stamped : ∀ record ∈ parts.flatten, record.lowest = report.boundary
  some_records : parts.flatten ≠ []

namespace Continues

variable {new : List Chunk} {parts : List (List Record)} {schedule' : Schedule} {config' : Config}
  {state' : σ} {report' : RecoveryReport}

/-- The next recovery takes its boundary from the newest of these records. -/
theorem bounds (continues : Continues report new parts)
    (recovered : (recoverWith app schedule' config' {} ((chunks ++ new).reverse.map .ok)
      state').outcome = .ok report') :
    report'.boundary = max report.boundary Lsn.first ∧
      ∃ highest, report'.highest = some highest ∧
        highest + 1 = report.nextLsn + parts.flatten.length := by
  have unpacks := continues.unpacks .auto trivial
  have some_chunks : new ≠ [] := by
    rintro rfl
    cases List.map_eq_nil_iff.mp unpacks.symm
    exact continues.some_records rfl
  rcases unpacks.newest continues.consecutive some_chunks with ⟨newest, found, newest_eq⟩
  have is_last : (chunks ++ new).getLast? = some newest := by
    rw [List.getLast?_append, found]
    rfl
  rcases bounds_of_recoverWith is_last recovered with
    ⟨highest_eq, records, last, unpacked, last_eq, _, boundary_eq⟩
  have inside := List.mem_flatten_of_mem (unpacks.mem (List.mem_of_getLast? found) unpacked)
    (List.mem_of_getLast? last_eq)
  constructor
  · rw [boundary_eq, Option.getD_none, continues.stamped last inside]
  · exact ⟨newest.lsn, highest_eq, newest_eq⟩

/-- The next recovery covers these records, if the boundary is not above the next number. -/
theorem covered (continues : Continues report new parts)
    (recovered : (recoverWith app schedule config options (chunks.reverse.map .ok) state).outcome =
      .ok report)
    (recovered' : (recoverWith app schedule' config' {} ((chunks ++ new).reverse.map .ok)
      state').outcome = .ok report')
    (below : report.boundary ≤ report.nextLsn) {highest : Nat}
    (highest_eq : report'.highest = some highest) :
    report'.boundary ≤ report.nextLsn ∧ report'.scanned = highest + 1 - report'.boundary ∧
      ∃ unread read log, chunks ++ new = unread ++ read ∧
        Unpacks config'.formatPolicy read log ∧
        ∀ record ∈ parts.flatten, Covers app highest log.flatten
          (recoverWith app schedule' config' {} ((chunks ++ new).reverse.map .ok) state')
          record := by
  rcases continues.bounds recovered' with ⟨boundary_eq, highest', highest_eq', ends⟩
  cases highest_eq.symm.trans highest_eq'
  have first_le := first_le_nextLsn recovered below
  have some_length := List.length_pos_iff.mpr continues.some_records
  have boundary_le : report'.boundary ≤ report.nextLsn := by
    rw [boundary_eq]
    exact Nat.max_le.mpr ⟨below, first_le⟩
  have le : report'.boundary ≤ highest := by omega
  rcases recoverWith_ok recovered' highest_eq le with
    ⟨unread, read, log, first, readings, accounts⟩
  have inside := readings.covers le (continues.unpacks .auto trivial) continues.consecutive
    boundary_le
  refine ⟨boundary_le, ?_, unread, read, log, readings.chunks_eq, readings.unpacks, ?_⟩
  · rw [accounts.reported.scanned, length_descent]
    exact Nat.zero_add _
  · intro record member
    have bounds := continues.consecutive.bounds member
    exact accounts.covers readings.consecutive (inside member) (by omega) (by omega)

/-- The next recovery succeeds, if these records are decoded and no replay fails. -/
theorem succeeds (continues : Continues report new parts)
    (recovered : (recoverWith app schedule config options (chunks.reverse.map .ok) state).outcome =
      .ok report)
    (same_policy : config'.formatPolicy = config.formatPolicy)
    (admits : config.formatPolicy.Admits .current)
    (decoded : ∀ record ∈ parts.flatten, ∃ entry, Entry.decode app record.payload = .ok entry)
    {final : σ}
    (carried : Use.carryOutAll app (recoverWith app schedule' config' {}
      ((chunks ++ new).reverse.map .ok) state').uses.reverse state' = .ok final) :
    ∃ report', (recoverWith app schedule' config' {} ((chunks ++ new).reverse.map .ok)
      state').outcome = .ok report' := by
  rcases readable_of_recovered recovered with
    ⟨unread, read, old, first, rfl, unpacks, consecutive, start_le, ends, old_decoded⟩
  have found := List.getLast?_eq_some_getLast continues.some_records
  generalize parts.flatten.getLast continues.some_records = newest at found
  have boundary_eq : ({} : RecoveryOptions).boundary newest = max report.boundary Lsn.first := by
    rw [RecoveryOptions.boundary, Option.getD_none,
      continues.stamped newest (List.mem_of_getLast? found)]
  have all_unpack : Unpacks config'.formatPolicy (read ++ new) (old ++ parts) :=
    same_policy ▸ unpacks.append (continues.unpacks _ admits)
  have all_consecutive : Record.Consecutive first (old ++ parts).flatten := by
    rw [List.flatten_append, Record.consecutive_append, ends]
    exact ⟨consecutive, continues.consecutive⟩
  rw [List.append_assoc] at carried ⊢
  refine exists_report_of_unpacks all_unpack all_consecutive ?_ (boundary_eq ▸ start_le) ?_ carried
  · rw [List.flatten_append, List.getLast?_append, found]
    rfl
  · rw [List.flatten_append, boundary_eq]
    intro record member above
    rcases List.mem_append.mp member with old_record | new_record
    · exact old_decoded record old_record (Nat.le_trans (Nat.le_max_left _ _) above)
    · exact decoded record new_record

end Continues

end Recovery

namespace Engine

section Lowest

variable {α σ δ : Type} [Device δ] {app : Application α σ} {engine : Engine σ δ}

theorem lowestLive_move (app : Application α σ) (engine : Engine σ δ) {move : Move α δ}
    (keeps : move.KeepsLowest) : (engine.move app move).lowestLive = engine.lowestLive := by
  have quiet : ∀ move : Move α δ, move.Quiet →
      (engine.move app move).lowestLive = engine.lowestLive := by
    intro move quiet
    rcases quiet_frame app engine quiet with ⟨_, _, _, _, moved⟩
    rw [moved]
  have logging : ∀ entry sync,
      (engine.log app entry sync).2.lowestLive = engine.lowestLive := by
    intro entry sync
    rcases log_frame app engine entry sync with ⟨_, _, _, logged⟩
    rw [logged]
  cases move with
  | append | appendMember | commit => exact logging _ _
  | closeBarrier | collect | write | finish => exact quiet _ trivial
  | beginTransaction | requestStop | onDevice => rfl
  | setLowestLive => exact absurd keeps id

omit [Device δ] in
theorem lowest_of_logged {entry : Entry α} {sync : Bool} {record : Record}
    (logged : engine.logged app entry sync = some record) :
    record.lowest = engine.lowestLive := by
  have stamped : ∀ lsn, (entry.encode app).toOption.map (Record.mk lsn engine.lowestLive) =
      some record → record.lowest = engine.lowestLive := by
    intro lsn made
    rcases Option.map_eq_some_iff.mp made with ⟨payload, _, rfl⟩
    rfl
  unfold Engine.logged at logged
  split at logged
  · exact stamped _ logged
  · exact stamped _ logged
  · cases logged

/-- Records that are added while nothing raises the lowest live number carry it. -/
theorem lowest_of_accepted {moves : List (Move α δ)} (keeps : ∀ move ∈ moves, move.KeepsLowest) :
    ∀ record ∈ engine.accepted app moves, record.lowest = engine.lowestLive := by
  induction moves generalizing engine with
  | nil => exact nofun
  | cons move moves ih =>
      rw [List.forall_mem_cons] at keeps
      intro record member
      rcases List.mem_append.mp member with here | later
      · have gained := Option.mem_toList.mp here
        cases move with
        | append | appendMember | commit => exact lowest_of_logged gained
        | beginTransaction | setLowestLive | closeBarrier | requestStop | collect | write
        | finish | onDevice => cases gained
      · rw [ih keeps.2 record later]
        exact lowestLive_move app engine keeps.1

end Lowest

section Stint

variable {α σ δ : Type} [Device δ] [Device.Reliable δ] {app : Application α σ}

/-- A log is opened on a device, the engine works through some moves of producers and of
the writer, and is shut down well. Some records are logged, and no move raises the lowest
live number. -/
structure Stint (app : Application α σ) (config : Config) (device : δ) (report : RecoveryReport)
    (engine : Engine σ δ) (moves : List (Move α δ)) : Prop where
  intact : Device.Reliable.Intact device
  opened : ∃ schedule options state,
    openUnder schedule app config options device state = .ok (report, engine)
  inside : ∀ move ∈ moves, move.Inside
  keeps : ∀ move ∈ moves, move.KeepsLowest
  fits : ∀ record ∈ engine.accepted app moves, record.Fits
  room : report.nextLsn + (engine.accepted app moves).length < Sequencer.wordSize
  some_records : engine.accepted app moves ≠ []
  running : (engine.run app moves).isOpen = true
  clean : (engine.run app moves).shutdown.1 = some (.ok ())

/-- A stint leaves its records behind the regions that it found. -/
theorem Stint.leaves {config : Config} {device : δ} {report : RecoveryReport}
    {engine : Engine σ δ} {moves : List (Move α δ)} {old : List Chunk}
    (stint : Stint app config device report engine moves) (reads : Device.Reads device old) :
    ∃ new parts, Device.Reads (engine.run app moves).shutdown.2.device (old ++ new) ∧
      parts.flatten = engine.accepted app moves ∧ Recovery.Continues report new parts := by
  rcases stint.opened with ⟨schedule, options, state, opened⟩
  rcases leaves_of_open stint.intact reads opened stint.inside stint.fits stint.room stint.running
    stint.clean with ⟨pieces, all, cut, formats, left⟩
  have flatten_eq : (pieces.map Piece.records).flatten = engine.accepted app moves := by
    rw [← List.flatMap_def, all]
  refine ⟨pieces.map Piece.chunk, pieces.map Piece.records, left, flatten_eq, ?_⟩
  constructor
  · exact fun policy admits => (cut.of_current formats admits).unpacks formats
  · rw [← List.flatMap_def]
    exact cut.consecutive
  · rw [flatten_eq]
    intro record member
    rw [lowest_of_accepted stint.keeps record member, (recovered_of_open opened).2]
    rfl
  · rw [flatten_eq]
    exact stint.some_records

/-- What is logged after a recovery and shut down is covered by the next one, if the
boundary of the first is not above the number at which the log goes on. The next recovery
goes down to that boundary, and uses no action below it. It succeeds if all entries are
decoded and no replay fails. -/
theorem stint_covered {config : Config} {device after : δ} {report : RecoveryReport}
    {engine : Engine σ δ} {moves : List (Move α δ)}
    (stint : Stint app config device report engine moves)
    (reopens : Reopens (engine.run app moves).shutdown.2.device after)
    (schedule : Recovery.Schedule) (config' : Config) (state : σ) :
    (∀ report', (Recovery.recoverWith app schedule config' {} (Device.newestFirst after)
        state).outcome = .ok report' →
      report'.boundary = max report.boundary Lsn.first ∧
      (∀ use ∈ (Recovery.recoverWith app schedule config' {} (Device.newestFirst after)
        state).uses, report'.boundary ≤ use.job.lsn) ∧
      ∃ highest, report'.highest = some highest ∧
        highest + 1 = report.nextLsn + (engine.accepted app moves).length ∧
        (report.boundary ≤ report.nextLsn →
          report'.boundary ≤ report.nextLsn ∧
          report'.scanned = highest + 1 - report'.boundary ∧
          ∃ unread read parts, Device.Reads after (unread ++ read) ∧
            Unpacks config'.formatPolicy read parts ∧
            ∀ record ∈ engine.accepted app moves, Recovery.Covers app highest parts.flatten
              (Recovery.recoverWith app schedule config' {} (Device.newestFirst after) state)
              record)) ∧
    (report.boundary ≤ report.nextLsn → config'.formatPolicy = config.formatPolicy →
      config.formatPolicy.Admits .current →
      (∀ record ∈ engine.accepted app moves,
        ∃ entry, Entry.decode app record.payload = .ok entry) →
      ∀ final, Recovery.Use.carryOutAll app
        (Recovery.recoverWith app schedule config' {} (Device.newestFirst after)
          state).uses.reverse state = .ok final →
      ∃ report', (Recovery.recoverWith app schedule config' {} (Device.newestFirst after)
        state).outcome = .ok report') := by
  rcases Device.Reliable.reads device stint.intact with ⟨old, reads⟩
  rcases stint.leaves reads with ⟨new, parts, left, records_eq, continues⟩
  rcases stint.opened with ⟨first_schedule, options, first_state, opened⟩
  have recovered := (recovered_of_open opened).1
  have reads_after := reopens.2 _ left
  rw [reads] at recovered
  rw [reads_after, ← records_eq]
  constructor
  · intro report' recovered'
    rcases continues.bounds recovered' with ⟨boundary_eq, highest, highest_eq, ends⟩
    refine ⟨boundary_eq, fun use used => Recovery.boundary_le_of_used recovered' used, highest,
      highest_eq, ends, fun below => ?_⟩
    rcases continues.covered recovered recovered' below highest_eq with
      ⟨boundary_le, scanned, unread, read, log, chunks_eq, unpacks, covers⟩
    exact ⟨boundary_le, scanned, unread, read, log, chunks_eq ▸ reads_after, unpacks, covers⟩
  · intro _ same_policy admits decoded final carried
    exact continues.succeeds recovered same_policy admits decoded carried

/-- What recovery makes of the log of `asking`. -/
def recoveredAsking : Recovery.Result Probe.Action Probe.Journal :=
  Recovery.recoverWith Probe.app .late .standard {}
    (Device.newestFirst (forProbesInMemory.run Probe.app asking).shutdown.2.device) .empty

theorem stint_asking : Stint Probe.app .standard (.onDisk .empty) (.initial none Lsn.first)
    forProbesInMemory asking where
  intact := trivial
  opened := ⟨.late, {}, .empty, rfl⟩
  inside := by simp [asking, Move.Inside]
  keeps := by simp [asking, Move.KeepsLowest]
  fits := by
    rw [accepted_asking]
    simp only [List.forall_mem_cons]
    exact ⟨⟨by decide, by decide, by decide⟩, ⟨by decide, by decide, by decide⟩,
      ⟨by decide, by decide, by decide⟩, by simp⟩
  room := by
    rw [accepted_asking]
    decide
  some_records := by
    rw [accepted_asking]
    exact List.cons_ne_nil _ _
  running := by decide +kernel
  clean := clean_of_endsWell (by decide +kernel)

/-- Three probes are logged from the number 100 on, and are covered down to there. -/
theorem stint_covered_asking : ∃ report', recoveredAsking.outcome = .ok report' ∧
    report'.boundary = 100 ∧ report'.scanned = 3 ∧
    ∀ record ∈ [probeRecord 100 7, probeRecord 101 8, probeRecord 102 9],
      ∃ log, Recovery.Covers Probe.app 102 log recoveredAsking record := by
  have ⟨covered, succeeds⟩ := stint_covered stint_asking ⟨trivial, fun _ => id⟩ .late .standard
    (.empty : Probe.Journal)
  rw [accepted_asking] at covered succeeds
  have decoded : ∀ record ∈ [probeRecord 100 7, probeRecord 101 8, probeRecord 102 9],
      ∃ entry, Entry.decode Probe.app record.payload = .ok entry := by
    simp only [List.forall_mem_cons]
    exact ⟨⟨.plain ⟨7, 0, 0, none, none, []⟩, rfl⟩, ⟨.plain ⟨8, 0, 0, none, none, []⟩, rfl⟩,
      ⟨.plain ⟨9, 0, 0, none, none, []⟩, rfl⟩, nofun⟩
  have uses_eq : recoveredAsking.uses = [.replayed ⟨⟨7, 0, 0, none, none, []⟩, 100⟩,
      .replayed ⟨⟨8, 0, 0, none, none, []⟩, 101⟩,
      .replayed ⟨⟨9, 0, 0, none, none, []⟩, 102⟩] := by
    decide +kernel
  have carried : Recovery.Use.carryOutAll Probe.app recoveredAsking.uses.reverse .empty =
      .ok ⟨[], [(0, 9, 102), (0, 8, 101), (0, 7, 100)], []⟩ := by
    rw [uses_eq]
    rfl
  rcases succeeds (Nat.le_refl _) rfl (by decide) decoded _ carried with ⟨report', recovered⟩
  rcases covered report' recovered with ⟨boundary_eq, _, highest, _, ends, covers⟩
  cases (Nat.succ.inj ends : highest = 102)
  rcases covers (Nat.le_refl _) with ⟨_, scanned, _, _, parts, _, _, covers⟩
  refine ⟨report', recovered, boundary_eq, ?_, fun record member => ⟨_, covers record member⟩⟩
  rw [scanned, boundary_eq]
  rfl

/-- An engine for probes on a new device, opened with a lowest live number above all that
is logged later. -/
def farAbove : Engine Probe.Journal MemoryDevice :=
  .resume .standard (.initial none 500) (.onDisk .empty) .empty

/-- A probe is logged. -/
def probingOnce : List (Move Probe.Action MemoryDevice) := [.append ⟨7, 0, 0, none, none, []⟩ true]

theorem accepted_probingOnce : farAbove.accepted Probe.app probingOnce =
    [⟨100, 500, (probeRecord 100 7).payload⟩] := by
  decide +kernel

/-- A log that was opened with the boundary 500 logs a record under the number 100, and
stamps 500 into it. The next recovery succeeds and has passed the record over. -/
theorem appended_passed_over :
    Stint Probe.app .standard (.onDisk .empty) (.initial none 500) farAbove probingOnce ∧
      let result := Recovery.recoverWith Probe.app .late .standard {}
        (Device.newestFirst (farAbove.run Probe.app probingOnce).shutdown.2.device) .empty
      result.outcome = .ok { RecoveryReport.initial (some 100) 500 with regions := 1 } ∧
        result.uses = [] := by
  constructor
  · exact {
      intact := trivial
      opened := ⟨.late, ⟨some 500⟩, .empty, rfl⟩
      inside := by simp [probingOnce, Move.Inside]
      keeps := by simp [probingOnce, Move.KeepsLowest]
      fits := by
        rw [accepted_probingOnce, List.forall_mem_singleton]
        exact ⟨by decide, by decide, by decide⟩
      room := by
        rw [accepted_probingOnce]
        decide
      some_records := by
        rw [accepted_probingOnce]
        exact List.cons_ne_nil _ _
      running := by decide +kernel
      clean := clean_of_endsWell (by decide +kernel) }
  · decide +kernel

end Stint

end Engine

end Logbook

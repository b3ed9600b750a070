import Logbook.Proofs.Recovery.Consumed

/-!
# Who replays does not matter

Where every replay takes effect, the crew never stops the scan. So a recovery ends in
the same way with any number of workers under any schedule, and replays the same actions,
those of one bucket in the same order.
-/

namespace Logbook

variable {α σ : Type}

namespace Recovery

variable {app : Application α σ}

namespace Crew

variable {crew : Crew α σ} {state : σ} {workers : Nat} {handed : List (Use α)} {told : Bool}

/-- Without a failing replay the crew is not stopped. -/
theorem Honest.going (replays : app.Replays) (honest : Honest app false state crew) :
    crew.aborted = false := by
  rw [honest.aborted, honest.unfailed (not_faulted replays crew)]
  rfl

/-- Without a failing replay the crew takes every action. -/
theorem Reliable.dispatch_ok (replays : app.Replays)
    (reliable : Reliable app false workers state handed crew) (job : Job α) :
    ∃ after, crew.dispatch app job = (.ok true, after) := by
  rcases reliable.dispatch job with
    ⟨goes_on, after, dispatched, reliable, aborted, _⟩ | ⟨_, _, _, _, panics⟩
  · rw [reliable.honest.going replays] at aborted
    cases goes_on with
    | true => exact ⟨after, dispatched⟩
    | false => cases aborted
  · exact absurd replays.neverPanics panics

end Crew

namespace Pass

variable {state twin_state : σ} {workers twin_workers : Nat} {handed twin_handed : List (Use α)}

/-- Two passes that know and report the same. -/
structure Alike (pass twin : Pass α σ) : Prop where
  report : twin.report = pass.report
  tables : twin.tables = pass.tables

theorem settle_goes_on (replays : app.Replays) (pass : Pass α σ)
    (reliable : pass.crew.Reliable app false workers state handed) (fate : Fate) (job : Job α) :
    ∃ crew, pass.settle app fate job = (none, { pass with crew := crew }) := by
  cases fate with
  | survives =>
      rcases reliable.dispatch_ok replays job with ⟨crew, dispatched⟩
      exact ⟨crew, by simp only [settle, dispatched]⟩
  | superseded | commits | voided | deleted => exact ⟨_, rfl⟩

theorem visit_alike (replays : app.Replays) {pass twin : Pass α σ} (alike : Alike pass twin)
    (reliable : pass.crew.Reliable app false workers state handed)
    (twin_reliable : twin.crew.Reliable app false twin_workers twin_state twin_handed)
    (record : Record) :
    (twin.visit app record).1 = (pass.visit app record).1 ∧
      Alike (pass.visit app record).2 (twin.visit app record).2 := by
  unfold visit
  rw [alike.report, alike.tables]
  cases Entry.decode app record.payload with
  | error cause => exact ⟨rfl, rfl, rfl⟩
  | ok entry =>
      dsimp only
      rcases pass.tables.judge app record.lsn entry with ⟨fate, tables⟩
      dsimp only
      cases entry.action? with
      | none => exact ⟨rfl, rfl, rfl⟩
      | some action =>
          rcases settle_goes_on replays
            ⟨countFate (count pass.report record.lsn entry.txn?) fate, tables, pass.crew⟩
            reliable fate ⟨action, record.lsn⟩ with ⟨crew, settled⟩
          rcases settle_goes_on replays
            ⟨countFate (count pass.report record.lsn entry.txn?) fate, tables, twin.crew⟩
            twin_reliable fate ⟨action, record.lsn⟩ with ⟨twin_crew, twin_settled⟩
          dsimp only
          rw [settled, twin_settled]
          exact ⟨rfl, rfl, rfl⟩

/-- Passes of different crews end in the same way. -/
theorem run_alike (replays : app.Replays) (schedule twin_schedule : Schedule)
    {pass twin : Pass α σ} (alike : Alike pass twin)
    (reliable : pass.crew.Reliable app false workers state handed)
    (twin_reliable : twin.crew.Reliable app false twin_workers twin_state twin_handed)
    (previous : Option Nat) (items : List (Except LogError Scanned)) :
    (twin.run app twin_schedule previous items).1 = (pass.run app schedule previous items).1 ∧
      (twin.run app twin_schedule previous items).2.report =
        (pass.run app schedule previous items).2.report := by
  induction items generalizing pass twin handed twin_handed previous with
  | nil => cases previous <;> exact ⟨rfl, alike.report⟩
  | cons head rest ih =>
      cases head with
      | error error => exact ⟨rfl, alike.report⟩
      | ok scanned =>
          rcases pass with ⟨report, tables, crew⟩
          rcases twin with ⟨twin_report, twin_tables, twin_crew⟩
          cases (show twin_report = report from alike.report)
          cases (show twin_tables = tables from alike.tables)
          rw [run, run]
          dsimp only
          split
          · exact ⟨rfl, rfl⟩
          · let read : Pass α σ := ⟨{ report with regions := scanned.regions }, tables, crew⟩
            let twin_read : Pass α σ := { read with crew := twin_crew }
            have alike_read : Alike read twin_read := ⟨rfl, rfl⟩
            have same := visit_alike replays alike_read reliable twin_reliable scanned.record
            obtain ⟨stop, after, visited, _, _, _, reliable, _⟩ :=
              read.visit_reliable replays.neverPanics reliable scanned
            obtain ⟨twin_stop, twin_after, twin_visited, _, _, _, twin_reliable, _⟩ :=
              twin_read.visit_reliable replays.neverPanics twin_reliable scanned
            rw [visited, twin_visited] at same ⊢
            rcases after with ⟨report, tables, crew⟩
            rcases twin_after with ⟨twin_report, twin_tables, twin_crew⟩
            cases (show twin_stop = stop from same.1)
            cases (show twin_report = report from same.2.report)
            cases (show twin_tables = tables from same.2.tables)
            cases stop with
            | some stop => exact ⟨rfl, rfl⟩
            | none =>
                dsimp only
                split
                · exact ⟨rfl, rfl⟩
                · let next : Pass α σ :=
                    ⟨report, tables, crew.workAll app (schedule.during report.scanned)⟩
                  let twin_next : Pass α σ :=
                    ⟨report, tables, twin_crew.workAll app (twin_schedule.during report.scanned)⟩
                  exact ih (show Alike next twin_next from ⟨rfl, rfl⟩)
                    (reliable.workAll _)
                    (twin_reliable.workAll _) _

end Pass

/-- What a recovery reports when its pass ends in some way, and no replay fails. -/
theorem conclude_unfailed (replays : app.Replays) (schedule : Schedule) {stop : Stop}
    {pass : Pass α σ} {workers : Nat} {state : σ} {handed : List (Use α)}
    (reliable : pass.crew.Reliable app false workers state handed)
    (no_panic : ∀ panic, stop ≠ .panicked panic) :
    (conclude app schedule stop pass).outcome =
      match stop with
      | .failed error => .failed error
      | _ => .ok { pass.report with replayed := (replayedJobs handed).length } := by
  cases stop with
  | panicked panic => exact absurd rfl (no_panic panic)
  | failed error =>
      have joined := reliable.tell.join schedule.after
      have unfailed : (pass.crew.abort app schedule.after).firstError = none :=
        joined.honest.unfailed (Crew.not_faulted replays _)
      rw [conclude, unfailed]
      rfl
  | done =>
      have settled := Crew.settled_join app pass.crew schedule.after
      have done := (reliable.join schedule.after).done settled (Crew.not_faulted replays _)
      rw [conclude, length_replayedJobs]
      simp only [done.firstError, done.counted]

/-- Where every replay takes effect, the number of workers and the schedule change
neither what a recovery decodes nor how it ends. -/
theorem recoverWith_workers (replays : app.Replays) (schedule other_schedule : Schedule)
    (config other : Config) (same_policy : other.formatPolicy = config.formatPolicy)
    (options : RecoveryOptions) (regions : List (Except StorageError Chunk)) (state : σ) :
    (recoverWith app other_schedule other options regions state).outcome =
        (recoverWith app schedule config options regions state).outcome ∧
      decoded app other_schedule other options regions state =
        decoded app schedule config options regions state := by
  have calm := replays.neverPanics
  cases scan_eq : scan config.formatPolicy regions with
  | nil => simp only [recoverWith, decoded, same_policy, scan_eq, and_self]
  | cons head older =>
      cases head with
      | error error => simp only [recoverWith, decoded, same_policy, scan_eq, and_self]
      | ok newest =>
          have twin_scan_eq := same_policy ▸ scan_eq
          obtain ⟨stop, pass, run_eq, concludes, no_panic, _, reliable⟩ :=
            recoverWith_eq_pass calm schedule options state scan_eq
          obtain ⟨twin_stop, twin_pass, twin_run_eq, twin_concludes, _, _, twin_reliable⟩ :=
            recoverWith_eq_pass calm other_schedule options state twin_scan_eq
          have starts : Pass.Alike
              (.start config state newest.record.lsn (options.boundary newest.record) : Pass α σ)
              (.start other state newest.record.lsn (options.boundary newest.record)) :=
            ⟨rfl, rfl⟩
          have alike := Pass.run_alike replays schedule other_schedule starts
            (Crew.reliable_assemble app _ state) (Crew.reliable_assemble app _ state)
            none (.ok newest :: older)
          rw [run_eq, twin_run_eq] at alike
          rcases alike with ⟨stop_eq, report_eq⟩
          cases (show twin_stop = stop from stop_eq)
          have entries_eq : decoded app other_schedule other options regions state =
              decoded app schedule config options regions state := by
            rw [decoded, decoded, scan_eq, twin_scan_eq]
            dsimp only
            rw [run_eq, twin_run_eq]
            exact congrArg (fun report => entriesOf app (List.take report.scanned _)) report_eq
          refine ⟨?_, entries_eq⟩
          rw [twin_concludes, concludes, conclude_unfailed replays schedule reliable no_panic,
            conclude_unfailed replays other_schedule twin_reliable no_panic, entries_eq,
            show twin_pass.report = pass.report from report_eq]

/-- A recovery that succeeds replays the survivors of what it decodes, in an order that is
the same inside each bucket. -/
theorem recoverWith_reorders (calm : app.NeverPanics) {schedule : Schedule} {config : Config}
    {options : RecoveryOptions} {regions : List (Except StorageError Chunk)} {state : σ}
    {report : RecoveryReport}
    (ok : (recoverWith app schedule config options regions state).outcome = .ok report) :
    Reorders app (survivors app (decoded app schedule config options regions state))
        (replayedJobs (recoverWith app schedule config options regions state).uses.reverse) ∧
      Use.carryOutAll app (recoverWith app schedule config options regions state).uses.reverse
        state = .ok (recoverWith app schedule config options regions state).state := by
  rcases (recoverWith_consumed calm schedule config options regions state).2.ok report ok with
    ⟨lanes, carried⟩
  exact ⟨reorders_of_onLane lanes, carried⟩

end Recovery

end Logbook

import Logbook.Proofs.Region.Grammar
import Logbook.Recovery

/-!
# The newest record

A recovery that succeeds has unpacked the newest region, whose last record has the
number that the region was written at. That is the highest number it reports.
-/

namespace Logbook

theorem bind_eq_ok {ε β γ : Type} {result : Except ε β} {next : β → Except ε γ} {value : γ}
    (ok : result.bind next = .ok value) :
    ∃ middle, result = .ok middle ∧ next middle = .ok value := by
  cases result with
  | error error => cases ok
  | ok middle => exact ⟨middle, rfl, ok⟩

namespace Recovery

variable {α σ : Type} {app : Application α σ}

namespace Pass

theorem settle_report (pass : Pass α σ) (fate : Fate) (job : Job α) :
    (pass.settle app fate job).2.report = pass.report := by
  unfold settle
  split
  · split <;> rfl
  · rfl

theorem countFate_bounds (report : RecoveryReport) (fate : Fate) :
    (countFate report fate).highest = report.highest ∧
      (countFate report fate).boundary = report.boundary := by
  cases fate <;> exact ⟨rfl, rfl⟩

theorem visit_bounds (app : Application α σ) (pass : Pass α σ) (record : Record) :
    (pass.visit app record).2.report.highest = pass.report.highest ∧
      (pass.visit app record).2.report.boundary = pass.report.boundary := by
  unfold visit
  split
  · exact ⟨rfl, rfl⟩
  · dsimp only
    split
    · rw [settle_report]
      exact countFate_bounds _ _
    · exact countFate_bounds _ _

/-- Looking at records moves neither end of the scan. -/
theorem run_bounds (schedule : Schedule) (pass : Pass α σ) (previous : Option Nat)
    (scanned : List (Except LogError Scanned)) :
    (pass.run app schedule previous scanned).2.report.highest = pass.report.highest ∧
      (pass.run app schedule previous scanned).2.report.boundary = pass.report.boundary := by
  induction scanned generalizing pass previous with
  | nil => cases previous <;> exact ⟨rfl, rfl⟩
  | cons head rest ih =>
      cases head with
      | error error => exact ⟨rfl, rfl⟩
      | ok found =>
          rw [run]
          dsimp only
          split
          · exact ⟨rfl, rfl⟩
          · have same := visit_bounds app
              { pass with report := { pass.report with regions := found.regions } } found.record
            split
            · rename_i stop after visited
              rw [visited] at same
              exact same
            · rename_i after visited
              rw [visited] at same
              split
              · exact same
              · rw [(ih _ _).1, (ih _ _).2]
                exact same

end Pass

/-- The scan starts with the last record of the newest region, or fails. -/
theorem scan_cons (policy : FormatPolicy) (newest : Chunk)
    (older : List (Except StorageError Chunk)) :
    (∃ error, scan policy (.ok newest :: older) = [.error error]) ∨
      ∃ records scanned rest, Region.unpack newest.lsn policy newest.bytes = .ok records ∧
        records.getLast? = some scanned.record ∧ scanned.record.lsn = newest.lsn ∧
        scan policy (.ok newest :: older) = .ok scanned :: rest := by
  unfold scan unpackAll
  cases unpacked : Region.unpack newest.lsn policy newest.bytes with
  | error error => exact .inl ⟨error, rfl⟩
  | ok records =>
      rcases (Region.endsAt_of_unpack unpacked).last with ⟨last, found, lsn_eq⟩
      rcases List.getLast?_eq_some_iff.mp found with ⟨front, rfl⟩
      refine .inr ⟨_, ⟨last, 1⟩, ?_, rfl, found, lsn_eq, ?_⟩
      rotate_left
      · dsimp only
        rw [List.reverse_append, List.reverse_singleton, List.singleton_append, List.map_cons,
          List.cons_append, checkDescent]
        rfl

theorem conclude_bounds {schedule : Schedule} {stop : Stop} {pass : Pass α σ}
    {report : RecoveryReport}
    (concluded : (conclude app schedule stop pass).outcome = .ok report) :
    report.highest = pass.report.highest ∧ report.boundary = pass.report.boundary := by
  unfold conclude at concluded
  split at concluded
  · cases concluded
  · cases concluded
  · dsimp only at concluded
    split at concluded
    · cases concluded
    · cases concluded
      exact ⟨rfl, rfl⟩

section Recovered

variable {schedule : Schedule} {config : Config} {options : RecoveryOptions} {state : σ}
  {chunks : List Chunk} {report : RecoveryReport}

/-- A recovery that succeeds begins at the last record of the newest region, and goes down
to where the options or that record have it stop. -/
theorem bounds_of_recoverWith {newest : Chunk} (found : chunks.getLast? = some newest)
    (recovered : (recoverWith app schedule config options (chunks.reverse.map .ok) state).outcome =
      .ok report) :
    report.highest = some newest.lsn ∧
      ∃ records last, Region.unpack newest.lsn config.formatPolicy newest.bytes = .ok records ∧
        records.getLast? = some last ∧ last.lsn = newest.lsn ∧
        report.boundary = max (options.lowestLive.getD last.lowest) Lsn.first := by
  unfold recoverWith at recovered
  rw [← List.head?_reverse] at found
  rcases List.head?_eq_some_iff.mp found with ⟨older, reversed⟩
  rw [reversed, List.map_cons] at recovered
  rcases scan_cons config.formatPolicy newest (older.map .ok) with
    ⟨error, failed⟩ | ⟨records, scanned, rest, unpacked, is_last, lsn_eq, scanned_eq⟩
  · rw [failed] at recovered
    cases recovered
  · rw [scanned_eq] at recovered
    simp only at recovered
    have concluded := conclude_bounds recovered
    rw [(Pass.run_bounds _ _ _ _).1, (Pass.run_bounds _ _ _ _).2] at concluded
    exact ⟨lsn_eq ▸ concluded.1, records, scanned.record, unpacked, is_last, lsn_eq, concluded.2⟩

/-- The highest number of a recovery is that of the newest region. -/
theorem highest_of_recoverWith
    (recovered : (recoverWith app schedule config options (chunks.reverse.map .ok) state).outcome =
      .ok report) : report.highest = chunks.getLast?.map (·.lsn) := by
  cases found : chunks.getLast? with
  | none =>
      cases List.getLast?_eq_none_iff.mp found
      cases recovered
      rfl
  | some newest => exact (bounds_of_recoverWith found recovered).1

/-- A recovery that cannot read the newest region fails with what is wrong with it. -/
theorem outcome_of_unreadable {newest : Chunk} (found : chunks.getLast? = some newest)
    {error : LogError}
    (unreadable : Region.unpack newest.lsn config.formatPolicy newest.bytes = .error error) :
    (recoverWith app schedule config options (chunks.reverse.map .ok) state).outcome =
      .failed error := by
  rw [← List.head?_reverse] at found
  rcases List.head?_eq_some_iff.mp found with ⟨older, reversed⟩
  rw [reversed, List.map_cons, recoverWith, scan, unpackAll, unreadable]
  rfl

end Recovered

end Recovery

end Logbook

import Logbook.Proofs.Recovery.Shared
import Logbook.Proofs.Recovery.Unpacked

/-!
# How far a pass gets

Whatever a device holds and whatever becomes of the replays, a pass that finds the
next lower record looks at it and goes on, unless the record has no entry or a replay
has failed. Either of these spoils the pass, and a spoiled pass does not end well.
-/

namespace Logbook.Recovery

variable {α σ : Type} {app : Application α σ} {ledger : Ledger α} {state : σ}

theorem descent_eq_nil {lsn highest : Nat} (above : highest < lsn) : descent lsn highest = [] := by
  rw [descent, Nat.sub_eq_zero_of_le above]
  rfl

theorem descent_concat {lsn highest : Nat} (le : lsn ≤ highest) :
    descent lsn highest = descent (lsn + 1) highest ++ [lsn] := by
  have length : highest + 1 - lsn = highest + 1 - (lsn + 1) + 1 := by omega
  rw [descent, length, List.range'_succ, List.reverse_cons]
  rfl

theorem length_descent (boundary highest : Nat) :
    (descent boundary highest).length = highest + 1 - boundary := by
  rw [descent, List.length_reverse, List.length_range']

theorem getLast?_descent {boundary highest : Nat} (le : boundary ≤ highest) :
    (descent boundary highest).getLast? = some boundary := by
  rw [descent_concat le, List.getLast?_concat]

namespace Pass

variable {pass : Pass α σ} {report : RecoveryReport}

/-- A pass that began with `report` and has looked at every record from the newest one
down to `lsn`, without a failure so far. -/
structure Reached (app : Application α σ) (ledger : Ledger α) (state : σ)
    (report : RecoveryReport) (lsn : Nat) (pass : Pass α σ) : Prop where
  entries : ∀ seen ∈ descent lsn ledger.highest, ∃ entry, ledger.entry seen = some entry
  knows : pass.tables.Knows app ledger lsn
  reported : Reported app ledger (descent lsn ledger.highest) report pass.report
  sharing : Crew.Sharing app state (ledger.uses app (descent lsn ledger.highest)) pass.crew

/-- A pass ended after a replay had failed. -/
def Broken (app : Application α σ) (state : σ) : Stop × Pass α σ → Prop
  | (.panicked _, pass) => pass.crew.Faulted app state
  | (.done, pass) | (.failed _, pass) => pass.crew.Failed app state

/-- A pass over some records ended because one of them has no entry, or after a replay
had failed. -/
def Spoiled (app : Application α σ) (state : σ) (seen : List Scanned)
    (result : Stop × Pass α σ) : Prop :=
  Broken app state result ∨
    ∃ scanned ∈ seen, ∃ cause, Entry.decode app scanned.record.payload = .error cause ∧
      result.1 = .failed (.recovery (.decode scanned.record.lsn cause))

theorem reached_assemble (app : Application α σ) (ledger : Ledger α) (state : σ)
    (report : RecoveryReport) (workers : Nat) :
    Reached app ledger state report (ledger.highest + 1)
      ⟨report, .empty, .assemble workers state⟩ := by
  have none := descent_eq_nil (Nat.lt_succ_self ledger.highest)
  constructor
  · rw [none]
    exact nofun
  · exact Tables.knows_empty
  · rw [none]
    exact .refl report
  · rw [none]
    exact Crew.sharing_assemble workers state

theorem Broken.of_failed (pass : Pass α σ) (failed : pass.crew.Failed app state) (stop : Stop) :
    Broken app state (stop, pass) := by
  cases stop with
  | done => exact failed
  | failed error => exact failed
  | panicked panic => exact failed.faulted

/-- A pass whose crew has failed goes on with a crew that has failed. -/
theorem settle_failed (pass : Pass α σ) (failed : pass.crew.Failed app state) (fate : Fate)
    (job : Job α) :
    (∃ after, pass.settle app fate job = (none, after) ∧ after.crew.Failed app state) ∨
      ∃ stop after, pass.settle app fate job = (some stop, after) ∧
        Broken app state (stop, after) := by
  cases fate with
  | survives =>
      simp only [settle]
      rcases failed.dispatch job with
        ⟨goes_on, crew, dispatched, failed⟩ | ⟨panic, crew, dispatched, faulted⟩
      · cases goes_on with
        | true => exact .inl ⟨{ pass with crew := crew }, by rw [dispatched], failed⟩
        | false => exact .inr ⟨.done, { pass with crew := crew }, by rw [dispatched], failed⟩
      · exact .inr ⟨.panicked panic, { pass with crew := crew }, by rw [dispatched], faulted⟩
  | superseded | commits | voided | deleted =>
      exact .inl ⟨{ pass with crew := pass.crew.dispose app job }, rfl, failed.dispose job⟩

theorem visit_failed (pass : Pass α σ) (failed : pass.crew.Failed app state) (record : Record) :
    (∃ after, pass.visit app record = (none, after) ∧ after.crew.Failed app state) ∨
      ∃ stop after, pass.visit app record = (some stop, after) ∧
        Broken app state (stop, after) := by
  unfold visit
  cases Entry.decode app record.payload with
  | error cause => exact .inr ⟨_, { pass with report := _ }, rfl, failed⟩
  | ok entry =>
      dsimp only
      generalize pass.tables.judge app record.lsn entry = verdict
      cases entry.action? with
      | none => exact .inl ⟨_, rfl, failed⟩
      | some action => exact settle_failed ⟨_, verdict.2, pass.crew⟩ failed verdict.1 _

/-- A pass whose crew has failed cannot end well. -/
theorem broken_run (pass : Pass α σ) (schedule : Schedule) (failed : pass.crew.Failed app state)
    (previous : Option Nat) (scanned : List (Except LogError Scanned)) :
    Broken app state (pass.run app schedule previous scanned) := by
  induction scanned generalizing pass previous with
  | nil => cases previous <;> exact failed
  | cons head rest ih =>
      cases head with
      | error error => exact failed
      | ok found =>
          rw [run]
          dsimp only
          split
          · exact failed
          · let read : Pass α σ :=
              { pass with report := { pass.report with regions := found.regions } }
            rcases visit_failed read failed found.record with
              ⟨after, visited, failed⟩ | ⟨stop, after, visited, broken⟩
            · rw [visited]
              have failed := failed.workAll (schedule.during after.report.scanned)
              dsimp only
              split
              · exact failed
              · exact ih _ failed _
            · rw [visited]
              exact broken

/-- Carrying out the fate of the next record. -/
theorem Reached.settle (pass : Pass α σ) {lsn : Nat} {fate : Fate} {entry : Entry α} {action : α}
    (sharing : Crew.Sharing app state (ledger.uses app (descent (lsn + 1) ledger.highest))
      pass.crew)
    (le : lsn ≤ ledger.highest) (has : ledger.HasFate app lsn fate)
    (found : ledger.entry lsn = some entry) (has_action : entry.action? = some action) :
    (∃ crew, pass.settle app fate ⟨action, lsn⟩ = (none, { pass with crew := crew }) ∧
        Crew.Sharing app state (ledger.uses app (descent lsn ledger.highest)) crew) ∨
      ∃ stop after, pass.settle app fate ⟨action, lsn⟩ = (some stop, after) ∧
        Broken app state (stop, after) := by
  rw [descent_concat le, Ledger.uses_append]
  by_cases survives : fate = .survives
  · subst fate
    rw [Ledger.uses_of_replayed has found has_action]
    simp only [Pass.settle]
    rcases sharing.dispatch_cases ⟨action, lsn⟩ with
      ⟨crew, dispatched, sharing⟩ | ⟨crew, dispatched, failed⟩ | ⟨panic, crew, dispatched, faulted⟩
    · exact .inl ⟨crew, by rw [dispatched], sharing⟩
    · exact .inr ⟨.done, { pass with crew := crew }, by rw [dispatched], failed⟩
    · exact .inr ⟨.panicked panic, { pass with crew := crew }, by rw [dispatched], faulted⟩
  · have gone : ¬ ledger.Replayed app lsn := fun replayed =>
      survives (has.unique (show ledger.HasFate app lsn .survives from replayed))
    rw [Ledger.uses_of_not_replayed gone found has_action]
    refine .inl ⟨pass.crew.dispose app ⟨action, lsn⟩, ?_, sharing.dispose _⟩
    cases fate with
    | survives => exact absurd rfl survives
    | superseded | commits | voided | deleted => rfl

/-- Looking at the next record. -/
theorem Reached.visit {record : Record} {entry : Entry α}
    (reached : Reached app ledger state report (record.lsn + 1) pass)
    (le : record.lsn ≤ ledger.highest) (decoded : Entry.decode app record.payload = .ok entry)
    (found : ledger.entry record.lsn = some entry) :
    (∃ after, pass.visit app record = (none, after) ∧
        Reached app ledger state report record.lsn after ∧
        after.report.regions = pass.report.regions) ∨
      ∃ stop after, pass.visit app record = (some stop, after) ∧
        Broken app state (stop, after) := by
  obtain ⟨fate, counted, tables, has, knows, reported, regions, visited⟩ :=
    visit_eq_settle reached.knows le decoded found
  have reported := reached.reported.trans reported
  rw [← descent_concat le] at reported
  have entries : ∀ seen ∈ descent record.lsn ledger.highest,
      ∃ entry, ledger.entry seen = some entry := by
    rw [descent_concat le]
    exact List.forall_mem_append.mpr
      ⟨reached.entries, List.forall_mem_singleton.mpr ⟨entry, found⟩⟩
  rw [visited]
  cases has_action : entry.action? with
  | none =>
      refine .inl ⟨_, rfl, ⟨entries, knows, reported, ?_⟩, regions⟩
      rw [descent_concat le, Ledger.uses_append, uses_of_no_action found has_action,
        List.append_nil]
      exact reached.sharing
  | some action =>
      rcases Reached.settle ⟨counted, tables, pass.crew⟩ reached.sharing le has found
        has_action with ⟨crew, settled, sharing⟩ | broken
      · exact .inl ⟨_, settled, ⟨entries, knows, reported, sharing⟩, regions⟩
      · exact .inr broken

/-- Looking at the next record of a scan, and what the pass does then. -/
theorem Reached.run_cons {scanned : Scanned}
    (reached : Reached app ledger state report (scanned.record.lsn + 1) pass)
    (schedule : Schedule) (boundary_le : report.boundary ≤ scanned.record.lsn)
    (le : scanned.record.lsn ≤ ledger.highest)
    (known : ledger.entry scanned.record.lsn =
      (Entry.decode app scanned.record.payload).toOption) :
    (∃ next, (∀ previous older, pass.run app schedule previous (.ok scanned :: older) =
          if scanned.record.lsn = report.boundary then (.done, next)
          else next.run app schedule (some scanned.record.lsn) older) ∧
        Reached app ledger state report scanned.record.lsn next ∧
        next.report.regions = scanned.regions) ∨
      ∀ previous older,
        Spoiled app state [scanned] (pass.run app schedule previous (.ok scanned :: older)) := by
  let read : Pass α σ := { pass with report := { pass.report with regions := scanned.regions } }
  have going : ¬ scanned.record.lsn < pass.report.boundary := by
    rw [reached.reported.boundary]
    exact Nat.not_lt.mpr boundary_le
  cases decoded : Entry.decode app scanned.record.payload with
  | error cause =>
      right
      intro previous older
      refine .inr ⟨scanned, List.mem_singleton_self _, cause, decoded, ?_⟩
      rw [run]
      simp only [if_neg going, Pass.visit, decoded]
  | ok entry =>
      rw [decoded] at known
      have read_reached : Reached app ledger state report (scanned.record.lsn + 1) read :=
        ⟨reached.entries, reached.knows, reached.reported.with_regions _, reached.sharing⟩
      rcases read_reached.visit le decoded known with
        ⟨after, visited, here, regions⟩ | ⟨stop, after, visited, broken⟩
      rotate_left
      · right
        intro previous older
        rw [run]
        simp only [if_neg going]
        rw [visited]
        exact .inl broken
      let worked : Pass α σ :=
        { after with crew := after.crew.workAll app (schedule.during after.report.scanned) }
      have run_eq : ∀ previous older, pass.run app schedule previous (.ok scanned :: older) =
          if scanned.record.lsn = report.boundary then (.done, worked)
          else worked.run app schedule (some scanned.record.lsn) older := by
        intro previous older
        rw [run]
        simp only [if_neg going]
        rw [visited]
        simp only [here.reported.boundary]
        rfl
      rcases here.sharing.workAll_cases (schedule.during after.report.scanned) with
        sharing | failed
      · exact .inl ⟨worked, run_eq, ⟨here.entries, here.knows, here.reported, sharing⟩, regions⟩
      · right
        intro previous older
        rw [run_eq]
        split
        · exact .inl (.of_failed worked failed .done)
        · exact .inl (broken_run worked schedule failed _ _)

theorem Spoiled.mono {seen more : List Scanned} {result : Stop × Pass α σ}
    (spoiled : Spoiled app state seen result) (subset : ∀ scanned ∈ seen, scanned ∈ more) :
    Spoiled app state more result := by
  rcases spoiled with broken | ⟨scanned, member, undecoded⟩
  · exact .inl broken
  · exact .inr ⟨scanned, subset scanned member, undecoded⟩

/-- Looking at records above the boundary, each the predecessor of the one before it. -/
theorem Reached.run_front {front : List Scanned} {lowest : Nat}
    (reached : Reached app ledger state report (lowest + front.length) pass) (schedule : Schedule)
    (descends : Descends lowest front)
    (above : report.boundary < lowest) (le : lowest + front.length ≤ ledger.highest + 1)
    (known : ∀ scanned ∈ front,
      ledger.entry scanned.record.lsn = (Entry.decode app scanned.record.payload).toOption) :
    (∃ next, (∀ previous rest, pass.run app schedule previous (front.map .ok ++ rest) =
          next.run app schedule (if front = [] then previous else some lowest) rest) ∧
        Reached app ledger state report lowest next) ∨
      ∀ previous rest,
        Spoiled app state front (pass.run app schedule previous (front.map .ok ++ rest)) := by
  induction front generalizing pass with
  | nil => exact .inl ⟨pass, fun _ _ => rfl, reached⟩
  | cons newest older ih =>
      rcases descends_cons.mp descends with ⟨lsn_eq, descends⟩
      rw [List.forall_mem_cons] at known
      rw [List.length_cons, ← Nat.add_assoc, ← lsn_eq] at reached
      rw [List.length_cons] at le
      have differ : newest.record.lsn ≠ report.boundary := by omega
      rcases reached.run_cons schedule (by omega) (by omega) known.1 with
        ⟨next, run_eq, reached, _⟩ | spoiled
      rotate_left
      · right
        intro previous rest
        exact (spoiled previous _).mono (by simp)
      rw [lsn_eq] at reached
      rcases ih reached descends (by omega) known.2 with ⟨last, rest_eq, reached⟩ | spoiled
      · refine .inl ⟨last, fun previous rest => ?_, reached⟩
        rw [List.map_cons, List.cons_append, run_eq, if_neg differ, rest_eq,
          if_neg (List.cons_ne_nil _ _)]
        cases older with
        | nil => rw [if_pos rfl, lsn_eq]; rfl
        | cons _ _ => rw [if_neg (List.cons_ne_nil _ _)]
      · right
        intro previous rest
        rw [List.map_cons, List.cons_append, run_eq, if_neg differ]
        exact (spoiled _ _).mono fun _ => List.mem_cons_of_mem _

end Pass

section Conclude

variable {stop : Stop} {pass : Pass α σ}

/-- The uses of a result come from its crew, after a replay had failed. -/
theorem faulted_conclude (schedule : Schedule) (broken : Pass.Broken app state (stop, pass)) :
    ∃ fault, Use.carryOutAll app (conclude app schedule stop pass).uses.reverse state =
      .error fault := by
  cases stop with
  | panicked panic => exact broken
  | failed error =>
      have failed : pass.crew.Failed app state := broken
      exact (failed.abort schedule.after).1
  | done =>
      have failed : pass.crew.Failed app state := broken
      have joined := (failed.join schedule.after).1
      unfold conclude
      dsimp only
      split <;> exact joined

/-- A recovery whose pass was spoiled does not succeed. -/
theorem outcome_ne_ok_of_spoiled {seen : List Scanned} (schedule : Schedule)
    (spoiled : Pass.Spoiled app state seen (stop, pass)) (report : RecoveryReport) :
    (conclude app schedule stop pass).outcome ≠ .ok report := by
  rcases spoiled with broken | ⟨_, _, _, _, rfl⟩
  · cases stop with
    | panicked panic => exact nofun
    | failed error => exact nofun
    | done =>
        have failed : pass.crew.Failed app state := broken
        have noted := (failed.join schedule.after).2
        unfold conclude
        dsimp only
        split
        · exact nofun
        · exact absurd ‹_› noted
  · exact nofun

/-- When all entries are decoded, what spoils a pass is a failed replay. -/
theorem Pass.Spoiled.broken {seen : List Scanned}
    (spoiled : Pass.Spoiled app state seen (stop, pass))
    (decoded : ∀ scanned ∈ seen, ∃ entry, Entry.decode app scanned.record.payload = .ok entry) :
    Pass.Broken app state (stop, pass) := by
  rcases spoiled with broken | ⟨scanned, member, cause, undecoded, _⟩
  · exact broken
  · rcases decoded scanned member with ⟨entry, ok⟩
    rw [ok] at undecoded
    cases undecoded

end Conclude

end Logbook.Recovery

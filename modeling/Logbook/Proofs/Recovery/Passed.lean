import Logbook.Proofs.Recovery.Judged
import Logbook.Recovery

/-!
# What a pass does

A pass goes down from the newest record to the boundary and hands the crew each
action, to be replayed or disposed of as the log prescribes. How the crew works is
not for the pass to know: a property that survives the work of a crew holds at
the end of the pass, with all that was prescribed handed over.
-/

namespace Logbook.Recovery

variable {α σ : Type} {app : Application α σ} {ledger : Ledger α}

open Ledger

/-- A property of a crew that was handed some actions, which survives its work as
long as the actions are those that were prescribed. -/
structure Crew.Steady (app : Application α σ) (prescribed : List (Use α))
    (holds : List (Use α) → Crew α σ → Prop) : Prop where
  dispose : ∀ uses job crew, holds uses crew → uses ++ [.disposed job] <+: prescribed →
    holds (uses ++ [.disposed job]) (crew.dispose app job)
  dispatch : ∀ uses job crew, holds uses crew → uses ++ [.replayed job] <+: prescribed →
    ∃ after, crew.dispatch app job = (.ok true, after) ∧ holds (uses ++ [.replayed job]) after
  workAll : ∀ uses crew numbers, holds uses crew → holds uses (crew.workAll app numbers)

open Classical in
/-- How many of some records have a fate. -/
noncomputable def Ledger.count (app : Application α σ) (ledger : Ledger α) (fate : Fate)
    (lsns : List Nat) : Nat :=
  lsns.countP fun lsn => ledger.HasFate app lsn fate

/-- What looking at some records, the newest first, adds to a report. -/
structure Reported (app : Application α σ) (ledger : Ledger α) (lsns : List Nat)
    (before after : RecoveryReport) : Prop where
  highest : after.highest = before.highest
  boundary : after.boundary = before.boundary
  lowest : after.lowest = lsns.getLast?.or before.lowest
  scanned : after.scanned = before.scanned + lsns.length
  skipped : after.skipped = before.skipped + ledger.count app .superseded lsns
  voided : after.voided = before.voided + ledger.count app .voided lsns
  deleted : after.deleted = before.deleted + ledger.count app .deleted lsns
  nextTxn_le : before.nextTxn ≤ after.nextTxn
  txn_lt : ∀ lsn ∈ lsns, ∀ entry txn, ledger.entry lsn = some entry → entry.txn? = some txn →
    txn < after.nextTxn

theorem Ledger.count_nil (fate : Fate) : ledger.count app fate [] = 0 :=
  rfl

theorem Ledger.count_append (fate : Fate) (front back : List Nat) :
    ledger.count app fate (front ++ back) =
      ledger.count app fate front + ledger.count app fate back :=
  List.countP_append

theorem Ledger.count_singleton {lsn : Nat} {fate : Fate} (has : ledger.HasFate app lsn fate)
    (other : Fate) : ledger.count app other [lsn] = if fate = other then 1 else 0 := by
  have same : ledger.HasFate app lsn other ↔ fate = other :=
    ⟨has.unique, fun same => same ▸ has⟩
  simp [count, List.countP_singleton, same]

namespace Pass

theorem nextTxn_countFate (report : RecoveryReport) (fate : Fate) :
    (countFate report fate).nextTxn = report.nextTxn := by
  cases fate <;> rfl

/-- Counting a record does not give back a transaction number. -/
theorem nextTxn_le_count (report : RecoveryReport) (lsn : Nat) (txn : Option Nat) :
    report.nextTxn ≤ (count report lsn txn).nextTxn := by
  unfold RecoveryReport.nextTxn count
  dsimp only
  cases report.maxTxn with
  | none => cases txn <;> simp
  | some before =>
      cases txn with
      | none => exact Nat.le_refl _
      | some txn => exact Nat.succ_le_succ (Nat.le_max_left before txn)

/-- The transaction of a counted record is used up. -/
theorem lt_nextTxn_count (report : RecoveryReport) (lsn txn : Nat) :
    txn < (count report lsn (some txn)).nextTxn := by
  unfold RecoveryReport.nextTxn count
  dsimp only
  cases report.maxTxn with
  | none => simp
  | some before => exact Nat.lt_succ_of_le (Nat.le_max_right before txn)

end Pass

namespace Reported

theorem refl (report : RecoveryReport) : Reported app ledger [] report report :=
  ⟨rfl, rfl, rfl, rfl, rfl, rfl, rfl, Nat.le_refl _, nofun⟩

theorem trans {front back : List Nat} {before middle after : RecoveryReport}
    (first : Reported app ledger front before middle)
    (second : Reported app ledger back middle after) :
    Reported app ledger (front ++ back) before after where
  highest := second.highest.trans first.highest
  boundary := second.boundary.trans first.boundary
  lowest := by
    rw [second.lowest, first.lowest, List.getLast?_append, Option.or_assoc]
  scanned := by
    rw [second.scanned, first.scanned, List.length_append, Nat.add_assoc]
  skipped := by
    rw [second.skipped, first.skipped, count_append, Nat.add_assoc]
  voided := by
    rw [second.voided, first.voided, count_append, Nat.add_assoc]
  deleted := by
    rw [second.deleted, first.deleted, count_append, Nat.add_assoc]
  nextTxn_le := Nat.le_trans first.nextTxn_le second.nextTxn_le
  txn_lt lsn member entry txn found has_txn := by
    rcases List.mem_append.mp member with member | member
    · exact Nat.lt_of_lt_of_le (first.txn_lt lsn member entry txn found has_txn)
        second.nextTxn_le
    · exact second.txn_lt lsn member entry txn found has_txn

theorem of_fate {lsn : Nat} {fate : Fate} {entry : Entry α}
    (found : ledger.entry lsn = some entry) (has : ledger.HasFate app lsn fate)
    (report : RecoveryReport) :
    Reported app ledger [lsn] report
      (Pass.countFate (Pass.count report lsn entry.txn?) fate) where
  highest := by cases fate <;> rfl
  boundary := by cases fate <;> rfl
  lowest := by cases fate <;> rfl
  scanned := by cases fate <;> rfl
  skipped := by cases fate <;> simp [Pass.countFate, Pass.count, count_singleton has]
  voided := by cases fate <;> simp [Pass.countFate, Pass.count, count_singleton has]
  deleted := by cases fate <;> simp [Pass.countFate, Pass.count, count_singleton has]
  nextTxn_le := by
    rw [Pass.nextTxn_countFate]
    exact Pass.nextTxn_le_count report lsn entry.txn?
  txn_lt := by
    intro other member entry' txn found' has_txn
    cases List.mem_singleton.mp member
    cases found.symm.trans found'
    rw [Pass.nextTxn_countFate, has_txn]
    exact Pass.lt_nextTxn_count report lsn txn

/-- The number of regions read does not matter. -/
theorem of_regions {lsns : List Nat} {before after : RecoveryReport} (regions : Nat)
    (reported : Reported app ledger lsns { before with regions := regions } after) :
    Reported app ledger lsns before after :=
  ⟨reported.highest, reported.boundary, reported.lowest, reported.scanned, reported.skipped,
    reported.voided, reported.deleted, reported.nextTxn_le, reported.txn_lt⟩

theorem with_regions {lsns : List Nat} {before after : RecoveryReport}
    (reported : Reported app ledger lsns before after) (regions : Nat) :
    Reported app ledger lsns before { after with regions := regions } :=
  ⟨reported.highest, reported.boundary, reported.lowest, reported.scanned, reported.skipped,
    reported.voided, reported.deleted, reported.nextTxn_le, reported.txn_lt⟩

theorem with_replayed {lsns : List Nat} {before after : RecoveryReport}
    (reported : Reported app ledger lsns before after) (replayed : Nat) :
    Reported app ledger lsns before { after with replayed := replayed } :=
  ⟨reported.highest, reported.boundary, reported.lowest, reported.scanned, reported.skipped,
    reported.voided, reported.deleted, reported.nextTxn_le, reported.txn_lt⟩

end Reported

namespace Pass

variable {prescribed : List (Use α)} {holds : List (Use α) → Crew α σ → Prop}

/-- Carrying out the fate of an action. -/
theorem settle_spec (steady : Crew.Steady app prescribed holds) (pass : Pass α σ) {lsn : Nat}
    {fate : Fate} {entry : Entry α} {action : α} {uses : List (Use α)}
    (has : ledger.HasFate app lsn fate) (found : ledger.entry lsn = some entry)
    (has_action : entry.action? = some action) (held : holds uses pass.crew)
    (expected : uses ++ ledger.uses app [lsn] <+: prescribed) :
    ∃ crew, pass.settle app fate ⟨action, lsn⟩ = (none, { pass with crew := crew }) ∧
      holds (uses ++ ledger.uses app [lsn]) crew := by
  by_cases survives : fate = .survives
  · subst fate
    rw [uses_of_replayed has found has_action] at expected ⊢
    rcases steady.dispatch uses _ _ held expected with ⟨crew, dispatched, held⟩
    refine ⟨crew, ?_, held⟩
    simp only [settle, dispatched]
  · have gone : ¬ ledger.Replayed app lsn := fun replayed =>
      survives (has.unique (show ledger.HasFate app lsn .survives from replayed))
    rw [uses_of_not_replayed gone found has_action] at expected ⊢
    refine ⟨pass.crew.dispose app ⟨action, lsn⟩, ?_, steady.dispose uses _ _ held expected⟩
    cases fate with
    | survives => exact absurd rfl survives
    | superseded | commits | voided | deleted => rfl

/-- Looking at a record is judging it and carrying out its fate. -/
theorem visit_eq_settle {pass : Pass α σ} {record : Record} {entry : Entry α}
    (knows : pass.tables.Knows app ledger (record.lsn + 1)) (le : record.lsn ≤ ledger.highest)
    (decoded : Entry.decode app record.payload = .ok entry)
    (found : ledger.entry record.lsn = some entry) :
    ∃ fate report tables, ledger.HasFate app record.lsn fate ∧
      tables.Knows app ledger record.lsn ∧
      Reported app ledger [record.lsn] pass.report report ∧
      report.regions = pass.report.regions ∧
      pass.visit app record =
        match entry.action? with
        | some action => settle app ⟨report, tables, pass.crew⟩ fate ⟨action, record.lsn⟩
        | none => (none, ⟨report, tables, pass.crew⟩) := by
  have judged := Tables.judge_spec knows le found
  simp only [visit, decoded]
  generalize pass.tables.judge app record.lsn entry = verdict at judged
  rcases verdict with ⟨fate, tables⟩
  rcases judged with ⟨has, knows⟩
  refine ⟨fate, _, tables, has, knows, Reported.of_fate found has pass.report, ?_, ?_⟩
  · cases fate <;> rfl
  · cases entry.action? <;> rfl

/-- A record without an action has no use. -/
theorem uses_of_no_action {lsn : Nat} {entry : Entry α} (found : ledger.entry lsn = some entry)
    (no_action : entry.action? = none) : ledger.uses app [lsn] = [] := by
  simp [Ledger.uses, use?, found, no_action]

/-- Looking at one record. -/
theorem visit_spec (steady : Crew.Steady app prescribed holds) {pass : Pass α σ}
    {record : Record} {entry : Entry α} {uses : List (Use α)}
    (knows : pass.tables.Knows app ledger (record.lsn + 1)) (le : record.lsn ≤ ledger.highest)
    (decoded : Entry.decode app record.payload = .ok entry)
    (found : ledger.entry record.lsn = some entry) (held : holds uses pass.crew)
    (expected : uses ++ ledger.uses app [record.lsn] <+: prescribed) :
    ∃ after, pass.visit app record = (none, after) ∧
      after.tables.Knows app ledger record.lsn ∧
      Reported app ledger [record.lsn] pass.report after.report ∧
      holds (uses ++ ledger.uses app [record.lsn]) after.crew := by
  obtain ⟨fate, report, tables, has, knows, reported, _, visited⟩ :=
    visit_eq_settle knows le decoded found
  rw [visited]
  cases has_action : entry.action? with
  | none =>
      rw [uses_of_no_action found has_action, List.append_nil]
      exact ⟨_, rfl, knows, reported, held⟩
  | some action =>
      obtain ⟨crew, settled, held⟩ := settle_spec steady ⟨report, tables, pass.crew⟩ has found
        has_action held expected
      exact ⟨_, settled, knows, reported, held⟩

/-- Looking at one record of a scan, and what the pass does then. -/
theorem run_cons_spec (steady : Crew.Steady app prescribed holds) (schedule : Schedule)
    {pass : Pass α σ} {scanned : Scanned} {entry : Entry α} {uses : List (Use α)}
    (knows : pass.tables.Knows app ledger (scanned.record.lsn + 1))
    (boundary_le : pass.report.boundary ≤ scanned.record.lsn)
    (le : scanned.record.lsn ≤ ledger.highest)
    (decoded : Entry.decode app scanned.record.payload = .ok entry)
    (found : ledger.entry scanned.record.lsn = some entry) (held : holds uses pass.crew)
    (expected : uses ++ ledger.uses app [scanned.record.lsn] <+: prescribed) :
    ∃ next, (∀ previous older, pass.run app schedule previous (.ok scanned :: older) =
        if scanned.record.lsn = pass.report.boundary then (.done, next)
        else next.run app schedule (some scanned.record.lsn) older) ∧
      next.tables.Knows app ledger scanned.record.lsn ∧
      Reported app ledger [scanned.record.lsn] pass.report next.report ∧
      holds (uses ++ ledger.uses app [scanned.record.lsn]) next.crew := by
  have knows_read : Tables.Knows app ledger (scanned.record.lsn + 1)
      (Pass.tables { pass with report := { pass.report with regions := scanned.regions } }) :=
    knows
  obtain ⟨after, visited, knows, reported, held⟩ :=
    visit_spec steady knows_read le decoded found held expected
  refine ⟨{ after with crew := after.crew.workAll app (schedule.during after.report.scanned) },
    fun previous older => ?_, knows, .of_regions _ reported, steady.workAll _ _ _ held⟩
  have same : after.report.boundary = pass.report.boundary := reported.boundary
  rw [run]
  simp only [if_neg (Nat.not_lt.mpr boundary_le), visited, same]

/-- Looking at the records down to the boundary. -/
theorem run_spec (steady : Crew.Steady app prescribed holds) (schedule : Schedule)
    (pass : Pass α σ) {front : List Scanned} (below : List Scanned) {count : Nat}
    {uses : List (Use α)} (previous : Option Nat)
    (lsns : front.map (·.record.lsn) = (List.range' pass.report.boundary (count + 1)).reverse)
    (decoded : ∀ scanned ∈ front, ∃ entry,
      Entry.decode app scanned.record.payload = .ok entry ∧
        ledger.entry scanned.record.lsn = some entry)
    (knows : pass.tables.Knows app ledger (pass.report.boundary + count + 1))
    (le : pass.report.boundary + count ≤ ledger.highest) (held : holds uses pass.crew)
    (expected : uses ++ ledger.uses app (front.map (·.record.lsn)) = prescribed) :
    ∃ after, pass.run app schedule previous ((front ++ below).map .ok) = (.done, after) ∧
      Reported app ledger (front.map (·.record.lsn)) pass.report after.report ∧
      holds prescribed after.crew := by
  induction count generalizing pass front uses previous with
  | zero =>
      rcases List.map_eq_cons_iff.mp lsns with ⟨newest, _, rfl, lsn_eq, older⟩
      cases List.map_eq_nil_iff.mp older
      rcases decoded newest List.mem_cons_self with ⟨entry, decoded, found⟩
      rw [← lsn_eq] at knows le
      have prescribes : uses ++ ledger.uses app [newest.record.lsn] = prescribed := expected
      obtain ⟨next, run_eq, _, reported, held⟩ := run_cons_spec steady schedule knows
        (Nat.le_of_eq lsn_eq.symm) le decoded found held (prescribes ▸ List.prefix_refl _)
      refine ⟨next, ?_, reported, prescribes ▸ held⟩
      rw [List.cons_append, List.map_cons, run_eq, if_pos lsn_eq]
  | succ count ih =>
      rw [List.range'_1_concat, List.reverse_append, List.reverse_singleton,
        List.singleton_append] at lsns
      rcases List.map_eq_cons_iff.mp lsns with ⟨newest, older, rfl, lsn_eq, lsns⟩
      rcases decoded newest List.mem_cons_self with ⟨entry, decoded_newest, found⟩
      have prescribes : uses ++ ledger.uses app [newest.record.lsn]
          ++ ledger.uses app (older.map (·.record.lsn)) = prescribed := by
        rw [← expected, List.append_assoc, ← uses_append]
        rfl
      rw [← lsn_eq] at knows le
      obtain ⟨next, run_eq, knows, reported, held⟩ := run_cons_spec steady schedule knows
        (by omega) le decoded_newest found held (prescribes ▸ List.prefix_append _ _)
      rw [← reported.boundary] at lsns
      obtain ⟨after, rest_eq, rest_reported, held⟩ := ih next (some newest.record.lsn) lsns
        (fun scanned member => decoded scanned (List.mem_cons_of_mem _ member))
        (by rw [reported.boundary, Nat.add_assoc, ← lsn_eq]; exact knows)
        (by rw [reported.boundary]; omega) held prescribes
      refine ⟨after, ?_, reported.trans rest_reported, held⟩
      rw [List.cons_append, List.map_cons, run_eq, if_neg (by omega), rest_eq]

end Pass

end Logbook.Recovery

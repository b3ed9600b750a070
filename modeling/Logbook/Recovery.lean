import Logbook.Recovery.Crew
import Logbook.Recovery.Fate
import Logbook.Recovery.Scan

/-!
# Recovery

Recovery rebuilds the state of an application from its log. It reads the log
from the newest record down to the lowest live number, decides the fate of each
record, and replays the survivors. It fails on a region that cannot be read, on
a gap between records, on an entry that cannot be decoded and on the first
action that is not replayed; a failed replay counts before whatever else stopped
the scan.
-/

namespace Logbook

/-- What a successful recovery found. -/
structure RecoveryReport where
  /-- The newest record. -/
  highest : Option Nat
  /-- The oldest record that was scanned. -/
  lowest : Option Nat
  /-- The number the scan was to stop at. -/
  boundary : Nat
  /-- Regions that were read. -/
  regions : Nat
  /-- Records that were looked at. -/
  scanned : Nat
  replayed : Nat
  /-- Records that a newer one superseded. -/
  skipped : Nat
  /-- Members of transactions that were not committed. -/
  voided : Nat
  /-- Actions whose scope a newer action deleted. -/
  deleted : Nat
  /-- The highest transaction of a scanned record. -/
  maxTxn : Option Nat
deriving DecidableEq, Repr

namespace RecoveryReport

/-- The report on a log before any record was looked at. -/
def initial (highest : Option Nat) (boundary : Nat) : RecoveryReport where
  highest := highest
  lowest := none
  boundary := boundary
  regions := 0
  scanned := 0
  replayed := 0
  skipped := 0
  voided := 0
  deleted := 0
  maxTxn := none

/-- The number that the next record of the log gets; it is a word unless the newest
record has the last one. -/
def nextLsn (report : RecoveryReport) : Nat :=
  match report.highest with
  | some highest => highest + 1
  | none => Lsn.first

/-- The number that the next transaction of the log gets; it is a word unless a record
names the last one. -/
def nextTxn (report : RecoveryReport) : Nat :=
  match report.maxTxn with
  | some txn => txn + 1
  | none => 1

end RecoveryReport

namespace Recovery

variable {α σ : Type} (app : Application α σ)

/-- A recovery pass in progress. -/
structure Pass (α σ : Type) where
  report : RecoveryReport
  tables : Tables
  crew : Crew α σ

/-- Why a pass ended. -/
inductive Stop where
  /-- The boundary was reached, or the crew takes no more actions. -/
  | done
  | failed (error : LogError)
  | panicked (panic : Panic)
deriving DecidableEq, Repr

namespace Pass

/-- Count a record and the transaction it names. -/
def count (report : RecoveryReport) (lsn : Nat) (txn : Option Nat) : RecoveryReport :=
  { report with
    lowest := some lsn
    scanned := report.scanned + 1
    maxTxn := max report.maxTxn txn }

/-- Count the fate of a record. -/
def countFate (report : RecoveryReport) : Fate → RecoveryReport
  | .superseded => { report with skipped := report.skipped + 1 }
  | .voided => { report with voided := report.voided + 1 }
  | .deleted => { report with deleted := report.deleted + 1 }
  | .commits | .survives => report

/-- Carry out the fate of an action. -/
def settle (pass : Pass α σ) (fate : Fate) (job : Job α) : Option Stop × Pass α σ :=
  match fate with
  | .survives =>
      match pass.crew.dispatch app job with
      | (.ok true, crew) => (none, { pass with crew := crew })
      | (.ok false, crew) => (some .done, { pass with crew := crew })
      | (.error panic, crew) => (some (.panicked panic), { pass with crew := crew })
  | _ => (none, { pass with crew := pass.crew.dispose app job })

/-- Look at one record. The result is why the pass has to end, if it has to. -/
def visit (pass : Pass α σ) (record : Record) : Option Stop × Pass α σ :=
  match Entry.decode app record.payload with
  | .error cause =>
      (some (.failed (.recovery (.decode record.lsn cause))),
        { pass with report := count pass.report record.lsn none })
  | .ok entry =>
      let (fate, tables) := pass.tables.judge app record.lsn entry
      let report := countFate (count pass.report record.lsn entry.txn?) fate
      let pass := { pass with report := report, tables := tables }
      match entry.action? with
      | some action => pass.settle app fate ⟨action, record.lsn⟩
      | none => (none, pass)

/-- Look at the records of a scan down to the boundary. The record looked at last
has the number `previous`; where the scan runs out after it, the one below it is
missing. -/
def run (schedule : Schedule) (pass : Pass α σ) (previous : Option Nat) :
    List (Except LogError Scanned) → Stop × Pass α σ
  | [] =>
      match previous with
      | some lsn => (.failed (.recovery (.gap (lsn - 1) Lsn.none)), pass)
      | none => (.done, pass)
  | .error error :: _ => (.failed error, pass)
  | .ok scanned :: rest =>
      let lsn := scanned.record.lsn
      let pass := { pass with report := { pass.report with regions := scanned.regions } }
      if lsn < pass.report.boundary then (.done, pass)
      else
        match pass.visit app scanned.record with
        | (some stop, pass) => (stop, pass)
        | (none, pass) =>
            let pass :=
              { pass with crew := pass.crew.workAll app (schedule.during pass.report.scanned) }
            if lsn = pass.report.boundary then (.done, pass)
            else run schedule pass (some lsn) rest

end Pass

/-- What a recovery leaves: how it ended, the state of the application, and how
actions were consumed, the latest first. -/
structure Result (α σ : Type) where
  outcome : Outcome RecoveryReport
  state : σ
  uses : List (Use α)

/-- End a pass: wait for the crew, and let its first failure count. -/
def conclude (schedule : Schedule) (stop : Stop) (pass : Pass α σ) : Result α σ :=
  match stop with
  | .panicked panic => ⟨.panicked panic, pass.crew.state, pass.crew.uses⟩
  | .failed error =>
      let crew := pass.crew.abort app schedule.after
      ⟨.failed ((crew.firstError.map .recovery).getD error), crew.state, crew.uses⟩
  | .done =>
      let crew := pass.crew.join app schedule.after
      match crew.firstError with
      | some error => ⟨.failed (.recovery error), crew.state, crew.uses⟩
      | none => ⟨.ok { pass.report with replayed := crew.replayed }, crew.state, crew.uses⟩

/-- Recover from regions that come newest first, under a schedule. -/
def recoverWith (schedule : Schedule) (config : Config) (options : RecoveryOptions)
    (regions : List (Except StorageError Chunk)) (state : σ) : Result α σ :=
  match scan config.formatPolicy regions with
  | [] => ⟨.ok (.initial none (options.lowestLive.getD Lsn.first)), state, []⟩
  | .error error :: _ => ⟨.failed error, state, []⟩
  | .ok newest :: older =>
      let boundary := max (options.lowestLive.getD newest.record.lowest) Lsn.first
      let pass : Pass α σ :=
        ⟨.initial (some newest.record.lsn) boundary, .empty,
          .assemble config.replayWorkers state⟩
      let (stop, pass) := pass.run app schedule none (.ok newest :: older)
      conclude app schedule stop pass

/-- Recover from a device, with workers that keep up with the scan. -/
def recover {δ : Type} [Device δ] (config : Config) (options : RecoveryOptions) (device : δ)
    (state : σ) : Result α σ :=
  recoverWith app (.prompt config.replayWorkers) config options (Device.newestFirst device) state

end Recovery

end Logbook

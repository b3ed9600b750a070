import Logbook.Engine
import Logbook.Error.Detail
import Logbook.KeyValue.Codec
import Logbook.Storage.Volume

/-!
# A key-value store on a log

The store is kept by logging every mutation and rebuilt by recovery. A log can be
closed and opened again on its volume, and a log on a disk in memory can be
opened on what a crash would have left of it.
-/

namespace Logbook.KeyValue

/-- A store, the engine it is logged through, and what recovery reported when
the engine was opened. -/
structure Log where
  engine : Engine Store Volume
  report : RecoveryReport

namespace Log

/-- The store. -/
def store (log : Log) : Store := log.engine.state

/-- The volume of the log. -/
def volume (log : Log) : Volume := log.engine.device

/-- Recover a store from a volume, with workers under a schedule. -/
def openUnder (schedule : Recovery.Schedule) (config : Config) (options : RecoveryOptions)
    (volume : Volume) : Outcome Log :=
  match Engine.openUnder schedule app config options volume .empty with
  | .ok (report, engine) => .ok ⟨engine, report⟩
  | .failed error => .failed error
  | .panicked panic => .panicked panic

/-- Recover a store from a volume, with workers that keep up with the scan. -/
def openOn (config : Config) (options : RecoveryOptions) (volume : Volume) : Outcome Log :=
  openUnder (.prompt config.replayWorkers) config options volume

/-- A store on a new disk in memory. -/
def newMemory (config : Config) : Outcome Log :=
  (openOn config {} .newMemory).expect "Failed to open memory log"

/-- Recover a store from a new log file. -/
def openFile (config : Config) : Outcome Log :=
  match Volume.newFile with
  | .error error => .failed (.storage error)
  | .ok volume => openOn config {} volume

/-- A store on a new log file. -/
def newFile (config : Config) : Outcome Log := (openFile config).expect "open"

/-- A store on a new log file with the settings of tests. -/
def newScratch : Outcome Log := (openFile .small).expect "Failed to open file log"

/-- Log an action and wait for it. -/
def append (log : Log) (action : Action) (sync : Bool) : Outcome Receipt × Log :=
  let (outcome, engine) := log.engine.append app action sync
  let log := { log with engine := engine.settle }
  match outcome with
  | .ok lsn => (.ok (log.engine.receipt lsn), log)
  | .failed error => (.failed error, log)
  | .panicked panic => (.panicked panic, log)

/-- What a mutation is called when it could not be logged. -/
def complaint : Operation → String
  | .put .. => "Failed to append put"
  | .delete _ => "Failed to append delete"
  | .deleteScope _ => "Failed to append scope delete"

/-- Log a mutation that supersedes what the store says, and wait for it. A store
that cannot log is of no use to its caller. -/
def apply (log : Log) (operation : Operation) (sync : Bool) : Outcome Receipt × Log :=
  let (outcome, log) := log.append (log.store.build operation) sync
  (outcome.expect (complaint operation), log)

/-- Close the log and recover it from the same volume, under a schedule. -/
def reopenUnder (schedule : Recovery.Schedule) (log : Log) (options : RecoveryOptions) :
    Outcome Log :=
  let (ended, engine) := log.engine.shutdown
  match ended with
  | some (.error error) => (Outcome.failed error).expect "Failed to shut down engine"
  | _ =>
      match engine.device.reopen with
      | .error error => (Outcome.failed (.storage error)).expect "Failed to reopen log"
      | .ok volume =>
          (openUnder schedule engine.config options volume).expect "Failed to reopen log"

/-- Close the log and recover it from the same volume. -/
def reopen (log : Log) (options : RecoveryOptions) : Outcome Log :=
  log.reopenUnder (.prompt log.engine.config.replayWorkers) options

/-- Recover a second log from what a crash would leave of the disk, under a
schedule. -/
def crashUnder (schedule : Recovery.Schedule) (log : Log) (point : CrashPoint) : Outcome Log :=
  match log.volume.disk? with
  | none => .panicked ⟨"crash images need a memory log"⟩
  | some disk =>
      openUnder schedule log.engine.config {} (.memory (.onDisk (disk.crashImage point)))

/-- Recover a second log from what a crash would leave of the disk. -/
def crash (log : Log) (point : CrashPoint) : Outcome Log :=
  log.crashUnder (.prompt log.engine.config.replayWorkers) point

/-- The second log of a crash, from a caller who relies on it. -/
def crashBeside (log : Log) (point : CrashPoint) : Outcome Log :=
  (log.crash point).expect "Failed to open memory log"

/-! ### What a recovered log has to satisfy -/

/-- A check that two counts agree. -/
def expectEqual (left right : Nat) (reason : String) : Except Panic Unit :=
  if left = right then .ok ()
  else .error ⟨s!"assertion `left == right` failed{reason}\n  left: {left}\n right: {right}"⟩

/-- No record was replayed twice, and as many were replayed as reported. -/
def checkReplayedOnce (log : Log) : Except Panic Unit := do
  let replayed := log.store.replayed
  expectEqual replayed.eraseDups.length replayed.length ": an LSN was replayed twice"
  expectEqual replayed.length log.report.replayed ""

/-- None of some records was replayed. -/
def checkNotReplayed (log : Log) (lsns : List Nat) : Except Panic Unit :=
  match lsns.find? (· ∈ log.store.replayed) with
  | some lsn => .error ⟨s!"{Lsn.text lsn} was replayed"⟩
  | none => .ok ()

/-- Those of some records that were replayed were replayed newest first. -/
def checkNewestFirst (log : Log) (lsns : List Nat) : Except Panic Unit :=
  let order := log.store.replayed.filter (· ∈ lsns)
  if order.Pairwise (· > ·) then .ok ()
  else
    let names := ", ".intercalate (order.map fun lsn => s!"Lsn({lsn})")
    .error ⟨s!"replay order [{names}] is not newest first"⟩

end Log

end Logbook.KeyValue

import Logbook.KeyValue.Log

/-!
# Rounds of a key-value store

The life of a store goes in rounds. In a round mutations are logged one at a time,
and the writer takes its steps whenever it likes; then the log is closed and opened
again, or it is opened on what a crash has left of the disk. A chronicle keeps track
of the mutations that are in the log: those of a number that recovery did not find
are lost, and their numbers are given out again.
-/

namespace Logbook.KeyValue

/-- A mutation and the number it was logged under. -/
structure Stamped where
  lsn : Nat
  operation : Operation
deriving DecidableEq, Repr

/-- The store after some mutations, one after the other. -/
def Store.applyAll (store : Store) (history : List Stamped) : Store :=
  history.foldl (fun store stamped => store.apply stamped.operation stamped.lsn) store

/-- Two stores have the same tables. -/
structure Store.Agrees (store other : Store) : Prop where
  entries : store.entries.toList = other.entries.toList
  lastWrite : store.lastWrite.toList = other.lastWrite.toList
  scopeDeletes : store.scopeDeletes.toList = other.scopeDeletes.toList

/-- What happens to a log between two openings. -/
inductive Step where
  /-- A mutation is logged. -/
  | apply (operation : Operation) (sync : Bool)
  /-- The current window is closed. -/
  | closeBarrier
  /-- The writer collects a window. -/
  | collect
  /-- The writer writes a window. -/
  | write
  /-- The writer ends, if it is to. -/
  | finish
deriving DecidableEq, Repr

/-- How a round ends. -/
inductive Ending where
  /-- The log is closed and opened again. -/
  | reopened
  | crashed (point : CrashPoint)
deriving DecidableEq, Repr

/-- What happens to a log in a round, and when the workers of the recovery at its end
take their jobs. -/
structure Round where
  steps : List Step
  ending : Ending
  schedule : Recovery.Schedule

/-- The mutation that a step logs. -/
def Step.operation? : Step → Option Operation
  | .apply operation _ => some operation
  | .closeBarrier | .collect | .write | .finish => none

/-- The mutations that a round logs. -/
def Round.operations (round : Round) : List Operation := round.steps.filterMap Step.operation?

/-- A log, and the mutations in it in the order they were logged. -/
structure Chronicle where
  log : Log
  history : List Stamped

namespace Chronicle

/-- Change the engine. -/
def onEngine (chronicle : Chronicle)
    (work : Engine Store Volume → Engine Store Volume) : Chronicle :=
  { chronicle with log := { chronicle.log with engine := work chronicle.log.engine } }

/-- The chronicle after a step. A mutation supersedes what the store says; if it
cannot be logged, its caller gives up. -/
def step (chronicle : Chronicle) : Step → Outcome Chronicle
  | .apply operation sync =>
      match chronicle.log.engine.append app (chronicle.log.store.build operation) sync with
      | (.ok lsn, engine) =>
          .ok ⟨{ chronicle.log with engine := engine },
            chronicle.history ++ [⟨lsn, operation⟩]⟩
      | (.failed error, _) =>
          (Outcome.failed error).expect (Log.complaint operation)
      | (.panicked panic, _) => .panicked panic
  | .closeBarrier => .ok (chronicle.onEngine fun engine => engine.closeBarrier.2)
  | .collect => .ok (chronicle.onEngine Engine.collect)
  | .write => .ok (chronicle.onEngine Engine.write)
  | .finish => .ok (chronicle.onEngine Engine.finish)

/-- The chronicle after some steps. -/
def stepAll (chronicle : Chronicle) : List Step → Outcome Chronicle
  | [] => .ok chronicle
  | first :: rest =>
      match chronicle.step first with
      | .ok chronicle => chronicle.stepAll rest
      | .failed error => .failed error
      | .panicked panic => .panicked panic

/-- The log that is opened at the end of a round. -/
def opened (chronicle : Chronicle) (ending : Ending) (schedule : Recovery.Schedule) :
    Outcome Log :=
  match ending with
  | .reopened => chronicle.log.reopenUnder schedule {}
  | .crashed point => chronicle.log.crashUnder schedule point

/-- The mutations up to the newest record that recovery found. -/
def surviving (history : List Stamped) (report : RecoveryReport) : List Stamped :=
  history.filter fun stamped => report.highest.any (stamped.lsn ≤ ·)

/-- The chronicle after a round. -/
def play (chronicle : Chronicle) (round : Round) : Outcome Chronicle :=
  match chronicle.stepAll round.steps with
  | .ok chronicle =>
      match chronicle.opened round.ending round.schedule with
      | .ok log => .ok ⟨log, surviving chronicle.history log.report⟩
      | .failed error => .failed error
      | .panicked panic => .panicked panic
  | .failed error => .failed error
  | .panicked panic => .panicked panic

/-- The chronicle after some rounds. -/
def playAll (chronicle : Chronicle) : List Round → Outcome Chronicle
  | [] => .ok chronicle
  | first :: rest =>
      match chronicle.play first with
      | .ok chronicle => chronicle.playAll rest
      | .failed error => .failed error
      | .panicked panic => .panicked panic

/-- The chronicle of a new disk in memory. -/
def begin (config : Config) : Outcome Chronicle :=
  match Log.newMemory config with
  | .ok log => .ok ⟨log, []⟩
  | .failed error => .failed error
  | .panicked panic => .panicked panic

end Chronicle

end Logbook.KeyValue

import Logbook.KeyValue.Log

/-!
# A workload of puts

Several producers put values under keys of their own, a scope for each producer,
and wait for every put that asks for a sync. Keys repeat after a while, so most
puts supersede an earlier one.
-/

namespace Logbook.KeyValue

/-- The shape of a workload. -/
structure Workload where
  /-- Puts of each producer. -/
  operations : Nat
  producers : Nat
  /-- Bytes of each value. -/
  valueSize : Nat
  /-- Keys of each producer; none counts as one. -/
  keys : Nat
  /-- Every put whose number this divides asks for a sync; zero divides none. -/
  syncEvery : Nat
deriving DecidableEq, Repr

namespace Workload

/-- Whether a put asks for a sync. -/
def syncs (workload : Workload) (number : Nat) : Bool :=
  0 < workload.syncEvery && number % workload.syncEvery = 0

/-- A put of a producer. -/
def put (workload : Workload) (producer number : Nat) : Operation :=
  .put ⟨UInt64.ofNat producer, s!"k{number % max workload.keys 1}"⟩
    (List.replicate workload.valueSize (UInt8.ofNat (number % 251)))

/-- What came of a workload. -/
structure Tally where
  succeeded : Nat
  failed : Nat
  /-- The highest number of a put that was waited for, or zero. -/
  highestDurable : Nat
deriving DecidableEq, Repr

/-- How a logged put ends for its producer, who waits for it if it asked for a
sync. -/
def await (log : Log) (sync : Bool) : Outcome Nat → Option Nat × Log
  | .ok lsn =>
      if sync then
        let log := { log with engine := log.engine.settle }
        match log.engine.waitFor lsn with
        | some (.ok ()) => (some lsn, log)
        | _ => (none, log)
      else (some lsn, log)
  | _ => (none, log)

/-- One put of a producer. -/
def step (workload : Workload) (producer : Nat) (progress : Tally × Log) (number : Nat) :
    Tally × Log :=
  let (tally, log) := progress
  let sync := workload.syncs number
  let action := log.store.build (workload.put producer number)
  let (outcome, engine) := log.engine.append app action sync
  match await { log with engine := engine } sync outcome with
  | (some lsn, log) =>
      ({ tally with
          succeeded := tally.succeeded + 1
          highestDurable := if sync then max tally.highestDurable lsn else tally.highestDurable },
        log)
  | (none, log) => ({ tally with failed := tally.failed + 1 }, log)

/-- Run a workload, one producer after the other. -/
def run (workload : Workload) (log : Log) : Tally × Log :=
  (List.range workload.producers).foldl
    (fun progress producer =>
      (List.range workload.operations).foldl (workload.step producer) progress)
    (⟨0, 0, Lsn.none⟩, log)

end Workload

end Logbook.KeyValue

import Logbook.Chain
import Logbook.Recovery
import Logbook.Sequencer
import Logbook.Watermark

/-!
# The log engine

An engine ties the parts of a log together: producers append entries, which get
consecutive numbers and go to the chain of windows; a writer takes the windows in
order, packs each into a region and hands it to the device; the watermark tells
how far the device has come.

Producers and the writer take turns in steps. `Engine.log` and the other
operations of producers are one step each. The writer has three: it collects a
window, it writes what it collected, and it finishes once it has been told to
stop and nothing is left. `Engine.settle` lets the writer run until it has
nothing to do, which is what a caller sees who waits.
-/

namespace Logbook

/-- A window that the writer has collected. -/
structure Batch where
  /-- The place of the window in the chain. -/
  place : Nat
  /-- The last number of the window. -/
  last : Nat
  /-- The region to write, if the window has records. -/
  region : Option Bytes
  /-- Whether the device is to be synced after the write. -/
  sync : Bool
deriving DecidableEq, Repr

/-- The writer of a log. -/
structure Writer where
  /-- The place of the window to collect next. -/
  cursor : Nat
  /-- Windows that are collected and not written, oldest first. -/
  queue : List Batch
  /-- Whether it will collect another window. -/
  collecting : Bool
  stopRequested : Bool
  /-- How the writer ended, once it has. -/
  verdict : Option WriteOutcome
deriving Repr

namespace Writer

/-- A writer that starts at the first window. -/
def start : Writer := ⟨0, [], true, false, none⟩

/-- The most windows that may be collected and not written. Without a packing
stage the writer packs and writes in turn. A stage holds one window itself and
the writer another, besides those that wait between them. -/
def room (config : Config) : Nat :=
  if config.packingDepth = 0 then 1 else config.packingDepth + 2

/-- Whether the next step of the writer may be to collect a window. -/
def CanCollect (writer : Writer) (config : Config) : Prop :=
  writer.collecting ∧ writer.verdict = none ∧ writer.queue.length < room config

instance (writer : Writer) (config : Config) : Decidable (writer.CanCollect config) := by
  unfold CanCollect
  infer_instance

end Writer

/-- What an engine is doing. -/
inductive EngineState where
  | running
  /-- The writer has failed, and every operation fails. -/
  | failed
  | shutDown
deriving DecidableEq, Repr

/-- The name of a state. -/
def EngineState.name : EngineState → String
  | .running => "Running"
  | .failed => "Failed"
  | .shutDown => "ShutDown"

/-- What a caller learns of a record: its number, how a wait for it ends, which is
`none` if it would go on for ever, and whether it is on the device. -/
structure Receipt where
  lsn : Nat
  wait : Option (Except LogError Unit)
  durable : Bool

/-- A log with an application of state `σ` on a device `δ`. -/
structure Engine (σ δ : Type) where
  config : Config
  chain : Chain
  sequencer : Sequencer
  watermark : Watermark
  /-- The lowest live number, stamped into every record. -/
  lowestLive : Nat
  nextTxn : Nat
  isOpen : Bool
  writer : Writer
  device : δ
  /-- The state of the application. -/
  state : σ

namespace Engine

variable {α σ δ : Type}

/-- An engine that goes on after a recovery. -/
def resume (config : Config) (report : RecoveryReport) (device : δ) (state : σ) :
    Engine σ δ where
  config := config
  chain := .create report.nextLsn config.windowCapacity config.slotPoolSize
  sequencer := ⟨report.nextLsn⟩
  watermark := .startingAt (report.nextLsn - 1)
  lowestLive := report.boundary
  nextTxn := report.nextTxn
  isOpen := true
  writer := .start
  device := device
  state := state

/-- The highest number handed out so far. -/
def current (engine : Engine σ δ) : Nat := engine.sequencer.current

/-- The highest number on the device. -/
def durable (engine : Engine σ δ) : Nat := engine.watermark.durable

/-- What the engine is doing. -/
def condition (engine : Engine σ δ) : EngineState :=
  if engine.chain.failure.isSome then .failed
  else if engine.isOpen then .running
  else .shutDown

/-- What keeps a producer from being served. -/
def refusal (engine : Engine σ δ) : Option LogError :=
  if engine.isOpen then engine.chain.failure.map .durability else some .shutDown

/-! ### Producers -/

/-- Turn an entry away and dispose of its action. -/
def refuse (app : Application α σ) (engine : Engine σ δ) (entry : Entry α)
    (error : LogError) : Outcome Nat × Engine σ δ :=
  (.failed error, { engine with state := entry.dispose app engine.state })

/-- Log an entry. It gets the next number and goes to the chain, and then its
action is recorded under that number; an action that panics leaves its record in
the log. An entry that is refused has its action disposed of. -/
def log (app : Application α σ) (engine : Engine σ δ) (entry : Entry α) (sync : Bool) :
    Outcome Nat × Engine σ δ :=
  match engine.refusal with
  | some error => engine.refuse app entry error
  | none =>
      match entry.encode app with
      | .error error => engine.refuse app entry (.codec error)
      | .ok payload =>
          let (lsn, sequencer) := engine.sequencer.allocate
          let (placed, chain) := engine.chain.append ⟨lsn, engine.lowestLive, payload⟩ sync
          let engine := { engine with sequencer := sequencer, chain := chain }
          match placed with
          | .error error => engine.refuse app entry error
          | .ok _ =>
              match entry.action? with
              | none => (.ok lsn, engine)
              | some action =>
                  match app.record action lsn engine.state with
                  | .ok state => (.ok lsn, { engine with state := state })
                  | .error panic => (.panicked panic, engine)

/-- Append an action on its own. -/
def append (app : Application α σ) (engine : Engine σ δ) (action : α) (sync : Bool) :
    Outcome Nat × Engine σ δ :=
  engine.log app (.plain action) sync

/-- Raise the lowest live number; it never falls. -/
def setLowestLive (engine : Engine σ δ) (lsn : Nat) : Engine σ δ :=
  { engine with lowestLive := max engine.lowestLive lsn }

/-- Close the window of the newest record at it. The result is that record. -/
def closeBarrier (engine : Engine σ δ) : Except LogError Nat × Engine σ δ :=
  match engine.refusal with
  | some error => (.error error, engine)
  | none =>
      let high := engine.current
      let (closed, chain) := engine.chain.closeThrough high
      (closed.map fun _ => high, { engine with chain := chain })

/-- Turn producers away and tell the writer to stop when nothing is left. -/
def requestStop (engine : Engine σ δ) : Engine σ δ :=
  { engine with
    isOpen := false
    writer := { engine.writer with stopRequested := true } }

/-! ### The writer -/

/-- The writer has failed. -/
def fail (engine : Engine σ δ) (lsn : Nat) (error : String) : Engine σ δ :=
  { engine with
    chain := engine.chain.fail ⟨lsn, error⟩
    watermark := engine.watermark.fail ⟨lsn, error⟩ }

/-- The writer will collect no more windows. -/
def stopCollecting (engine : Engine σ δ) : Engine σ δ :=
  { engine with writer := { engine.writer with collecting := false } }

/-- Where the writer closes a window: at the newest record, as far as the window
reaches. -/
def highWater (engine : Engine σ δ) (window : Window) : Nat :=
  max (min engine.current window.naturalEnd) (window.base - 1)

/-- The region of a window with these records. -/
def batchOf (engine : Engine σ δ) (window : Window) (records : List Record) : Batch where
  place := engine.writer.cursor
  last := window.fixedEnd.getD window.naturalEnd
  region := if records = [] then none
    else some (Region.pack .current engine.config.checksum records)
  sync := window.isSyncRequested || engine.config.syncPolicy = .always

/-- Queue the window at the cursor and move on to its successor. -/
def enqueue (engine : Engine σ δ) (batch : Batch) : Engine σ δ :=
  let (cursor, chain) := engine.chain.next engine.writer.cursor
  { engine with
    chain := chain
    writer :=
      { engine.writer with cursor := cursor, queue := engine.writer.queue ++ [batch] } }

/-- Take the records of the window at the cursor, which is closed; while one is
missing the writer waits. -/
def collectClosed (engine : Engine σ δ) : Engine σ δ :=
  match engine.chain.window? engine.writer.cursor with
  | none => engine
  | some window =>
      match window.contiguous engine.chain.failure with
      | .error error => (engine.fail window.base error.message).stopCollecting
      | .ok none => engine
      | .ok (some records) => engine.enqueue (engine.batchOf window records)

/-- Collect the next window, if it has work: close it and take its records. The
writer stops collecting when the log has failed, or when it was told to stop and
nothing is left. -/
def collect (engine : Engine σ δ) : Engine σ δ :=
  if ¬ engine.writer.CanCollect engine.config then engine
  else if engine.chain.failure.isSome then engine.stopCollecting
  else
    match engine.chain.window? engine.writer.cursor with
    | none => engine
    | some window =>
        if window.hasWork then
          match engine.chain.closeAt engine.writer.cursor (engine.highWater window) with
          | (.error error, chain) =>
              ({ engine with chain := chain }.fail window.base error.message).stopCollecting
          | (.ok _, chain) => { engine with chain := chain }.collectClosed
        else if engine.writer.stopRequested ∧ engine.current < window.base then
          engine.stopCollecting
        else engine

variable [Device δ]

/-- Put a batch on the device. -/
def persist (device : δ) (batch : Batch) : Except StorageError Unit × δ :=
  match batch.region with
  | none => (.ok (), device)
  | some region =>
      match Device.write device region batch.last with
      | (.error error, device) => (.error error, device)
      | (.ok _, device) => if batch.sync then Device.sync device else (.ok (), device)

/-- The batch is on the device. -/
def finishBatch (engine : Engine σ δ) (batch : Batch) (rest : List Batch) : Engine σ δ :=
  { engine with
    chain := (engine.chain.complete batch.place).retire batch.place
      (engine.config.packingDepth = 0)
    watermark := engine.watermark.advance batch.last
    writer := { engine.writer with queue := rest } }

/-- The writer ends with a failure of the device, and what it had collected is
dropped. -/
def abandon (engine : Engine σ δ) (lsn : Nat) (error : StorageError) : Engine σ δ :=
  { engine.fail lsn error.message with
    writer :=
      { engine.writer with
        queue := []
        collecting := false
        verdict := some (.error ⟨lsn, error.message⟩) } }

/-- Write the oldest collected window. -/
def write (engine : Engine σ δ) : Engine σ δ :=
  match engine.writer.verdict, engine.writer.queue with
  | none, batch :: rest =>
      match persist engine.device batch with
      | (.error error, device) => { engine with device := device }.abandon batch.last error
      | (.ok (), device) => { engine with device := device }.finishBatch batch rest
  | _, _ => engine

/-- End the writer once it will collect no more and has written everything: with
the failure of the log if there is one, else after a last sync. -/
def finish (engine : Engine σ δ) : Engine σ δ :=
  if engine.writer.collecting ∨ engine.writer.queue ≠ [] ∨ engine.writer.verdict ≠ none then
    engine
  else
    match engine.chain.failure with
    | some failure =>
        { engine with writer := { engine.writer with verdict := some (.error failure) } }
    | none =>
        match Device.sync engine.device with
        | (.error error, device) =>
            { engine with device := device }.abandon engine.durable error
        | (.ok (), device) =>
            { engine with
              device := device
              writer := { engine.writer with verdict := some (.ok ()) } }

/-- One step of the writer. -/
def writerStep (engine : Engine σ δ) : Engine σ δ :=
  if engine.writer.queue ≠ [] then engine.write
  else if engine.writer.collecting then engine.collect
  else engine.finish

/-- The steps after which the writer has nothing to do: two for each window that
is left, and those it takes to end. -/
def stepsLeft (engine : Engine σ δ) : Nat :=
  2 * (engine.chain.windows.length - engine.writer.cursor) + engine.writer.queue.length + 4

/-- Let the writer run until it has nothing to do. -/
def settle (engine : Engine σ δ) : Engine σ δ :=
  engine.stepsLeft.repeat writerStep engine

/-! ### Operations that wait -/

/-- Recover the log of a device, with workers under a schedule, and start an engine
on it. -/
def openUnder (schedule : Recovery.Schedule) (app : Application α σ) (config : Config)
    (options : RecoveryOptions) (device : δ) (state : σ) :
    Outcome (RecoveryReport × Engine σ δ) :=
  match config.validate with
  | .error error => .failed error
  | .ok () =>
      let result :=
        Recovery.recoverWith app schedule config options (Device.newestFirst device) state
      match result.outcome with
      | .ok report => .ok (report, resume config report device result.state)
      | .failed error => .failed error
      | .panicked panic => .panicked panic

/-- Recover the log of a device, with workers that keep up with the scan, and start an
engine on it. -/
def «open» (app : Application α σ) (config : Config) (options : RecoveryOptions) (device : δ)
    (state : σ) : Outcome (RecoveryReport × Engine σ δ) :=
  openUnder (.prompt config.replayWorkers) app config options device state

/-- How a wait for a record ends now; `none` if it would go on for ever. -/
def waitFor (engine : Engine σ δ) (lsn : Nat) : Option (Except LogError Unit) :=
  engine.watermark.waitFor lsn

/-- The receipt for a record. -/
def receipt (engine : Engine σ δ) (lsn : Nat) : Receipt :=
  ⟨lsn, engine.waitFor lsn, lsn ≤ engine.durable⟩

/-- Append an action with a sync request and wait until its record is on the device. -/
def appendSync (app : Application α σ) (engine : Engine σ δ) (action : α) :
    Option (Outcome Nat) × Engine σ δ :=
  match engine.append app action true with
  | (.ok lsn, engine) =>
      let engine := engine.settle
      ((engine.waitFor lsn).map fun
        | .ok () => .ok lsn
        | .error error => .failed error, engine)
  | (outcome, engine) => (some outcome, engine)

/-- Close the current window and wait until everything up to the newest record is
on the device. The result is that record. -/
def freeze (engine : Engine σ δ) : Option (Except LogError Nat) × Engine σ δ :=
  match engine.closeBarrier with
  | (.error error, engine) => (some (.error error), engine)
  | (.ok high, engine) =>
      let engine := engine.settle
      ((engine.waitFor high).map (·.map fun _ => high), engine)

/-- Stop the log: turn producers away, write what is left, end the writer. A log
that was stopped before is left alone. -/
def shutdown (engine : Engine σ δ) : Option (Except LogError Unit) × Engine σ δ :=
  if ¬ engine.isOpen then (some (.ok ()), engine)
  else
    let engine := engine.requestStop.settle
    (engine.writer.verdict.map (·.mapError .durability),
      { engine with watermark := engine.watermark.close })

end Engine

end Logbook

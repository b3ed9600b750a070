import Logbook.Proofs.Engine.Tracked

/-!
# The stretches of a log

The records of a running log come in three stretches. The first is written, and the
watermark stands at its end; the second is in the batches that the writer has collected,
one behind the other; the third is in the windows from the cursor of the writer on. Each
step of the writer moves some records from one stretch to the one before it.
-/

namespace Logbook.Engine

open Windows

variable {α σ δ : Type} {app : Application α σ}

/-- Batches of consecutive records, the first of which has the number `start`. -/
def Queued (checksum : ChecksumKind) : (start : Nat) → List Batch → List (List Record) → Prop
  | _, [], [] => True
  | start, batch :: rest, records :: more =>
      batch.last + 1 = start + records.length ∧
        batch.region =
          (if records = [] then none else some (Region.pack .current checksum records)) ∧
        Queued checksum (start + records.length) rest more
  | _, _, _ => False

theorem Queued.concat {checksum : ChecksumKind} {start : Nat} {queue : List Batch}
    {queued : List (List Record)} (before : Queued checksum start queue queued) {batch : Batch}
    {records : List Record}
    (last : batch.last + 1 = start + queued.flatten.length + records.length)
    (region : batch.region =
      (if records = [] then none else some (Region.pack .current checksum records))) :
    Queued checksum start (queue ++ [batch]) (queued ++ [records]) := by
  induction queue generalizing start queued with
  | nil =>
      cases queued with
      | nil => exact ⟨by simpa using last, region, trivial⟩
      | cons records queued => cases before
  | cons head queue ih =>
      cases queued with
      | nil => cases before
      | cons taken queued =>
          rcases before with ⟨head_last, head_region, before⟩
          refine ⟨head_last, head_region, ih before ?_⟩
          rw [last, List.flatten_cons, List.length_append]
          omega

/-- The records of a running log, by how far they have come: written, in collected batches,
and in windows that the writer has still to collect. -/
structure Lined (config : Config) (first : Nat) (written : List Record)
    (queued : List (List Record)) (pending : List Record) (engine : Engine σ δ) : Prop where
  tracked : Tracked first (written ++ (queued.flatten ++ pending)) engine
  config_eq : engine.config = config
  durable : engine.watermark.durable + 1 = first + written.length
  queue : Queued config.checksum (first + written.length) engine.writer.queue queued
  cursor : ∃ window, engine.chain.window? engine.writer.cursor = some window ∧
    window.base = first + written.length + queued.flatten.length

namespace Lined

variable {config : Config} {first : Nat} {written : List Record} {queued : List (List Record)}
  {pending : List Record} {engine : Engine σ δ}

theorem sequenced (lined : Lined config first written queued pending engine) :
    Sequenced first (written ++ (queued.flatten ++ pending)) engine :=
  lined.tracked.sequenced

theorem cursor_of_called (lined : Lined config first written queued pending engine) {bound : Nat}
    {gained : Option Record} {chain : Chain}
    (called : Chain.Called first bound engine.chain gained chain) :
    ∃ window, chain.window? engine.writer.cursor = some window ∧
      window.base = first + written.length + queued.flatten.length := by
  rcases lined.cursor with ⟨window, here, starts⟩
  rcases called.carried.grown.getElem? here with ⟨window', here', later⟩
  exact ⟨window', here', later.1.trans starts⟩

/-- A call on the chain that adds nothing. -/
theorem of_called (lined : Lined config first written queued pending engine) {chain : Chain}
    (called : Chain.Called first (first + (written ++ (queued.flatten ++ pending)).length)
      engine.chain none chain) :
    Lined config first written queued pending { engine with chain := chain } :=
  { lined with
    tracked := lined.tracked.of_called called
    cursor := lined.cursor_of_called called }

/-- Logging an entry adds a record to what is pending, or changes nothing but the
state of the application. -/
theorem log (lined : Lined config first written queued pending engine) (entry : Entry α)
    (sync : Bool)
    (room : ∀ record ∈ engine.logged app entry sync,
      first + (written ++ (queued.flatten ++ pending)).length + 1 < Sequencer.wordSize) :
    Lined config first written queued (pending ++ (engine.logged app entry sync).toList)
      (engine.log app entry sync).2 := by
  have tracked := lined.tracked.log entry sync room
  rw [List.append_assoc, List.append_assoc] at tracked
  rcases lined.sequenced.log_cases app entry sync with
    ⟨error, refused⟩ | ⟨payload, encoded, logged⟩
  · rw [refused] at tracked ⊢
    exact { lined with tracked := tracked }
  · have called := lined.sequenced.called_append
      (show (engine.nextRecord payload).lsn = engine.sequencer.next from rfl) sync
    rw [logged] at tracked ⊢
    exact { lined with tracked := tracked, cursor := lined.cursor_of_called called }

/-- The barrier closes windows up to the newest record. -/
theorem closeBarrier (lined : Lined config first written queued pending engine) :
    Lined config first written queued pending engine.closeBarrier.2 := by
  rw [Engine.closeBarrier]
  split
  · exact lined
  · exact lined.of_called lined.sequenced.called_closeBarrier

/-- A closed window at the cursor gives out the next of the pending records. -/
theorem contiguous_pending (lined : Lined config first written queued pending engine)
    {window : Window} {last : Nat} (here : engine.chain.window? engine.writer.cursor = some window)
    (closed : window.fixedEnd = some last) :
    window.contiguous engine.chain.failure =
        .ok (some (pending.take (last + 1 - window.base))) ∧
      (pending.take (last + 1 - window.base)).length = last + 1 - window.base := by
  have sequenced := lined.sequenced
  have member := List.mem_of_getElem? here
  rcases lined.cursor with ⟨_, here', starts⟩
  cases here.symm.trans here'
  have first_le := sequenced.sound.linked.base_le member
  have last_lt := sequenced.fixedEnd_lt window member last closed
  have gathered := sequenced.contiguous_eq here closed
  have offset : window.base - first = (written ++ queued.flatten).length := by
    rw [starts, List.length_append]
    omega
  rw [offset, ← List.append_assoc, List.drop_left] at gathered
  refine ⟨gathered, List.length_take_of_le ?_⟩
  simp only [List.length_append] at last_lt offset
  omega

/-- Collecting a closed window at the cursor queues the next of the pending records. -/
theorem collectClosed_eq (lined : Lined config first written queued pending engine)
    {window : Window} {last : Nat} (here : engine.chain.window? engine.writer.cursor = some window)
    (closed : window.fixedEnd = some last) :
    engine.collectClosed =
      engine.enqueue (engine.batchOf window (pending.take (last + 1 - window.base))) := by
  unfold Engine.collectClosed
  rw [here]
  simp only [(lined.contiguous_pending here closed).1]

/-- Queueing the window at the cursor, which is closed, with its records. -/
theorem collectClosed (lined : Lined config first written queued pending engine)
    {window : Window} {last : Nat} (here : engine.chain.window? engine.writer.cursor = some window)
    (closed : window.fixedEnd = some last) :
    Lined config first written (queued ++ [pending.take (last + 1 - window.base)])
      (pending.drop (last + 1 - window.base)) engine.collectClosed := by
  have tracked := lined.tracked.collectClosed here closed
  have sound := lined.sequenced.sound
  rcases lined.cursor with ⟨_, here', starts⟩
  cases here.symm.trans here'
  have base_le :=
    ((sound.linked.sound (List.mem_of_getElem? here)).fixedEnd_bounds last closed).1
  have length := (lined.contiguous_pending here closed).2
  obtain ⟨cursor_eq, successor, after, successor_base⟩ := Chain.next_of_closed sound here closed
  have split : (queued ++ [pending.take (last + 1 - window.base)]).flatten
      ++ pending.drop (last + 1 - window.base) = queued.flatten ++ pending := by
    rw [List.flatten_append, List.flatten_singleton, List.append_assoc, List.take_append_drop]
  rw [lined.collectClosed_eq here closed] at tracked ⊢
  simp only [enqueue, cursor_eq] at tracked ⊢
  exact { lined with
    tracked := by
      rw [split]
      exact tracked
    queue := by
      refine lined.queue.concat ?_ ?_
      · rw [length, ← starts]
        simp only [batchOf, closed, Option.getD_some]
        omega
      · rw [batchOf, lined.config_eq]
    cursor := by
      refine ⟨successor, after, ?_⟩
      rw [successor_base, List.flatten_append, List.flatten_singleton, List.length_append, length]
      omega }

/-- Collecting moves records from the windows to the queue, or does nothing. -/
theorem collect (lined : Lined config first written queued pending engine) :
    ∃ queued' pending', queued'.flatten ++ pending' = queued.flatten ++ pending ∧
      Lined config first written queued' pending' engine.collect := by
  have collects := lined.tracked.collects
  generalize engine.collect = after at collects ⊢
  cases collects with
  | barred | waiting => exact ⟨queued, pending, rfl, lined⟩
  | stopped =>
      exact ⟨queued, pending, rfl,
        { lined with tracked := ⟨{ lined.sequenced with }, lined.tracked.places, lined.tracked.cursor⟩ }⟩
  | closed able closes called here closed =>
      refine ⟨_, _, ?_, (lined.of_called called).collectClosed here closed⟩
      rw [List.flatten_append, List.flatten_singleton, List.append_assoc, List.take_append_drop]

theorem consecutive_queued {records : List Record} {more : List (List Record)}
    (lined : Lined config first written (records :: more) pending engine) :
    Record.Consecutive (first + written.length) records := by
  have all := (Record.consecutive_append.mp lined.sequenced.consecutive).2
  rw [List.flatten_cons, List.append_assoc] at all
  exact (Record.consecutive_append.mp all).1

/-- The oldest batch has the first of the collected records. -/
theorem exists_head (lined : Lined config first written queued pending engine) {batch : Batch}
    {rest : List Batch} (queue_eq : engine.writer.queue = batch :: rest) :
    ∃ records more, queued = records :: more ∧
      batch.last + 1 = first + written.length + records.length ∧
      batch.region =
        (if records = [] then none else some (Region.pack .current config.checksum records)) := by
  have queue := lined.queue
  rw [queue_eq] at queue
  cases queued with
  | nil => cases queue
  | cons records more => exact ⟨records, more, rfl, queue.1, queue.2.1⟩

/-- The oldest batch is written. -/
theorem finishBatch [Device δ] {records : List Record} {more : List (List Record)}
    (lined : Lined config first written (records :: more) pending engine) {batch : Batch}
    {rest : List Batch} (queue_eq : engine.writer.queue = batch :: rest) (device : δ) :
    Lined config first (written ++ records) more pending
      ({ engine with device := device }.finishBatch batch rest) := by
  have queue := lined.queue
  rw [queue_eq] at queue
  rcases queue with ⟨last_eq, _, queue⟩
  have tracked := lined.tracked.retire (queue_eq ▸ List.mem_cons_self)
    (decide (engine.config.packingDepth = 0))
  have completed := lined.of_called (Chain.called_complete lined.sequenced.sound batch.place)
  rcases completed.tracked.places batch (queue_eq ▸ List.mem_cons_self) with
    ⟨_, _, here, closed⟩
  have called : Chain.Called first 0 (engine.chain.complete batch.place) none
      ((engine.chain.complete batch.place).next batch.place).2 :=
    Chain.called_next_of_closed completed.sequenced.sound here closed
  have cursor := completed.cursor_of_called called
  have split : written ++ records ++ (more.flatten ++ pending) =
      written ++ ((records :: more).flatten ++ pending) := by
    rw [List.flatten_cons]
    simp only [List.append_assoc]
  constructor
  · rw [split]
    exact ⟨{ tracked.sequenced with },
      fun batch member => tracked.places batch (queue_eq ▸ List.mem_cons_of_mem _ member),
      tracked.cursor⟩
  · exact lined.config_eq
  · have := lined.durable
    rw [List.length_append]
    simp only [Engine.finishBatch, Watermark.advance]
    omega
  · rw [List.length_append, ← Nat.add_assoc]
    exact queue
  · rcases cursor with ⟨window, here, starts⟩
    refine ⟨window, here, ?_⟩
    rw [starts, List.flatten_cons, List.length_append, List.length_append]
    omega

end Lined

end Logbook.Engine

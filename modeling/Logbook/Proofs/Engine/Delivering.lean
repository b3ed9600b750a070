import Logbook.Proofs.Engine.Lined
import Logbook.Proofs.Recovery.Scanned
import Logbook.Proofs.Storage.Reliable

/-!
# From the chain to the device

The records that a running log has written are on the device, in regions behind those
that were there before. As long as the device does what it is asked, each batch that the
writer has collected becomes one more region, or none if it has no records.
-/

namespace Logbook.Engine

open Windows

variable {α σ δ : Type}

variable [Device δ] [Device.Reliable δ]

/-- The stretches of a running log: pieces on the device behind the regions `old`,
collected batches, and what the writer has still to collect. -/
structure Delivering (config : Config) (first : Nat) (old : List Chunk) (written : List Piece)
    (queued : List (List Record)) (pending : List Record) (engine : Engine σ δ) : Prop where
  sequenced :
    Sequenced first (written.flatMap Piece.records ++ (queued.flatten ++ pending)) engine
  fits : ∀ record ∈ written.flatMap Piece.records ++ (queued.flatten ++ pending), record.Fits
  config_eq : engine.config = config
  intact : Device.Reliable.Intact engine.device
  reads : Device.Reads engine.device (old ++ written.map Piece.chunk)
  some_records : ∀ piece ∈ written, piece.records ≠ []
  formats : ∀ piece ∈ written, piece.format = .current
  newest_lt : ∀ chunk, (old ++ written.map Piece.chunk).getLast? = some chunk →
    chunk.lsn < first + (written.flatMap Piece.records).length
  durable : engine.watermark.durable + 1 = first + (written.flatMap Piece.records).length
  queue : Queued config.checksum (first + (written.flatMap Piece.records).length)
    engine.writer.queue queued
  places : ∀ batch ∈ engine.writer.queue, ∃ window last,
    engine.chain.window? batch.place = some window ∧ window.fixedEnd = some last
  cursor : ∃ window, engine.chain.window? engine.writer.cursor = some window ∧
    window.base = first + (written.flatMap Piece.records).length + queued.flatten.length
  verdict : ∀ failure, engine.writer.verdict ≠ some (.error failure)

namespace Delivering

variable {config : Config} {first : Nat} {old : List Chunk} {written : List Piece}
  {queued : List (List Record)} {pending : List Record} {engine : Engine σ δ}

theorem lined (delivering : Delivering config first old written queued pending engine) :
    Lined config first (written.flatMap Piece.records) queued pending engine where
  tracked := ⟨delivering.sequenced, delivering.places, delivering.cursor.imp fun _ found => found.1⟩
  config_eq := delivering.config_eq
  durable := delivering.durable
  queue := delivering.queue
  cursor := delivering.cursor

/-- A step that leaves the device alone. -/
theorem of_lined (delivering : Delivering config first old written queued pending engine)
    {queued' : List (List Record)} {pending' : List Record} {after : Engine σ δ}
    (lined : Lined config first (written.flatMap Piece.records) queued' pending' after)
    (fits : ∀ record ∈ written.flatMap Piece.records ++ (queued'.flatten ++ pending'),
      record.Fits)
    (device : after.device = engine.device)
    (verdict : after.writer.verdict = engine.writer.verdict) :
    Delivering config first old written queued' pending' after where
  sequenced := lined.sequenced
  fits := fits
  config_eq := lined.config_eq
  intact := device ▸ delivering.intact
  reads := device ▸ delivering.reads
  some_records := delivering.some_records
  formats := delivering.formats
  newest_lt := delivering.newest_lt
  durable := lined.durable
  queue := lined.queue
  places := lined.tracked.places
  cursor := lined.cursor
  verdict := verdict ▸ delivering.verdict

/-- A call on the chain that adds nothing. -/
theorem of_called (delivering : Delivering config first old written queued pending engine)
    {chain : Chain}
    (called : Chain.Called first
      (first + (written.flatMap Piece.records ++ (queued.flatten ++ pending)).length)
      engine.chain none chain) :
    Delivering config first old written queued pending { engine with chain := chain } :=
  delivering.of_lined (delivering.lined.of_called called) delivering.fits rfl rfl

/-- Logging an entry adds a record to what is pending, or changes nothing but the
state of the application. -/
theorem log (delivering : Delivering config first old written queued pending engine)
    {app : Application α σ} {entry : Entry α} {sync : Bool}
    (fits : ∀ record, engine.logged app entry sync = some record → record.Fits)
    (room : ∀ record, engine.logged app entry sync = some record →
      first + (written.flatMap Piece.records ++ (queued.flatten ++ pending)).length + 1 <
        Sequencer.wordSize) :
    Delivering config first old written queued
      (pending ++ (engine.logged app entry sync).toList) (engine.log app entry sync).2 := by
  rcases log_frame app engine entry sync with ⟨_, _, _, logged⟩
  refine delivering.of_lined (delivering.lined.log entry sync room) ?_ (by rw [logged])
    (by rw [logged])
  intro record member
  rw [← List.append_assoc, ← List.append_assoc] at member
  rcases List.mem_append.mp member with old | new
  · rw [List.append_assoc] at old
    exact delivering.fits record old
  · exact fits record (Option.mem_toList.mp new)

/-- The barrier closes windows up to the newest record. -/
theorem closeBarrier (delivering : Delivering config first old written queued pending engine) :
    Delivering config first old written queued pending engine.closeBarrier.2 := by
  refine delivering.of_lined delivering.lined.closeBarrier delivering.fits ?_ ?_
  · rw [Engine.closeBarrier]
    split <;> rfl
  · rw [Engine.closeBarrier]
    split <;> rfl

/-! ### Collecting -/

/-- Collecting a closed window at the cursor queues the next of the pending records. -/
theorem collectClosed_eq (delivering : Delivering config first old written queued pending engine)
    {window : Window} {last : Nat} (here : engine.chain.window? engine.writer.cursor = some window)
    (closed : window.fixedEnd = some last) :
    engine.collectClosed =
      engine.enqueue (engine.batchOf window (pending.take (last + 1 - window.base))) :=
  delivering.lined.collectClosed_eq here closed

/-- Queueing the window at the cursor, which is closed, with its records. -/
theorem collectClosed (delivering : Delivering config first old written queued pending engine)
    {window : Window} {last : Nat} (here : engine.chain.window? engine.writer.cursor = some window)
    (closed : window.fixedEnd = some last) :
    Delivering config first old written (queued ++ [pending.take (last + 1 - window.base)])
      (pending.drop (last + 1 - window.base)) engine.collectClosed := by
  have queued_eq := delivering.collectClosed_eq here closed
  refine delivering.of_lined (delivering.lined.collectClosed here closed) ?_ ?_ ?_
  · rw [List.flatten_append, List.flatten_singleton, List.append_assoc, List.take_append_drop]
    exact delivering.fits
  · rw [queued_eq]
    rfl
  · rw [queued_eq]
    rfl

/-! ### Writing -/

/-- The piece that a batch of records is on the device, if there are any. -/
def piecesOf (checksum : ChecksumKind) (records : List Record) : List Piece :=
  if records = [] then [] else [⟨.current, checksum, records⟩]

theorem flatMap_piecesOf (checksum : ChecksumKind) (records : List Record) :
    (piecesOf checksum records).flatMap Piece.records = records := by
  unfold piecesOf
  split
  · rename_i none
    exact none.symm
  · simp

theorem map_chunk_piecesOf {start last : Nat} {records : List Record} (checksum : ChecksumKind)
    (consecutive : Record.Consecutive start records) (some_records : records ≠ [])
    (last_eq : last + 1 = start + records.length) :
    (piecesOf checksum records).map Piece.chunk =
      [⟨last, Region.pack .current checksum records⟩] := by
  have found := List.getLast?_eq_some_getLast some_records
  have := consecutive.getLast found
  have lsn_eq : (records.getLast some_records).lsn = last := by omega
  rw [piecesOf, if_neg some_records, List.map_singleton, Piece.chunk, found, Option.map_some,
    Option.getD_some, lsn_eq]

theorem mem_piecesOf {checksum : ChecksumKind} {records : List Record} {piece : Piece}
    (member : piece ∈ piecesOf checksum records) :
    piece.records ≠ [] ∧ piece.format = .current := by
  unfold piecesOf at member
  split at member
  · cases member
  · rename_i some_records
    cases List.mem_singleton.mp member
    exact ⟨some_records, rfl⟩

theorem newest_lt_piecesOf {records : List Record} {more : List (List Record)} {last : Nat}
    (delivering : Delivering config first old written (records :: more) pending engine)
    (last_eq : last + 1 = first + (written.flatMap Piece.records).length + records.length) :
    ∀ chunk, (old ++ (written ++ piecesOf config.checksum records).map Piece.chunk).getLast? =
      some chunk →
        chunk.lsn < first + ((written.flatMap Piece.records).length + records.length) := by
  intro chunk newest
  by_cases none : records = []
  · rw [piecesOf, if_pos none, List.append_nil] at newest
    have := delivering.newest_lt chunk newest
    omega
  · rw [List.map_append, map_chunk_piecesOf _ delivering.lined.consecutive_queued none last_eq,
      ← List.append_assoc, List.getLast?_concat] at newest
    cases newest
    dsimp only
    omega

/-- The device takes the oldest batch. -/
theorem persist_ok (delivering : Delivering config first old written queued pending engine)
    (faultless : engine.Faultless (.write : Move α δ)) (running : engine.writer.verdict = none)
    {batch : Batch} {rest : List Batch} (queue_eq : engine.writer.queue = batch :: rest) :
    ∃ device records more, queued = records :: more ∧
      persist engine.device batch = (.ok (), device) ∧ Device.Reliable.Intact device ∧
      Device.Reads device
        (old ++ (written ++ piecesOf config.checksum records).map Piece.chunk) := by
  obtain ⟨records, more, rfl, last_eq, region_eq⟩ := delivering.lined.exists_head queue_eq
  by_cases none : records = []
  · rw [if_pos none] at region_eq
    refine ⟨engine.device, records, more, rfl, ?_, delivering.intact, ?_⟩
    · rw [persist, region_eq]
    · rw [piecesOf, if_pos none, List.append_nil]
      exact delivering.reads
  · rw [if_neg none] at region_eq
    have chunk := map_chunk_piecesOf config.checksum delivering.lined.consecutive_queued none last_eq
    have some_length := List.length_pos_iff.mpr none
    have faultless := faultless running batch rest _ queue_eq region_eq
    have chunks : old ++ (written ++ piecesOf config.checksum records).map Piece.chunk =
        old ++ written.map Piece.chunk ++
          [⟨batch.last, Region.pack .current config.checksum records⟩] := by
      rw [List.map_append, chunk, List.append_assoc]
    generalize outcome_eq : Device.write engine.device
      (Region.pack .current config.checksum records) batch.last = outcome at faultless
    rcases outcome with ⟨error | count, device⟩
    · rcases faultless with ⟨number, last, rfl⟩
      obtain ⟨newest, found, le⟩ := Device.Reliable.le_of_outOfOrder _ _ _ _ _ _ _
        delivering.intact delivering.reads outcome_eq
      have := delivering.newest_lt newest found
      omega
    · obtain ⟨intact, reads⟩ := Device.Reliable.write_ok _ _ _ _ _ _
        delivering.intact delivering.reads outcome_eq
      by_cases sync : batch.sync = true
      · rcases faultless sync with ⟨after, synced⟩
        rcases Device.Reliable.sync_ok _ _ _ intact reads synced with ⟨intact, reads⟩
        refine ⟨after, records, more, rfl, ?_, intact, chunks ▸ reads⟩
        simp only [persist, region_eq, outcome_eq, sync, ↓reduceIte, synced]
      · refine ⟨device, records, more, rfl, ?_, intact, chunks ▸ reads⟩
        simp only [persist, region_eq, outcome_eq, sync]
        rfl

/-- The writer hands the oldest batch to the device, which takes it, or there is none. -/
theorem write_cases (delivering : Delivering config first old written queued pending engine)
    (faultless : engine.Faultless (.write : Move α δ)) :
    (engine.writer.verdict ≠ none ∨ engine.writer.queue = []) ∧ engine.write = engine ∨
      ∃ batch rest device records more, engine.writer.queue = batch :: rest ∧
        queued = records :: more ∧ persist engine.device batch = (.ok (), device) ∧
        Device.Reliable.Intact device ∧
        Device.Reads device
          (old ++ (written ++ piecesOf config.checksum records).map Piece.chunk) ∧
        engine.write = { engine with device := device }.finishBatch batch rest := by
  unfold Engine.write
  split
  · rename_i batch rest running queue_eq
    obtain ⟨device, records, more, queued_eq, persisted, intact, reads⟩ :=
      delivering.persist_ok faultless running queue_eq
    refine .inr ⟨batch, rest, device, records, more, queue_eq, queued_eq, persisted, intact,
      reads, ?_⟩
    rw [persisted]
  · rename_i other
    refine .inl ⟨?_, rfl⟩
    cases running : engine.writer.verdict with
    | some verdict => exact .inl (Option.some_ne_none verdict)
    | none =>
        cases queue_eq : engine.writer.queue with
        | nil => exact .inr rfl
        | cons batch rest => exact absurd queue_eq (other batch rest running)

/-- Writing moves the oldest batch to the device, or does nothing. -/
theorem write (delivering : Delivering config first old written queued pending engine)
    (faultless : engine.Faultless (.write : Move α δ)) :
    ∃ added queued', added.flatMap Piece.records ++ queued'.flatten = queued.flatten ∧
      Delivering config first old (written ++ added) queued' pending engine.write := by
  rcases delivering.write_cases faultless with ⟨_, none⟩ |
    ⟨batch, rest, device, records, more, queue_eq, rfl, _, intact, reads, written_eq⟩
  · rw [none]
    exact ⟨[], queued, rfl, (List.append_nil written).symm ▸ delivering⟩
  · have lined := delivering.lined.finishBatch queue_eq device
    have added := flatMap_piecesOf config.checksum records
    have last_eq := delivering.queue
    rw [queue_eq] at last_eq
    have moved : (written ++ piecesOf config.checksum records).flatMap Piece.records =
        written.flatMap Piece.records ++ records := by
      rw [List.flatMap_append, added]
    rw [← moved] at lined
    refine ⟨piecesOf config.checksum records, more, by rw [added, List.flatten_cons], ?_⟩
    rw [written_eq]
    exact {
      sequenced := lined.sequenced
      fits := by
        rw [moved, List.append_assoc, ← List.append_assoc records]
        exact delivering.fits
      config_eq := lined.config_eq
      intact := intact
      reads := reads
      some_records := fun piece member => by
        rcases List.mem_append.mp member with old | new
        · exact delivering.some_records piece old
        · exact (mem_piecesOf new).1
      formats := fun piece member => by
        rcases List.mem_append.mp member with old | new
        · exact delivering.formats piece old
        · exact (mem_piecesOf new).2
      newest_lt := by
        rw [moved, List.length_append]
        exact delivering.newest_lt_piecesOf last_eq.1
      durable := lined.durable
      queue := lined.queue
      places := lined.tracked.places
      cursor := lined.cursor
      verdict := delivering.verdict }

/-- The last step of the writer syncs the device, or there is none yet. -/
theorem finish_cases (delivering : Delivering config first old written queued pending engine)
    (faultless : engine.Faultless (.finish : Move α δ)) :
    (engine.writer.collecting = true ∨ engine.writer.queue ≠ [] ∨ engine.writer.verdict ≠ none) ∧
        engine.finish = engine ∨
      engine.writer.collecting = false ∧ engine.writer.queue = [] ∧
        ∃ device, Device.sync engine.device = (.ok (), device) ∧
        engine.finish = { engine with
          device := device
          writer := { engine.writer with verdict := some (.ok ()) } } := by
  unfold Engine.finish
  split
  · rename_i active
    exact .inl ⟨active, rfl⟩
  · rename_i active
    simp only [not_or, Bool.not_eq_true, Decidable.not_not] at active
    rcases active with ⟨collecting, empty, running⟩
    rw [delivering.sequenced.failure]
    rcases faultless collecting empty running with ⟨device, synced⟩
    refine .inr ⟨collecting, empty, device, synced, ?_⟩
    simp only [synced]

theorem finish (delivering : Delivering config first old written queued pending engine)
    (faultless : engine.Faultless (.finish : Move α δ)) :
    Delivering config first old written queued pending engine.finish := by
  rcases delivering.finish_cases faultless with ⟨_, idle⟩ | ⟨_, _, device, synced, finished⟩
  · rw [idle]
    exact delivering
  · rcases Device.Reliable.sync_ok _ _ _ delivering.intact delivering.reads synced with
      ⟨intact, reads⟩
    rw [finished]
    exact { delivering with
      sequenced := { delivering.sequenced with }
      intact := intact
      reads := reads
      verdict := nofun }

end Delivering

end Logbook.Engine

import Logbook.Proofs.Chain.Marked
import Logbook.Proofs.Engine.Acknowledged
import Logbook.Storage.Crash

/-!
# What a sync promises

A record that was appended with a sync request, or to a log that syncs every
write, is not only on the device once the watermark has reached it: it is in one
of the regions that were synced, so that it is still there when the regions that
were not are lost.

The request comes to the writer on the way that the record takes. The window that
holds the record knows of it, so the batch that takes the record from the window
is to be synced, so the write that moves the watermark past the record is followed
by a sync before the watermark moves.
-/

namespace Logbook

/-- A region of the disk, read in the format that engines write, holds the record. -/
def Disk.HoldsAt (disk : Disk) (index : Nat) (record : Record) : Prop :=
  ∃ chunk records, disk.regions[index]? = some chunk ∧
    Region.unpack chunk.lsn .current chunk.bytes = .ok records ∧ record ∈ records

/-- Behind the first regions there is one that holds the record, and it is one of those
that were synced, so it is still there when the others are lost. -/
structure Disk.Secures (disk : Disk) (skipped : Nat) (record : Record) : Prop where
  held : ∃ index, skipped ≤ index ∧ disk.HoldsAt index record
  synced : ∀ index, skipped ≤ index → disk.HoldsAt index record → index < disk.synced
  survives : ∀ index, skipped ≤ index → disk.HoldsAt index record →
    (disk.crashImage .loseUnsynced).HoldsAt index record

/-- A record in the synced part of a disk survives the loss of the rest. -/
theorem Disk.HoldsAt.crashImage {disk : Disk} {index : Nat} {record : Record}
    (held : disk.HoldsAt index record) (synced : index < disk.synced) :
    (disk.crashImage .loseUnsynced).HoldsAt index record := by
  rcases held with ⟨chunk, records, found, unpacked, member⟩
  refine ⟨chunk, records, ?_, unpacked, member⟩
  rw [Disk.crashImage, Disk.discardUnsynced, List.getElem?_take, if_pos synced]
  exact found

/-- A piece of the current format unpacks to its records. -/
theorem Piece.Cut.unpack_current {first : Nat} {pieces : List Piece}
    (cut : Piece.Cut .current first pieces) (formats : ∀ piece ∈ pieces, piece.format = .current)
    {piece : Piece} (member : piece ∈ pieces) :
    Region.unpack piece.chunk.lsn .current piece.chunk.bytes = .ok piece.records := by
  rw [cut.unpack piece member, Piece.received_of_current (formats piece member)]

/-- A disk holds the records of the pieces behind its old regions. -/
theorem Disk.exists_holdsAt {disk : Disk} {old : List Chunk} {first : Nat} {pieces : List Piece}
    (regions : disk.regions = old ++ pieces.map Piece.chunk)
    (cut : Piece.Cut .current first pieces) (formats : ∀ piece ∈ pieces, piece.format = .current)
    {record : Record} (member : record ∈ pieces.flatMap Piece.records) :
    ∃ index, old.length ≤ index ∧ disk.HoldsAt index record := by
  rcases List.mem_flatMap.mp member with ⟨piece, here, inside⟩
  rcases List.getElem?_of_mem here with ⟨place, found⟩
  refine ⟨old.length + place, Nat.le_add_right _ _, piece.chunk, piece.records, ?_,
    cut.unpack_current formats here, inside⟩
  rw [regions, List.getElem?_append_right (Nat.le_add_right _ _), Nat.add_sub_cancel_left,
    List.getElem?_map, found]
  rfl

/-- Whether a move asks for a sync of the record that it adds. -/
def Move.asksSync {α δ : Type} : Move α δ → Bool
  | .append _ sync => sync
  | .commit _ sync => sync
  | _ => false

namespace Engine

open Windows

section AnyDevice

variable {α σ δ : Type} [Device δ] [Device.Reliable δ] {app : Application α σ}
  {config : Config} {first : Nat} {old : List Chunk} {written : List Piece}
  {records : List Record} {engine : Engine σ δ} {given : Record → Bool → Prop}

/-- Logging marks the window that takes the record. -/
theorem Logs.marked_log (logs : Logs config first old written records engine)
    (marked : Marked given engine.chain.windows) {entry : Entry α} {sync : Bool}
    (was_given : ∀ record, engine.logged app entry sync = some record → given record sync) :
    Marked given (engine.log app entry sync).2.chain.windows := by
  rcases logs.sequenced.log_cases app entry sync with
    ⟨error, refused⟩ | ⟨payload, encoded, logged⟩
  · rw [refused]
    exact marked
  · have gained := logged_of_log encoded logged
    rw [logged]
    exact Chain.marked_append marked fun _ => was_given _ gained

/-- A move of a log that has not failed marks the window that takes its record, and
takes no request back. -/
theorem Logs.marked_move (logs : Logs config first old written records engine)
    {move : Move α δ} (faultless : engine.Faultless move)
    (marked : Marked given engine.chain.windows)
    (was_given : ∀ record, engine.gained app move = some record → given record move.asksSync) :
    Marked given (engine.move app move).chain.windows := by
  cases move with
  | append | appendMember | commit => exact logs.marked_log marked was_given
  | beginTransaction | setLowestLive | requestStop => exact marked
  | closeBarrier =>
      rw [Engine.move, closeBarrier]
      split
      · exact marked
      · exact Chain.marked_closeThrough marked _
  | collect =>
      rcases logs with ⟨queued, pending, _, delivering, _⟩
      have collects := delivering.lined.tracked.collects
      rw [Engine.move]
      generalize engine.collect = after at collects
      cases collects with
      | barred | waiting | stopped => exact marked
      | @closed chain window at_end last _ closes called here closed =>
          have closed_eq := (delivering.of_called called).collectClosed_eq here closed
          rw [closed_eq]
          refine Chain.marked_next ?_ _
          rw [closes]
          exact Chain.marked_closeAt marked _ _
  | write =>
      rcases logs with ⟨queued, pending, _, delivering, _⟩
      rcases delivering.write_cases faultless with ⟨_, none⟩ |
        ⟨batch, rest, device, _, _, _, _, _, _, _, written_eq⟩
      · rw [Engine.move, none]
        exact marked
      · rw [Engine.move, written_eq]
        exact Chain.marked_retire (Chain.marked_complete marked _) _ _
  | finish =>
      rcases logs with ⟨queued, pending, _, delivering, _⟩
      rcases delivering.finish_cases faultless with ⟨_, idle⟩ | ⟨_, _, device, _, finished⟩
      · rw [Engine.move, idle]
        exact marked
      · rw [Engine.move, finished]
        exact marked
  | onDevice => exact marked

/-- A run marks the windows that take its records, and takes no request back. -/
theorem Logs.marked_run (logs : Logs config first old written records engine)
    (marked : Marked given engine.chain.windows) {moves : List (Move α δ)}
    (faultless : engine.FaultlessRun app moves)
    (fits : ∀ record ∈ engine.accepted app moves, record.Fits)
    (room : first + records.length + (engine.accepted app moves).length < Sequencer.wordSize)
    (were_given : ∀ record ∈ engine.accepted app moves, ∀ sync, given record sync) :
    Marked given (engine.run app moves).chain.windows := by
  induction moves generalizing engine written records with
  | nil => exact marked
  | cons move moves ih =>
      rw [accepted] at fits room were_given
      rw [List.length_append] at room
      obtain ⟨added, moved⟩ := logs.move faultless.1
        (fun record gained => fits record (List.mem_append_left _ (Option.mem_toList.mpr gained)))
        (by omega)
      have stepped := logs.marked_move faultless.1 marked fun record gained =>
        were_given record (List.mem_append_left _ (Option.mem_toList.mpr gained)) _
      exact ih moved stepped faultless.2
        (fun record member => fits record (List.mem_append_right _ member))
        (by rw [List.length_append]; omega)
        (fun record member => were_given record (List.mem_append_right _ member))

omit [Device δ] [Device.Reliable δ] in
theorem Sequenced.lsn_of_concat {record : Record}
    (sequenced : Sequenced first (records ++ [record]) engine) :
    record.lsn = first + records.length := by
  have last := (Record.consecutive_append.mp sequenced.consecutive).2
  rw [Record.consecutive_cons] at last
  exact last.1

/-- A batch that covers a number that only came with a request is to be synced. -/
theorem Delivering.sync_batchOf {queued : List (List Record)} {pending : List Record} {lsn : Nat}
    (delivering : Delivering config first old written queued pending engine)
    (asked : config.syncPolicy = .always ∨ Marked (Asking lsn) engine.chain.windows)
    {window : Window} {last : Nat} (here : engine.chain.window? engine.writer.cursor = some window)
    (closed : window.fixedEnd = some last) (base_le : window.base ≤ lsn) (le_last : lsn ≤ last)
    (taken : List Record) : (engine.batchOf window taken).sync = true := by
  rcases asked with always | marked
  · simp [batchOf, delivering.config_eq, always]
  · have sequenced := delivering.sequenced
    have member := List.mem_of_getElem? here
    have first_le := sequenced.sound.linked.base_le member
    have last_lt := sequenced.fixedEnd_lt window member last closed
    have inside : lsn - first <
        (written.flatMap Piece.records ++ (queued.flatten ++ pending)).length := by omega
    have lsn_eq := sequenced.consecutive.lsn_of_getElem? (List.getElem?_eq_getElem inside)
    rw [Nat.add_sub_cancel' (Nat.le_trans first_le base_le)] at lsn_eq
    have holds := sequenced.sound.linked.holds_of_range here
      ((sequenced.holds _).mpr (List.getElem_mem inside)) (by omega)
      (by rw [Window.successorBase, closed, Option.getD_some]; omega)
    have requested := (marked window member).isSyncRequested
      (sequenced.sound.linked.sound member) holds fun _ asks => asks lsn_eq
    simp only [batchOf, requested, Bool.true_or]

end AnyDevice

/-! ### Batches -/

/-- Of batches that start at some number, the one with the number `lsn` is to be
synced. -/
def Due (lsn : Nat) : (start : Nat) → List Batch → Prop
  | _, [] => True
  | start, batch :: rest =>
      (start ≤ lsn → lsn ≤ batch.last → batch.sync = true) ∧ Due lsn (batch.last + 1) rest

theorem due_of_le {lsn start : Nat} {checksum : ChecksumKind} {queue : List Batch}
    {queued : List (List Record)} (batches : Queued checksum start queue queued)
    (le : start + queued.flatten.length ≤ lsn) : Due lsn start queue := by
  induction queue generalizing start queued with
  | nil => trivial
  | cons batch rest ih =>
      cases queued with
      | nil => cases batches
      | cons records more =>
          rcases batches with ⟨last, _, batches⟩
          rw [List.flatten_cons, List.length_append] at le
          refine ⟨fun _ _ => by omega, ?_⟩
          rw [last]
          exact ih batches (by omega)

theorem Due.concat {lsn start : Nat} {checksum : ChecksumKind} {queue : List Batch}
    {queued : List (List Record)} (due : Due lsn start queue)
    (batches : Queued checksum start queue queued) {batch : Batch}
    (next : start + queued.flatten.length ≤ lsn → lsn ≤ batch.last → batch.sync = true) :
    Due lsn start (queue ++ [batch]) := by
  induction queue generalizing start queued with
  | nil =>
      cases queued with
      | nil => exact ⟨next, trivial⟩
      | cons => cases batches
  | cons head rest ih =>
      cases queued with
      | nil => cases batches
      | cons records more =>
          rcases batches with ⟨last, _, batches⟩
          rw [List.flatten_cons, List.length_append] at next
          rw [← last] at batches
          exact ⟨due.1, ih due.2 batches fun le => next (by omega)⟩

/-! ### In memory -/

section InMemory

variable {α σ : Type} {app : Application α σ} {config : Config} {first : Nat}
  {old : List Chunk} {written : List Piece} {records : List Record}
  {engine : Engine σ MemoryDevice} {lsn : Nat}

/-- A memory device does what a move asks of it. -/
theorem faultless_of_memory {move : Move α MemoryDevice} (inside : move.Inside) :
    engine.Faultless move := by
  cases move with
  | write =>
      intro _ batch _ region _ _
      rw [MemoryDevice.write_eq]
      rcases engine.device.disk.write_cases region batch.last with ok | ⟨last, _, _, refused⟩
      · rw [ok]
        exact fun _ => ⟨_, rfl⟩
      · rw [refused]
        exact ⟨_, _, rfl⟩
  | finish => exact fun _ _ _ => ⟨_, rfl⟩
  | onDevice => exact absurd inside id
  | append | appendMember | commit | beginTransaction | setLowestLive | closeBarrier
  | requestStop | collect => exact trivial

/-- Taking a batch leaves the mark of the disk where it was, or puts it behind all
regions, as it has to if the batch is to be synced. -/
theorem synced_of_persist {device after : MemoryDevice} {batch : Batch}
    (persisted : persist device batch = (.ok (), after)) :
    (after.disk.synced = device.disk.synced ∧ (batch.region = none ∨ batch.sync = false)) ∨
      after.disk.synced = after.disk.regions.length := by
  unfold persist at persisted
  split at persisted
  · rename_i none
    cases persisted
    exact .inl ⟨rfl, .inl none⟩
  · rename_i region _
    rw [MemoryDevice.write_eq] at persisted
    rcases device.disk.write_cases region batch.last with ok | ⟨last, _, _, refused⟩
    · rw [ok] at persisted
      dsimp only at persisted
      split at persisted
      · cases persisted
        exact .inr rfl
      · rename_i unsynced
        cases persisted
        exact .inl ⟨rfl, .inr (Bool.not_eq_true _ ▸ unsynced)⟩
    · rw [refused] at persisted
      cases persisted

theorem Logs.regions_eq (logs : Logs config first old written records engine) :
    engine.device.disk.regions = old ++ written.map Piece.chunk := by
  rcases logs with ⟨_, _, _, delivering, _⟩
  exact (engine.device.reads).unique delivering.reads

theorem Logs.durable_eq (logs : Logs config first old written records engine) :
    engine.durable + 1 = first + (written.flatMap Piece.records).length := by
  rcases logs with ⟨_, _, _, delivering, _⟩
  exact delivering.durable

/-- The sync that a number is owed. Until the watermark reaches it, the batch that
has it is to be synced, or will be; then it is in a region that was synced. -/
structure Promised (config : Config) (first : Nat) (old : List Chunk) (lsn : Nat)
    (written : List Piece) (engine : Engine σ MemoryDevice) : Prop where
  asked : config.syncPolicy = .always ∨ Marked (Asking lsn) engine.chain.windows
  due : Due lsn (engine.durable + 1) engine.writer.queue
  safe : lsn ≤ engine.durable → ∃ front, front <+: written ∧
    lsn < first + (front.flatMap Piece.records).length ∧
      old.length + front.length ≤ engine.device.disk.synced

namespace Promised

/-- What does not touch the queue, the watermark or the device keeps the promise. -/
theorem carry (promised : Promised config first old lsn written engine)
    {engine' : Engine σ MemoryDevice} {added : List Piece}
    (asked : config.syncPolicy = .always ∨ Marked (Asking lsn) engine'.chain.windows)
    (durable : engine'.durable = engine.durable)
    (queue : engine'.writer.queue = engine.writer.queue)
    (device : engine'.device = engine.device) :
    Promised config first old lsn (written ++ added) engine' where
  asked := asked
  due := by
    rw [durable, queue]
    exact promised.due
  safe reached := by
    rw [durable] at reached
    rcases promised.safe reached with ⟨front, before, covered, synced⟩
    rw [device]
    exact ⟨front, before.trans (List.prefix_append _ _), covered, synced⟩

theorem collect (promised : Promised config first old lsn written engine)
    (logs : Logs config first old written records engine)
    (asked : config.syncPolicy = .always ∨ Marked (Asking lsn) engine.collect.chain.windows)
    {added : List Piece} : Promised config first old lsn (written ++ added) engine.collect := by
  rcases logs with ⟨queued, pending, _, delivering, _⟩
  have collects := delivering.lined.tracked.collects
  generalize engine.collect = after at collects asked ⊢
  cases collects with
  | barred | waiting | stopped => exact promised.carry asked rfl rfl rfl
  | @closed chain window at_end last _ closes called here closed =>
      have reached := delivering.of_called called
      have asked_before : config.syncPolicy = .always ∨ Marked (Asking lsn) chain.windows := by
        refine promised.asked.imp_right fun marked => ?_
        rw [closes]
        exact Chain.marked_closeAt marked _ _
      have durable := delivering.durable
      have starts : window.base = engine.durable + 1 + queued.flatten.length := by
        rcases reached.cursor with ⟨window', here', starts⟩
        cases here.symm.trans here'
        rw [Engine.durable, starts, durable]
      rw [reached.collectClosed_eq here closed] at asked ⊢
      refine ⟨asked, ?_, fun reached => ?_⟩
      · refine promised.due.concat (durable.symm ▸ delivering.queue) fun base_le le_last => ?_
        refine reached.sync_batchOf asked_before here closed (starts ▸ base_le) ?_ _
        simpa only [batchOf, closed, Option.getD_some] using le_last
      · rcases promised.safe reached with ⟨front, before, covered, synced⟩
        exact ⟨front, before.trans (List.prefix_append _ _), covered, synced⟩

theorem write (promised : Promised config first old lsn written engine)
    (logs : Logs config first old written records engine)
    (faultless : engine.Faultless (.write : Move α MemoryDevice))
    (asked : config.syncPolicy = .always ∨ Marked (Asking lsn) engine.write.chain.windows)
    {added : List Piece}
    (after : Logs config first old (written ++ added) records engine.write) :
    Promised config first old lsn (written ++ added) engine.write := by
  have regions := after.regions_eq
  have durable_after := after.durable_eq
  rcases logs with ⟨queued, pending, _, delivering, _⟩
  have durable := delivering.durable
  rcases delivering.write_cases faultless with ⟨_, none⟩ |
    ⟨batch, rest, device, taken, more, queue_eq, rfl, persisted, _, _, written_eq⟩
  · rw [none] at asked ⊢
    exact promised.carry asked rfl rfl rfl
  · have queue := delivering.queue
    have due := promised.due
    rw [queue_eq] at queue due
    rcases queue with ⟨last_eq, region_eq, _⟩
    have advanced : engine.write.durable = batch.last := by
      rw [written_eq]
      simp only [finishBatch, Engine.durable, Watermark.advance]
      omega
    have device_eq : engine.write.device = device := by rw [written_eq]; rfl
    refine ⟨asked, ?_, fun reached => ?_⟩
    · rw [advanced, written_eq]
      exact due.2
    · rw [device_eq] at regions ⊢
      rcases synced_of_persist persisted with ⟨same, unsynced⟩ | synced
      · -- the number was reached before, since the batch that reaches it is synced
        have before : lsn ≤ engine.durable := by
          refine Nat.le_of_not_lt fun later => ?_
          have sync := due.1 later (advanced ▸ reached)
          rcases unsynced with none | unsynced
          · split at region_eq
            · rename_i empty
              rw [empty, List.length_nil] at last_eq
              rw [Engine.durable] at later
              omega
            · rw [none] at region_eq
              cases region_eq
          · rw [sync] at unsynced
            cases unsynced
        rcases promised.safe before with ⟨front, front_prefix, covered, safe⟩
        rw [same]
        exact ⟨front, front_prefix.trans (List.prefix_append _ _), covered, safe⟩
      · refine ⟨written ++ added, List.prefix_rfl, by omega, ?_⟩
        rw [synced, regions, List.length_append, List.length_append, List.length_map]
        exact Nat.le_of_eq (by rw [List.length_append])

theorem finish (promised : Promised config first old lsn written engine)
    (logs : Logs config first old written records engine)
    (faultless : engine.Faultless (.finish : Move α MemoryDevice))
    (asked : config.syncPolicy = .always ∨ Marked (Asking lsn) engine.finish.chain.windows)
    {added : List Piece} : Promised config first old lsn (written ++ added) engine.finish := by
  have regions := logs.regions_eq
  rcases logs with ⟨queued, pending, _, delivering, _⟩
  rcases delivering.finish_cases faultless with ⟨_, idle⟩ | ⟨_, _, device, synced, finished⟩
  · rw [idle] at asked ⊢
    exact promised.carry asked rfl rfl rfl
  · rw [finished] at asked ⊢
    cases synced
    refine ⟨asked, promised.due, fun reached => ?_⟩
    rcases promised.safe reached with ⟨front, before, covered, _⟩
    refine ⟨front, before.trans (List.prefix_append _ _), covered, ?_⟩
    have := before.length_le
    simp only [Disk.sync, regions, List.length_append, List.length_map]
    omega

/-- A move keeps the promise for a number that was handed out before. -/
theorem move (promised : Promised config first old lsn written engine)
    (logs : Logs config first old written records engine)
    (logged : lsn < first + records.length) {move : Move α MemoryDevice} (inside : move.Inside)
    {added : List Piece}
    (after : Logs config first old (written ++ added)
      (records ++ (engine.gained app move).toList) (engine.move app move)) :
    Promised config first old lsn (written ++ added) (engine.move app move) := by
  have faultless : engine.Faultless move := faultless_of_memory inside
  have asked : config.syncPolicy = .always ∨
      Marked (Asking lsn) (engine.move app move).chain.windows := by
    refine promised.asked.imp_right fun marked => logs.marked_move faultless marked ?_
    intro record gained same
    have sequenced := after.sequenced
    rw [gained, Option.toList_some] at sequenced
    have := sequenced.lsn_of_concat
    omega
  have logging : ∀ entry sync, engine.move app move = (engine.log app entry sync).2 →
      Promised config first old lsn (written ++ added) (engine.move app move) := by
    intro entry sync moved
    rcases log_frame app engine entry sync with ⟨_, _, _, framed⟩
    rw [moved, framed] at asked ⊢
    exact promised.carry asked rfl rfl rfl
  cases move with
  | append action sync => exact logging (.plain action) sync rfl
  | appendMember txn action => exact logging (.member txn action) false rfl
  | commit txn sync => exact logging (.commit txn) sync rfl
  | beginTransaction | setLowestLive | requestStop => exact promised.carry asked rfl rfl rfl
  | closeBarrier =>
      rw [Engine.move, closeBarrier] at asked ⊢
      split at asked
      · exact promised.carry asked rfl rfl rfl
      · exact promised.carry asked rfl rfl rfl
  | collect => exact promised.collect logs asked
  | write =>
      have nothing : engine.gained app (.write : Move α MemoryDevice) = none := rfl
      rw [nothing, Option.toList_none, List.append_nil] at after
      exact promised.write logs faultless asked after
  | finish => exact promised.finish logs faultless asked
  | onDevice => exact absurd inside id

/-- A run keeps the promise. -/
theorem run (promised : Promised config first old lsn written engine)
    (logs : Logs config first old written records engine)
    (logged : lsn < first + records.length) {moves : List (Move α MemoryDevice)}
    (inside : ∀ move ∈ moves, move.Inside)
    (fits : ∀ record ∈ engine.accepted app moves, record.Fits)
    (room : first + records.length + (engine.accepted app moves).length < Sequencer.wordSize) :
    ∃ added, Logs config first old (written ++ added) (records ++ engine.accepted app moves)
        (engine.run app moves) ∧
      Promised config first old lsn (written ++ added) (engine.run app moves) := by
  induction moves generalizing engine written records with
  | nil => exact ⟨[], by simpa [accepted] using logs, by simpa using promised⟩
  | cons move moves ih =>
      rw [List.forall_mem_cons] at inside
      rw [accepted] at fits room ⊢
      rw [List.length_append] at room
      obtain ⟨added, moved⟩ := logs.move (faultless_of_memory inside.1)
        (fun record gained => fits record (List.mem_append_left _ (Option.mem_toList.mpr gained)))
        (by omega)
      have kept := promised.move logs logged inside.1 moved
      obtain ⟨more, ran, promised⟩ := ih kept moved (by rw [List.length_append]; omega) inside.2
        (fun record member => fits record (List.mem_append_right _ member))
        (by rw [List.length_append]; omega)
      refine ⟨added ++ more, ?_, ?_⟩
      · rw [← List.append_assoc, ← List.append_assoc]
        exact ran
      · rw [← List.append_assoc]
        exact promised

/-- Once the watermark has reached a number, its record is secured. -/
theorem secures {record : Record} (promised : Promised config first old record.lsn written engine)
    (logs : Logs config first old written records engine) (logged : record ∈ records)
    (reached : record.lsn ≤ engine.durable) :
    engine.device.disk.Secures old.length record := by
  have regions := logs.regions_eq
  have durable := logs.durable_eq
  rcases logs with ⟨queued, pending, rfl, delivering, _⟩
  have cut : Piece.Cut .current first written := delivering.cut rfl
  have synced : ∀ index, old.length ≤ index → engine.device.disk.HoldsAt index record →
      index < engine.device.disk.synced := by
    rintro index skipped ⟨chunk, taken, found, unpacked, member⟩
    obtain ⟨place, rfl⟩ := Nat.exists_eq_add_of_le skipped
    rcases promised.safe reached with ⟨front, ⟨back, rfl⟩, covered, safe⟩
    refine Nat.lt_of_lt_of_le (Nat.add_lt_add_left (Nat.lt_of_not_le fun beyond => ?_) _) safe
    -- a piece behind the front has only numbers behind those of the front
    rw [regions, List.getElem?_append_right (Nat.le_add_right _ _), Nat.add_sub_cancel_left,
      List.getElem?_map, Option.map_eq_some_iff] at found
    rcases found with ⟨piece, here, rfl⟩
    rw [cut.unpack_current delivering.formats (List.mem_of_getElem? here)] at unpacked
    cases unpacked
    rw [List.getElem?_append_right beyond] at here
    have later := (Piece.cut_append.mp cut).2.consecutive.bounds
      (List.mem_flatMap.mpr ⟨piece, List.mem_of_getElem? here, member⟩)
    omega
  refine ⟨?_, synced, fun index skipped held => held.crashImage (synced index skipped held)⟩
  have on_device : record ∈ written.flatMap Piece.records := by
    rcases List.mem_append.mp logged with on_device | later
    · exact on_device
    · have rest := (Record.consecutive_append.mp delivering.sequenced.consecutive).2
      have := (rest.bounds later).1
      omega
  exact Disk.exists_holdsAt regions cut delivering.formats on_device

end Promised

/-- A move that adds a record logs an entry. -/
theorem exists_log_of_gained {app : Application α σ} {move : Move α MemoryDevice}
    {record : Record} (gained : engine.gained app move = some record) :
    ∃ entry, engine.move app move = (engine.log app entry move.asksSync).2 := by
  cases move with
  | append action sync => exact ⟨.plain action, rfl⟩
  | appendMember txn action => exact ⟨.member txn action, rfl⟩
  | commit txn sync => exact ⟨.commit txn, rfl⟩
  | beginTransaction | setLowestLive | closeBarrier | requestStop | collect | write | finish
  | onDevice => cases gained

/-- A record that was just logged is behind everything that the writer has taken. -/
theorem Logs.promised {move : Move α MemoryDevice} {record : Record} {added : List Piece}
    (logs : Logs config first old written records engine)
    (gained : engine.gained app move = some record)
    (lsn_eq : record.lsn = first + records.length)
    (asked : config.syncPolicy = .always ∨
      Marked (Asking record.lsn) (engine.move app move).chain.windows) :
    Promised config first old record.lsn (written ++ added) (engine.move app move) := by
  rcases exists_log_of_gained gained with ⟨entry, moved⟩
  rcases log_frame app engine entry move.asksSync with ⟨_, _, _, framed⟩
  rw [moved, framed] at asked ⊢
  have durable := logs.durable_eq
  rcases logs with ⟨queued, pending, rfl, delivering, _⟩
  simp only [List.length_append] at lsn_eq
  have behind : engine.durable + 1 + queued.flatten.length ≤ record.lsn := by omega
  refine ⟨asked, due_of_le (durable.symm ▸ delivering.queue) behind, fun reached => ?_⟩
  change record.lsn ≤ engine.durable at reached
  omega

theorem faultlessRun_of_memory {moves : List (Move α MemoryDevice)}
    (inside : ∀ move ∈ moves, move.Inside) : engine.FaultlessRun app moves := by
  induction moves generalizing engine with
  | nil => trivial
  | cons move moves ih =>
      rw [List.forall_mem_cons] at inside
      exact ⟨faultless_of_memory inside.1, ih inside.2⟩

/-- A record that was appended with a sync request, or to a log that syncs every write,
to an engine in memory: it lies in a window that was asked for a sync, if it was
appended so, and it is secured once the watermark has reached it. -/
structure Honoured (config : Config) (skipped : Nat) (asked : Bool) (record : Record)
    (engine : Engine σ MemoryDevice) : Prop where
  flagged : asked = true → Flagged engine.chain.windows record
  secured : asked = true ∨ config.syncPolicy = .always → record.lsn ≤ engine.durable →
    engine.device.disk.Secures skipped record

/-- Requests of a running log are honoured, whatever is done after the record. -/
theorem Logs.honoured (logs : Logs config first old written records engine)
    (marked : Marked (fun _ _ => True) engine.chain.windows)
    {move : Move α MemoryDevice} {moves : List (Move α MemoryDevice)} {record : Record}
    (inside : ∀ other ∈ move :: moves, other.Inside)
    (fits : ∀ other ∈ engine.accepted app (move :: moves), other.Fits)
    (room : first + records.length + (engine.accepted app (move :: moves)).length <
      Sequencer.wordSize)
    (gained : engine.gained app move = some record) :
    Honoured config old.length move.asksSync record (engine.run app (move :: moves)) := by
  rw [List.forall_mem_cons] at inside
  rw [accepted, gained, Option.toList_some, List.singleton_append] at fits room
  rw [List.length_cons] at room
  rw [List.forall_mem_cons] at fits
  have faultless : engine.Faultless move := faultless_of_memory inside.1
  have faultless_rest : (engine.move app move).FaultlessRun app moves :=
    faultlessRun_of_memory inside.2
  have fits_gained : ∀ other ∈ engine.gained app move, other.Fits := by
    rw [gained]
    rintro _ ⟨⟩
    exact fits.1
  have room_gained : first + records.length + (engine.gained app move).toList.length <
      Sequencer.wordSize := by
    rw [gained, Option.toList_some, List.length_singleton]
    omega
  obtain ⟨added, moved⟩ := logs.move faultless fits_gained room_gained
  rw [gained, Option.toList_some] at moved
  have lsn_eq := moved.sequenced.lsn_of_concat
  have room_rest : first + (records ++ [record]).length +
      ((engine.move app move).accepted app moves).length < Sequencer.wordSize := by
    rw [List.length_append, List.length_singleton]
    omega
  obtain ⟨more, ran⟩ := moved.run faultless_rest fits.2 room_rest
  have member : record ∈ records ++ [record] ++ (engine.move app move).accepted app moves :=
    List.mem_append_left _ (List.mem_append_right _ (List.mem_singleton.mpr rfl))
  have requested : move.asksSync = true →
      Marked (Asking record.lsn) (engine.move app move).chain.windows := by
    intro asks
    refine logs.marked_move faultless ?_ fun _ _ _ => asks
    refine marked.mono fun other sync held _ same => ?_
    have := logs.sequenced.lsn_lt ((logs.sequenced.holds other).mp held)
    omega
  constructor
  · intro asks
    refine (moved.marked_run (requested asks) faultless_rest fits.2 room_rest ?_).flagged
      ran.sequenced.sound.linked ((ran.sequenced.holds record).mpr member)
    intro other later sync same
    have := ((Record.consecutive_append.mp ran.sequenced.consecutive).2.bounds later).1
    rw [List.length_append, List.length_singleton] at this
    omega
  · intro asks reached
    have promised : Promised config first old record.lsn (written ++ added)
        (engine.move app move) :=
      logs.promised gained lsn_eq (asks.symm.imp_right requested)
    obtain ⟨_, ran, kept⟩ := promised.run moved
      (by rw [List.length_append, List.length_singleton]; omega) inside.2 fits.2 room_rest
    exact kept.secures ran member reached

/-- A sync request is honoured. In a chain, whatever is called on it and on its
windows: each record that was appended with a request lies in a window that was asked
for a sync. In an engine in memory, whatever is asked of it, and wherever the writer
takes its steps: so it is there, and once the watermark has reached a record that was
appended with a request, or to a log that syncs every write, the record is in the
synced regions behind those that the engine found, and survives the loss of the
others. -/
theorem honoured_run (app : Application α σ) :
    (∀ (first capacity poolLimit : Nat) (front back : List Chain.Call) (call : Chain.Call)
      (record : Record), call.asksSync = true →
      (((Chain.History.start (.create first capacity poolLimit)).run front).chain.call call).1 =
        some record →
      Flagged ((Chain.History.start (.create first capacity poolLimit)).run
        (front ++ call :: back)).chain.windows record) ∧
    ∀ (schedule : Recovery.Schedule) (config : Config) (options : RecoveryOptions)
      (device : MemoryDevice) (state : σ) (report : RecoveryReport)
      (engine : Engine σ MemoryDevice) (front back : List (Move α MemoryDevice))
      (move : Move α MemoryDevice) (record : Record),
      openUnder schedule app config options device state = .ok (report, engine) →
      (∀ other ∈ front ++ move :: back, other.Inside) →
      (∀ other ∈ engine.accepted app (front ++ move :: back), other.Fits) →
      report.nextLsn + (engine.accepted app (front ++ move :: back)).length <
        Sequencer.wordSize →
      (engine.run app front).gained app move = some record →
      Honoured config device.disk.regions.length move.asksSync record
        (engine.run app (front ++ move :: back)) := by
  refine ⟨fun first capacity poolLimit front back call record asks accepted =>
    Chain.History.flagged_run first capacity poolLimit front back asks accepted, ?_⟩
  intro schedule config options device state report engine front back move record opened inside
    fits room gained
  rw [List.forall_mem_append] at inside
  rw [accepted_append] at fits room
  rw [List.forall_mem_append] at fits
  rw [List.length_append] at room
  have opening := logs_of_open trivial device.reads opened
  have faultless : engine.FaultlessRun app front := faultlessRun_of_memory inside.1
  have room_front : report.nextLsn + ([] : List Record).length +
      (engine.accepted app front).length < Sequencer.wordSize := by
    rw [List.length_nil]
    omega
  obtain ⟨written, logs⟩ := opening.run faultless fits.1 room_front
  have marked : Marked (fun _ _ => True) (engine.run app front).chain.windows := by
    refine opening.marked_run ?_ faultless fits.1 room_front fun _ _ _ => trivial
    rcases recovered_of_open opened with ⟨_, rfl⟩
    exact Chain.marked_create _ _ _
  rw [run_append]
  exact logs.honoured marked inside.2 fits.2 (by rw [List.nil_append]; omega) gained

/-- The second of three probes asks for a sync; the third one comes when the writer has
collected the first two. -/
def asking : List (Move Probe.Action MemoryDevice) :=
  [.append ⟨7, 0, 0, none, none, []⟩ false, .append ⟨8, 0, 0, none, none, []⟩ true, .collect,
    .append ⟨9, 0, 0, none, none, []⟩ false, .write]

/-- The record of a probe, with the number `lsn`. -/
def probeRecord (lsn id : Nat) : Record :=
  ⟨lsn, 100, Entry.plainTag :: (Bytes.ofNat 8 id ++ Bytes.ofNat 8 0 ++ [0])⟩

/-- An engine for probes on a new memory device. -/
def forProbesInMemory : Engine Probe.Journal MemoryDevice :=
  .resume .standard (.initial none Lsn.first) (.onDisk .empty) .empty

theorem accepted_asking : forProbesInMemory.accepted Probe.app asking =
    [probeRecord 100 7, probeRecord 101 8, probeRecord 102 9] := by
  decide +kernel

/-- A record that goes on to a second window, and one that the writer has written. -/
theorem honoured_run_asking :
    Flagged ((Chain.History.start (.create 100 4 0)).run
        [.append (probeRecord 101 8) true, .closeAt 0 100]).chain.windows (probeRecord 101 8) ∧
      (forProbesInMemory.run Probe.app asking).durable = 101 ∧
      (forProbesInMemory.run Probe.app asking).device.disk.Secures 0 (probeRecord 101 8) := by
  have in_chain := (honoured_run Probe.app).1 100 4 0 [] [.closeAt 0 100]
    (.append (probeRecord 101 8) true) (probeRecord 101 8) rfl (by decide +kernel)
  have opened : openUnder .late Probe.app .standard {} (.onDisk .empty : MemoryDevice) .empty =
      .ok (.initial none Lsn.first, forProbesInMemory) := rfl
  have inside : ∀ other ∈ asking, other.Inside := by
    simp [asking, Move.Inside]
  have fits : ∀ other ∈ forProbesInMemory.accepted Probe.app asking, other.Fits := by
    rw [accepted_asking]
    simp only [List.forall_mem_cons]
    exact ⟨⟨by decide, by decide, by decide⟩, ⟨by decide, by decide, by decide⟩,
      ⟨by decide, by decide, by decide⟩, by simp⟩
  have room : (RecoveryReport.initial none Lsn.first).nextLsn +
      (forProbesInMemory.accepted Probe.app asking).length < Sequencer.wordSize := by
    rw [accepted_asking]
    decide
  have gained : (forProbesInMemory.run Probe.app (asking.take 1)).gained Probe.app
      (.append ⟨8, 0, 0, none, none, []⟩ true : Move Probe.Action MemoryDevice) =
        some (probeRecord 101 8) := by
    decide +kernel
  have reached : (forProbesInMemory.run Probe.app asking).durable = 101 := by
    decide +kernel
  have honoured := (honoured_run Probe.app).2 .late .standard {} (.onDisk .empty) .empty
    (.initial none Lsn.first) forProbesInMemory (asking.take 1) (asking.drop 2)
    (.append ⟨8, 0, 0, none, none, []⟩ true) (probeRecord 101 8) opened
  have split : asking.take 1 ++ .append ⟨8, 0, 0, none, none, []⟩ true :: asking.drop 2 = asking :=
    rfl
  rw [split] at honoured
  exact ⟨in_chain, reached,
    (honoured inside fits room gained).secured (.inl rfl) (Nat.le_of_eq reached.symm)⟩

end InMemory

end Engine

end Logbook

import Logbook.Proofs.Engine.Promised
import Logbook.Proofs.Engine.Quiet
import Logbook.Proofs.Entry
import Logbook.Proofs.Recovery.Committed

/-!
# Transactions over the lives of a log

A log is opened on a device again and again, and each time its transactions get
numbers from where recovery says the log was left. Recovery only says so of the
records that it has scanned. Where the scan covers every record that names a
transaction, no number is handed out twice, and a member that is replayed at any later
time belongs to a transaction that was committed in the life in which it was begun.
-/

namespace Logbook

/-- The entry of the record names a transaction. -/
def Record.Names {α σ : Type} (app : Application α σ) (record : Record) (txn : Nat) : Prop :=
  ∃ entry, Entry.decode app record.payload = .ok entry ∧ entry.txn? = some txn

/-- A region of the device holds the record, for a reader of all formats. -/
def Device.Holds {δ : Type} [Device δ] (device : δ) (record : Record) : Prop :=
  ∃ chunks chunk records, Device.Reads device chunks ∧ chunk ∈ chunks ∧
    Region.unpack chunk.lsn .auto chunk.bytes = .ok records ∧ record ∈ records

theorem Device.holds_iff {δ : Type} [Device δ] {device : δ} {chunks : List Chunk}
    {parts : List (List Record)} (reads : Device.Reads device chunks)
    (unpacks : Unpacks .auto chunks parts) (record : Record) :
    Device.Holds device record ↔ record ∈ parts.flatten := by
  rw [List.mem_flatten]
  constructor
  · rintro ⟨chunks', chunk, records, reads', member, unpacked, inside⟩
    cases reads'.unique reads
    exact ⟨records, unpacks.mem member unpacked, inside⟩
  · rintro ⟨records, member, inside⟩
    have found : (.ok records : Except LogError (List Record)) ∈
        chunks.map fun chunk => Region.unpack chunk.lsn .auto chunk.bytes := by
      rw [unpacks]
      exact List.mem_map.mpr ⟨records, member, rfl⟩
    rcases List.mem_map.mp found with ⟨chunk, member, unpacked⟩
    exact ⟨chunks, chunk, records, reads, member, unpacked, inside⟩

/-- The transaction that a move refers to. -/
def Move.txn? {α δ : Type} : Move α δ → Option Nat
  | .appendMember txn _ | .commit txn _ => some txn
  | _ => none

namespace Engine

section Begun

variable {α σ δ : Type} [Device δ] {app : Application α σ} {engine : Engine σ δ}

/-- Producers refer only to transactions that this engine has begun, whose numbers are
from `first` on. -/
def Begun (app : Application α σ) (first : Nat) (engine : Engine σ δ) :
    List (Move α δ) → Prop
  | [] => True
  | move :: moves =>
      (∀ txn, move.txn? = some txn → first ≤ txn ∧ txn < engine.nextTxn) ∧
        (engine.move app move).Begun app first moves

theorem nextTxn_le_move (app : Application α σ) (engine : Engine σ δ) (move : Move α δ) :
    engine.nextTxn ≤ (engine.move app move).nextTxn := by
  have quiet : ∀ move : Move α δ, move.Quiet →
      engine.nextTxn ≤ (engine.move app move).nextTxn := by
    intro move quiet
    rcases quiet_frame app engine quiet with ⟨_, _, _, _, moved⟩
    exact Nat.le_of_eq (congrArg Engine.nextTxn moved).symm
  have logging : ∀ entry sync, engine.nextTxn ≤ (engine.log app entry sync).2.nextTxn := by
    intro entry sync
    rcases log_frame app engine entry sync with ⟨_, _, _, logged⟩
    exact Nat.le_of_eq (congrArg Engine.nextTxn logged).symm
  cases move with
  | append | appendMember | commit => exact logging _ _
  | beginTransaction => exact Nat.le_succ _
  | closeBarrier | collect | write | finish => exact quiet _ trivial
  | setLowestLive | requestStop | onDevice => exact Nat.le_refl _

/-- Numbers of transactions only go up. -/
theorem nextTxn_le_run (app : Application α σ) (engine : Engine σ δ) (moves : List (Move α δ)) :
    engine.nextTxn ≤ (engine.run app moves).nextTxn := by
  induction moves generalizing engine with
  | nil => exact Nat.le_refl _
  | cons move moves ih => exact Nat.le_trans (nextTxn_le_move app engine move) (ih _)

omit [Device δ] in
theorem encode_of_logged {entry : Entry α} {sync : Bool} {record : Record}
    (logged : engine.logged app entry sync = some record) :
    entry.encode app = .ok record.payload := by
  have encoded : ∀ lsn, (entry.encode app).toOption.map (Record.mk lsn engine.lowestLive) =
      some record → entry.encode app = .ok record.payload := by
    intro lsn made
    cases result : entry.encode app with
    | error cause =>
        rw [result] at made
        cases made
    | ok payload =>
        rw [result] at made
        cases made
        rfl
  unfold Engine.logged at logged
  split at logged
  · exact encoded _ logged
  · exact encoded _ logged
  · cases logged

omit [Device δ] in
/-- The record that a move adds carries the entry of the move, with its transaction. -/
theorem exists_entry_of_gained {move : Move α δ} {record : Record}
    (gained : engine.gained app move = some record) :
    ∃ entry, move.entry? = some entry ∧ entry.encode app = .ok record.payload ∧
      entry.txn? = move.txn? := by
  cases move with
  | append action => exact ⟨.plain action, rfl, encode_of_logged gained, rfl⟩
  | appendMember txn action => exact ⟨.member txn action, rfl, encode_of_logged gained, rfl⟩
  | commit txn => exact ⟨.commit txn, rfl, encode_of_logged gained, rfl⟩
  | beginTransaction | setLowestLive | closeBarrier | requestStop | collect | write | finish
  | onDevice => cases gained

/-- The records that a run adds carry entries of its moves. -/
theorem exists_entry_of_accepted {moves : List (Move α δ)} {record : Record}
    (added : record ∈ engine.accepted app moves) :
    ∃ move ∈ moves, ∃ entry, move.entry? = some entry ∧ entry.encode app = .ok record.payload := by
  induction moves generalizing engine with
  | nil => cases added
  | cons move moves ih =>
      rcases List.mem_append.mp added with here | later
      · rcases exists_entry_of_gained (Option.mem_toList.mp here) with ⟨entry, offers, encoded, _⟩
        exact ⟨move, List.mem_cons_self, entry, offers, encoded⟩
      · rcases ih later with ⟨other, member, carried⟩
        exact ⟨other, List.mem_cons_of_mem _ member, carried⟩

/-- Records that are added name transactions that were begun here. -/
theorem le_of_names {first : Nat} {moves : List (Move α δ)}
    (begun : engine.Begun app first moves)
    (room : (engine.run app moves).nextTxn ≤ Sequencer.wordSize) {record : Record}
    (added : record ∈ engine.accepted app moves) {txn : Nat} (names : record.Names app txn) :
    first ≤ txn := by
  induction moves generalizing engine with
  | nil => cases added
  | cons move moves ih =>
      rcases List.mem_append.mp added with here | later
      · rcases exists_entry_of_gained (Option.mem_toList.mp here) with ⟨entry, _, encoded, same⟩
        have refers : ∀ txn, entry.txn? = some txn → first ≤ txn ∧ txn < engine.nextTxn :=
          same ▸ begun.1
        have fits : ∀ txn, entry.txn? = some txn → txn < Sequencer.wordSize := by
          intro txn named
          have := (refers txn named).2
          have := nextTxn_le_run app engine (move :: moves)
          omega
        rcases names with ⟨read, decoded, named⟩
        rw [Entry.txn?_of_decode encoded fits decoded] at named
        exact (refers txn named).1
      · exact ih begun.2 room later

end Begun

section Lineage

variable {α σ δ : Type} [Device δ] [Device.Reliable δ] {app : Application α σ}

/-- A life of a log on a device: an engine is opened, and works through some moves of
producers and of the writer, the last of which may be those of a shutdown. The scan of
the opening goes as far down as the newest transaction that the device names. -/
structure Life (app : Application α σ) (device : δ) (report : RecoveryReport)
    (engine : Engine σ δ) (moves : List (Move α δ)) : Prop where
  opened : ∃ schedule config options state,
    openUnder schedule app config options device state = .ok (report, engine)
  covered : ∀ record txn, Device.Holds device record → record.Names app txn →
    ∃ other newest, Device.Holds device other ∧ other.Names app newest ∧ txn ≤ newest ∧
      report.boundary ≤ other.lsn
  begun : engine.Begun app report.nextTxn moves
  faultless : engine.FaultlessRun app moves
  fits : ∀ record ∈ engine.accepted app moves, record.Fits
  room : report.nextLsn + (engine.accepted app moves).length < Sequencer.wordSize
  txns : (engine.run app moves).nextTxn ≤ Sequencer.wordSize

/-- The device `after` is what reopening `before` gives, with the regions that were there. -/
def Reopens (before after : δ) : Prop :=
  Device.Reliable.Intact after ∧ ∀ chunks, Device.Reads before chunks → Device.Reads after chunks

/-- The lives of a log that began on the device `first`, with the records that each of
them has logged, and the device as the next one finds it. -/
inductive Lineage (app : Application α σ) (first : δ) : List (List Record) → δ → Prop where
  | new : Lineage app first [] first
  | lived {logs : List (List Record)} {device after : δ} {report : RecoveryReport}
      {engine : Engine σ δ} {moves : List (Move α δ)}
      (before : Lineage app first logs device) (life : Life app device report engine moves)
      (reopens : Reopens (engine.run app moves).device after) :
      Lineage app first (logs ++ [engine.accepted app moves]) after

/-- What a life finds: the records of those before it, as far as the device has them,
with the transactions of a later one above those of an earlier one. -/
structure Inherits (app : Application α σ) (logs : List (List Record)) (device : δ)
    (chunks : List Chunk) (parts kept : List (List Record)) : Prop where
  intact : Device.Reliable.Intact device
  reads : Device.Reads device chunks
  unpacks : Unpacks .auto chunks parts
  consecutive : Record.Consecutive Lsn.first parts.flatten
  kept_eq : kept.flatten = parts.flatten
  logged : ∀ part ∈ kept, ∃ log ∈ logs, part ⊆ log
  ascending : kept.Pairwise fun earlier later => ∀ record ∈ earlier, ∀ other ∈ later,
    ∀ txn txn', record.Names app txn → other.Names app txn' → txn < txn'

namespace Inherits

variable {logs : List (List Record)} {device : δ} {chunks : List Chunk}
  {parts kept : List (List Record)} {report : RecoveryReport} {engine : Engine σ δ}
  {moves : List (Move α δ)}

theorem holds_iff (inherits : Inherits app logs device chunks parts kept) (record : Record) :
    Device.Holds device record ↔ record ∈ parts.flatten :=
  Device.holds_iff inherits.reads inherits.unpacks record

/-- Numbers go on where those of the device end. -/
theorem nextLsn_eq (inherits : Inherits app logs device chunks parts kept)
    (life : Life app device report engine moves) :
    report.nextLsn = Lsn.first + parts.flatten.length := by
  rcases life.opened with ⟨schedule, config, options, state, opened⟩
  have recovered := (recovered_of_open opened).1
  rw [inherits.reads] at recovered
  have highest := Recovery.highest_of_recoverWith recovered
  by_cases none : chunks = []
  · subst chunks
    cases List.map_eq_nil_iff.mp inherits.unpacks.symm
    rw [RecoveryReport.nextLsn, highest]
    rfl
  · rcases inherits.unpacks.newest inherits.consecutive none with ⟨newest, found, newest_eq⟩
    rw [RecoveryReport.nextLsn, highest, found]
    exact newest_eq

/-- An engine begins transactions above all that the device names. -/
theorem txn_lt (inherits : Inherits app logs device chunks parts kept)
    (life : Life app device report engine moves) {record : Record}
    (held : Device.Holds device record) {txn : Nat} (names : record.Names app txn) :
    txn < report.nextTxn := by
  rcases life.opened with ⟨schedule, config, options, state, opened⟩
  have recovered := (recovered_of_open opened).1
  rw [inherits.reads] at recovered
  rcases life.covered record txn held names with
    ⟨other, newest, held, ⟨entry, decoded, named⟩, le, above⟩
  exact Nat.lt_of_le_of_lt le (Recovery.txn_lt_of_recovered recovered inherits.unpacks
    inherits.consecutive ((inherits.holds_iff other).mp held) above decoded named)

/-- A life leaves its records behind those that it found. -/
theorem lived (inherits : Inherits app logs device chunks parts kept)
    (life : Life app device report engine moves) {after : δ}
    (reopens : Reopens (engine.run app moves).device after) :
    ∃ chunks' parts' kept',
      Inherits app (logs ++ [engine.accepted app moves]) after chunks' parts' kept' := by
  have nextLsn_eq := inherits.nextLsn_eq life
  rcases life.opened with ⟨schedule, config, options, state, opened⟩
  have opening := logs_of_open inherits.intact inherits.reads opened
  rcases opening.run life.faultless life.fits (by simpa using life.room) with ⟨written, logged⟩
  rw [List.nil_append, List.nil_append] at logged
  rcases logged with ⟨queued, pending, accepted_eq, delivering, _⟩
  have cut : Piece.Cut .auto report.nextLsn written := delivering.cut trivial
  have inside : ∀ record ∈ written.flatMap Piece.records, record ∈ engine.accepted app moves := by
    intro record member
    rw [← accepted_eq]
    exact List.mem_append_left _ member
  refine ⟨chunks ++ written.map Piece.chunk, parts ++ written.map Piece.records,
    kept ++ [written.flatMap Piece.records], ?_⟩
  constructor
  · exact reopens.1
  · exact reopens.2 _ delivering.reads
  · exact inherits.unpacks.append (cut.unpacks delivering.formats)
  · rw [List.flatten_append, ← List.flatMap_def]
    refine Record.consecutive_append.mpr ⟨inherits.consecutive, ?_⟩
    rw [← nextLsn_eq]
    exact cut.consecutive
  · rw [List.flatten_append, List.flatten_append, List.flatten_singleton, inherits.kept_eq,
      ← List.flatMap_def]
  · intro part member
    rcases List.mem_append.mp member with old | new
    · rcases inherits.logged part old with ⟨log, is_log, contained⟩
      exact ⟨log, List.mem_append_left _ is_log, contained⟩
    · cases List.mem_singleton.mp new
      exact ⟨_, List.mem_append_right _ (List.mem_singleton_self _), inside⟩
  · refine List.pairwise_append.mpr ⟨inherits.ascending, List.pairwise_singleton _ _, ?_⟩
    intro earlier old later new record first other last txn txn' names names'
    cases List.mem_singleton.mp new
    have held : Device.Holds device record := by
      rw [inherits.holds_iff, ← inherits.kept_eq]
      exact List.mem_flatten_of_mem old first
    exact Nat.lt_of_lt_of_le (inherits.txn_lt life held names)
      (le_of_names life.begun life.txns (inside other last) names')

end Inherits

/-- Every life finds what those before it have left. -/
theorem Lineage.inherits {first last : δ} {logs : List (List Record)}
    (intact : Device.Reliable.Intact first) (fresh : Device.Reads first [])
    (lineage : Lineage app first logs last) :
    ∃ chunks parts kept, Inherits app logs last chunks parts kept := by
  induction lineage with
  | new =>
      exact ⟨[], [], [], intact, fresh, rfl, Record.consecutive_nil _, rfl, nofun, .nil⟩
  | lived before life reopens ih =>
      rcases ih with ⟨chunks, parts, kept, inherits⟩
      exact inherits.lived life reopens

/-- The commit of a transaction is from the life of its members. -/
theorem Inherits.same_log {logs : List (List Record)} {device : δ} {chunks : List Chunk}
    {parts kept : List (List Record)} (inherits : Inherits app logs device chunks parts kept)
    {record other : Record} (held : record ∈ parts.flatten) (held' : other ∈ parts.flatten)
    {txn : Nat} (names : record.Names app txn) (names' : other.Names app txn) :
    ∃ log ∈ logs, record ∈ log ∧ other ∈ log := by
  rw [← inherits.kept_eq, List.mem_flatten] at held held'
  rcases held with ⟨part, is_part, inside⟩
  rcases held' with ⟨part', is_part', inside'⟩
  rcases List.getElem_of_mem is_part with ⟨place, here, rfl⟩
  rcases List.getElem_of_mem is_part' with ⟨place', here', rfl⟩
  have ascending := List.pairwise_iff_getElem.mp inherits.ascending
  rcases Nat.lt_trichotomy place place' with lt | rfl | gt
  · have := ascending place place' here here' lt record inside other inside' txn txn names names'
    omega
  · rcases inherits.logged _ is_part with ⟨log, is_log, contained⟩
    exact ⟨log, is_log, contained inside, contained inside'⟩
  · have := ascending place' place here' here gt other inside' record inside txn txn names' names
    omega

/-- A log is opened on a new device, shut down and opened again as often as one likes. If
each opening scans down to the newest transaction that the device names, then no
transaction gets a number that the device names. A recovery that comes then replays only
records of some life, and members only of transactions that the same life committed
later on. -/
theorem transactions_not_reused {first last : δ} {logs : List (List Record)}
    (intact : Device.Reliable.Intact first) (fresh : Device.Reads first [])
    (lineage : Lineage app first logs last) :
    (∀ (report : RecoveryReport) (engine : Engine σ δ) (front back : List (Move α δ)),
      Life app last report engine (front ++ .beginTransaction :: back) →
      ∀ record, Device.Holds last record →
        ¬ record.Names app (engine.run app front).beginTransaction.1.id) ∧
    ∀ (schedule : Recovery.Schedule) (config : Config) (options : RecoveryOptions) (state : σ)
      (report : RecoveryReport) (job : Recovery.Job α),
      (Recovery.recoverWith app schedule config options (Device.newestFirst last) state).outcome =
        .ok report →
      .replayed job ∈ (Recovery.recoverWith app schedule config options
        (Device.newestFirst last) state).uses →
      ∃ log ∈ logs, ∃ record ∈ log, Device.Holds last record ∧ record.lsn = job.lsn ∧
        ∃ entry, Entry.decode app record.payload = .ok entry ∧
          entry.action? = some job.action ∧
          ∀ txn, entry = .member txn job.action → ∃ commit ∈ log,
            Device.Holds last commit ∧ job.lsn < commit.lsn ∧
              Entry.decode app commit.payload = .ok (.commit txn) := by
  rcases lineage.inherits intact fresh with ⟨chunks, parts, kept, inherits⟩
  constructor
  · intro report engine front back life record held names
    have lt := inherits.txn_lt life held names
    have resumed : engine.nextTxn = report.nextTxn := by
      rcases life.opened with ⟨schedule, config, options, state, opened⟩
      rw [(recovered_of_open opened).2]
      rfl
    have le := nextTxn_le_run app engine front
    rw [resumed] at le
    exact absurd (Nat.lt_of_lt_of_le lt le) (Nat.lt_irrefl _)
  · intro schedule config options state report job recovered replayed
    rw [inherits.reads] at recovered replayed
    rcases Recovery.committed_of_replayed recovered inherits.unpacks inherits.consecutive replayed
      with ⟨record, held, lsn_eq, entry, decoded, has_action, commits⟩
    have is_held := (inherits.holds_iff record).mpr held
    by_cases is_member : ∃ txn, entry = .member txn job.action
    · rcases is_member with ⟨txn, rfl⟩
      rcases commits txn rfl with ⟨commit, held', after, committed⟩
      rcases inherits.same_log held held' ⟨_, decoded, rfl⟩ ⟨_, committed, rfl⟩ with
        ⟨log, is_log, inside, inside'⟩
      refine ⟨log, is_log, record, inside, is_held, lsn_eq, _, decoded, has_action, ?_⟩
      intro txn' same
      cases same
      exact ⟨commit, inside', (inherits.holds_iff commit).mpr held', after, committed⟩
    · rw [← inherits.kept_eq, List.mem_flatten] at held
      rcases held with ⟨part, is_part, inside⟩
      rcases inherits.logged part is_part with ⟨log, is_log, contained⟩
      exact ⟨log, is_log, record, contained inside, is_held, lsn_eq, entry, decoded, has_action,
        fun txn same => absurd ⟨txn, same⟩ is_member⟩

/-- A scan down to the first number covers everything. -/
theorem Inherits.covered {logs : List (List Record)} {device : δ} {chunks : List Chunk}
    {parts kept : List (List Record)} (inherits : Inherits app logs device chunks parts kept)
    {boundary : Nat} (le : boundary ≤ Lsn.first) (record : Record) (txn : Nat)
    (held : Device.Holds device record) (names : record.Names app txn) :
    ∃ other newest, Device.Holds device other ∧ other.Names app newest ∧ txn ≤ newest ∧
      boundary ≤ other.lsn := by
  have bounds := inherits.consecutive.bounds ((inherits.holds_iff record).mp held)
  exact ⟨record, txn, held, names, Nat.le_refl txn, Nat.le_trans le bounds.1⟩

end Lineage

/-! ### Logs of two lives -/

/-- A member of the first transaction, with the number 100. -/
def firstMember : Record :=
  ⟨100, 100, Entry.memberTag :: (Bytes.ofNat 8 1 ++ Bytes.ofNat 8 7 ++ Bytes.ofNat 8 0 ++ [0])⟩

theorem decode_firstMember : Entry.decode Probe.app firstMember.payload =
    .ok (.member 1 ⟨7, 0, 0, none, none, []⟩) :=
  rfl

/-- A transaction with one member is committed, and the log is shut down. -/
def committing : List (Move Probe.Action MemoryDevice) :=
  [.beginTransaction, .appendMember 1 ⟨7, 0, 0, none, none, []⟩, .commit 1 false, .requestStop,
    .collect, .write, .collect, .finish]

/-- The device that this leaves. -/
def committed : MemoryDevice := (forProbesInMemory.run Probe.app committing).device

/-- What recovery makes of it. -/
def recoveredCommitted : Recovery.Result Probe.Action Probe.Journal :=
  Recovery.recoverWith Probe.app .late .standard {} (Device.newestFirst committed) .empty

/-- What it reports. -/
def reportCommitted : RecoveryReport :=
  { RecoveryReport.initial (some 101) 100 with
    lowest := some 100, regions := 1, scanned := 2, replayed := 1, maxTxn := some 1 }

theorem accepted_committing : forProbesInMemory.accepted Probe.app committing =
    [firstMember, ⟨101, 100, Entry.commitTag :: Bytes.ofNat 8 1⟩] := by
  decide +kernel

theorem life_committing : Life Probe.app (.onDisk .empty) (.initial none Lsn.first)
    forProbesInMemory committing := by
  refine ⟨⟨.late, .standard, {}, .empty, rfl⟩, ?_, ?_, ?_, ?_, ?_, by decide +kernel⟩
  · intro record txn held
    have fresh : Device.Reads (MemoryDevice.onDisk .empty) [] := MemoryDevice.reads _
    have unpacks : Unpacks .auto [] [] := rfl
    rw [Device.holds_iff fresh unpacks] at held
    cases held
  · refine ⟨nofun, ?_, ?_, nofun, nofun, nofun, nofun, nofun, trivial⟩
    · rintro _ ⟨⟩
      decide +kernel
    · rintro _ ⟨⟩
      decide +kernel
  · refine faultlessRun_of_memory ?_
    simp [committing, Move.Inside]
  · rw [accepted_committing]
    simp only [List.forall_mem_cons]
    exact ⟨⟨by decide, by decide, by decide⟩, ⟨by decide, by decide, by decide⟩, by simp⟩
  · rw [accepted_committing]
    decide

theorem lineage_committing : Lineage Probe.app (.onDisk .empty)
    [forProbesInMemory.accepted Probe.app committing] committed :=
  .lived .new life_committing ⟨trivial, fun _ => id⟩

theorem life_reopened : Life Probe.app committed reportCommitted
    (.resume .standard reportCommitted committed recoveredCommitted.state)
    [(.beginTransaction : Move Probe.Action MemoryDevice)] := by
  have recovered : recoveredCommitted.outcome = .ok reportCommitted := by
    decide +kernel
  rcases lineage_committing.inherits trivial (MemoryDevice.reads _) with ⟨_, _, _, inherits⟩
  exact {
    opened := ⟨.late, .standard, {}, .empty, open_of_recovered rfl recovered⟩
    covered := inherits.covered (by decide)
    begun := ⟨nofun, trivial⟩
    faultless := faultlessRun_of_memory (by simp [Move.Inside])
    fits := nofun
    room := by decide
    txns := by decide }

/-- The second life begins with another number, and the member that is replayed has its
commit behind it. -/
theorem transactions_not_reused_committing :
    (∀ record, Device.Holds committed record → ¬ record.Names Probe.app 2) ∧
      .replayed ⟨⟨7, 0, 0, none, none, []⟩, 100⟩ ∈ recoveredCommitted.uses ∧
      ∃ commit ∈ forProbesInMemory.accepted Probe.app committing,
        Device.Holds committed commit ∧ 100 < commit.lsn ∧
          Entry.decode Probe.app commit.payload = .ok (.commit 1) := by
  have ⟨fresh, committed⟩ := transactions_not_reused trivial (MemoryDevice.reads _)
    lineage_committing
  have replayed : .replayed ⟨⟨7, 0, 0, none, none, []⟩, 100⟩ ∈ recoveredCommitted.uses := by
    decide +kernel
  refine ⟨fresh reportCommitted _ [] [] life_reopened, replayed, ?_⟩
  rcases committed .late .standard {} .empty reportCommitted _ (by decide +kernel) replayed with
    ⟨log, is_log, record, inside, _, lsn_eq, entry, decoded, _, commits⟩
  cases List.mem_singleton.mp is_log
  have record_eq : record = firstMember := by
    rw [accepted_committing] at inside
    rcases List.mem_cons.mp inside with rfl | rest
    · rfl
    · cases List.mem_singleton.mp rest
      cases lsn_eq
  rw [record_eq, decode_firstMember] at decoded
  cases decoded
  exact commits 1 rfl

/-- A transaction with one member is given up, the lowest live number goes above it, and
the log is shut down. -/
def forgetting : List (Move Probe.Action MemoryDevice) :=
  [.beginTransaction, .appendMember 1 ⟨7, 0, 0, none, none, []⟩, .setLowestLive 101,
    .append ⟨8, 0, 0, none, none, []⟩ false, .requestStop, .collect, .write, .collect, .finish]

theorem accepted_forgetting : forProbesInMemory.accepted Probe.app forgetting =
    [firstMember, ⟨101, 101, (probeRecord 101 8).payload⟩] := by
  decide +kernel

/-- The device that this leaves. -/
def forgotten : MemoryDevice := (forProbesInMemory.run Probe.app forgetting).device

/-- The member is still there. -/
theorem holds_forgotten : Device.Holds forgotten firstMember := by
  have unpacked : forgotten.disk.regions.map
      (fun chunk => (Region.unpack chunk.lsn .auto chunk.bytes).toOption) =
      [some [firstMember, ⟨101, 101, (probeRecord 101 8).payload⟩]] := by
    decide +kernel
  rcases List.map_eq_singleton_iff.mp unpacked with ⟨chunk, regions_eq, found⟩
  cases result : Region.unpack chunk.lsn .auto chunk.bytes with
  | error cause =>
      rw [result] at found
      cases found
  | ok records =>
      rw [result] at found
      cases found
      refine ⟨_, chunk, _, forgotten.reads, ?_, result, List.mem_cons_self⟩
      rw [regions_eq]
      exact List.mem_singleton_self chunk

/-- What recovery makes of it. -/
def recoveredForgotten : Recovery.Result Probe.Action Probe.Journal :=
  Recovery.recoverWith Probe.app .late .standard {} (Device.newestFirst forgotten) .empty

/-- What it reports: the scan ends before the member. -/
def reportForgotten : RecoveryReport :=
  { RecoveryReport.initial (some 101) 101 with
    lowest := some 101, regions := 1, scanned := 1, replayed := 1 }

/-- The second life: a transaction without members is committed. -/
def reviving : List (Move Probe.Action MemoryDevice) :=
  [.beginTransaction, .commit 1 false, .requestStop, .collect, .write, .collect, .finish]

/-- Where the scan of an opening ends above a transaction, its number comes again, and a
commit under that number has the forgotten member replayed by a recovery from further
down. -/
theorem transaction_reused :
    ∃ engine, openUnder .late Probe.app .standard {} forgotten .empty =
        .ok (reportForgotten, engine) ∧
      (∃ record, Device.Holds forgotten record ∧
        record.Names Probe.app engine.beginTransaction.1.id) ∧
      (∀ record ∈ forProbesInMemory.accepted Probe.app forgetting,
        Entry.decode Probe.app record.payload ≠ .ok (.commit 1)) ∧
      .replayed ⟨⟨7, 0, 0, none, none, []⟩, 100⟩ ∈
        (Recovery.recoverWith Probe.app .late .standard ⟨some 100⟩
          (Device.newestFirst (engine.run Probe.app reviving).device) .empty).uses := by
  have recovered : recoveredForgotten.outcome = .ok reportForgotten := by
    decide +kernel
  refine ⟨_, open_of_recovered rfl recovered, ?_, ?_, ?_⟩
  · exact ⟨firstMember, holds_forgotten, _, decode_firstMember, rfl⟩
  · rw [accepted_forgetting]
    simp only [List.forall_mem_cons]
    exact ⟨nofun, nofun, nofun⟩
  · decide +kernel

end Engine

end Logbook

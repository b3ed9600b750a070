import Logbook.Proofs.Engine.Continued

/-!
# Opening a log again

A log is written in the current format, whatever its settings are, and a reader takes
the formats that its settings admit. So a log that was begun on an empty device and shut
down well is opened again under the settings that wrote it, and found to end where it
did, unless these admit the legacy format only: then its newest region is refused.
-/

namespace Logbook

/-- The region of the last piece has the number of the last record. -/
theorem Piece.Cut.exists_newest {policy : FormatPolicy} {first : Nat} {pieces : List Piece}
    (cut : Piece.Cut policy first pieces) {newest : Record}
    (found : (pieces.flatMap Piece.records).getLast? = some newest) :
    ∃ piece, pieces.getLast? = some piece ∧ piece.chunk.lsn = newest.lsn := by
  rcases List.eq_nil_or_concat pieces with rfl | ⟨front, piece, rfl⟩
  · cases found
  rw [List.concat_eq_append] at cut found ⊢
  have last_eq := List.getLast?_eq_some_getLast (cut.some_records piece (by simp))
  rw [List.flatMap_append, List.flatMap_singleton, List.getLast?_append, last_eq] at found
  cases found
  refine ⟨piece, List.getLast?_concat, ?_⟩
  rw [Piece.chunk, last_eq]
  rfl

namespace Engine

variable {α σ δ : Type} [Device δ] {app : Application α σ} {config : Config} {device after : δ}
  {engine : Engine σ δ} {moves : List (Move α δ)}

/-- The records of a run are decoded if the codec reads the actions of their entries. -/
theorem decoded_of_accepted
    (readable : ∀ move ∈ moves, ∀ entry, move.entry? = some entry →
      ∀ action, entry.action? = some action → app.Readable action)
    {record : Record} (added : record ∈ engine.accepted app moves) :
    ∃ entry, Entry.decode app record.payload = .ok entry := by
  rcases exists_entry_of_accepted added with ⟨move, member, entry, offers, encoded⟩
  exact Entry.exists_decode_of_encode encoded (readable move member entry offers)

variable [Device.Reliable δ]

/-- A log is opened on an empty device, the engine works through some moves of producers and
of the writer, and is shut down well. -/
structure Founded (app : Application α σ) (config : Config) (device : δ) (engine : Engine σ δ)
    (moves : List (Move α δ)) : Prop where
  intact : Device.Reliable.Intact device
  empty : Device.Reads device []
  opened : ∃ schedule options state report,
    openUnder schedule app config options device state = .ok (report, engine)
  inside : ∀ move ∈ moves, move.Inside
  fits : ∀ record ∈ engine.accepted app moves, record.Fits
  room : Lsn.first + (engine.accepted app moves).length < Sequencer.wordSize
  running : (engine.run app moves).isOpen = true
  clean : (engine.run app moves).shutdown.1 = some (.ok ())

namespace Founded

theorem valid (founded : Founded app config device engine moves) :
    config.validate = .ok () := by
  rcases founded.opened with ⟨schedule, options, state, report, opened⟩
  exact valid_of_open opened

/-- The device holds all that was logged, in regions of the current format. -/
theorem leaves (founded : Founded app config device engine moves) :
    ∃ pieces, pieces.flatMap Piece.records = engine.accepted app moves ∧
      Piece.Cut .auto Lsn.first pieces ∧ (∀ piece ∈ pieces, piece.format = .current) ∧
      Device.Reads (engine.run app moves).shutdown.2.device (pieces.map Piece.chunk) := by
  rcases founded.opened with ⟨schedule, options, state, report, opened⟩
  have recovered := (recovered_of_open opened).1
  rw [founded.empty] at recovered
  have next_eq : report.nextLsn = Lsn.first := by
    rw [RecoveryReport.nextLsn, Recovery.highest_of_recoverWith recovered]
    rfl
  have left := leaves_of_open founded.intact founded.empty opened founded.inside founded.fits
    (next_eq ▸ founded.room) founded.running founded.clean
  rw [next_eq] at left
  exact left

/-- What was logged is recovered if the settings admit the current format. -/
theorem recovers (founded : Founded app config device engine moves)
    (reopens : Reopens (engine.run app moves).shutdown.2.device after)
    {schedule : Recovery.Schedule} {options : RecoveryOptions} {state final : σ}
    (admits : config.formatPolicy.Admits .current ∨ engine.accepted app moves = [])
    (readable : ∀ move ∈ moves, ∀ entry, move.entry? = some entry →
      ∀ action, entry.action? = some action → app.Readable action)
    (carried : Recovery.Use.carryOutAll app (Recovery.recoverWith app schedule config options
      (Device.newestFirst after) state).uses.reverse state = .ok final) :
    ∃ report, (Recovery.recoverWith app schedule config options (Device.newestFirst after)
        state).outcome = .ok report ∧
      report.highest = (engine.accepted app moves).getLast?.map (·.lsn) := by
  rcases founded.leaves with ⟨pieces, all, cut, formats, left⟩
  have reads : Device.newestFirst after = _ := reopens.2 _ left
  rw [reads, ← List.nil_append (pieces.map Piece.chunk)] at carried ⊢
  cases newest_eq : (engine.accepted app moves).getLast? with
  | none =>
      cases cut.eq_nil (all.trans (List.getLast?_eq_none_iff.mp newest_eq))
      exact ⟨_, rfl, rfl⟩
  | some newest =>
      have admits_current : config.formatPolicy.Admits .current := by
        refine admits.resolve_right fun none => ?_
        rw [none] at newest_eq
        cases newest_eq
      have flatten_eq : (pieces.map Piece.records).flatten = engine.accepted app moves := by
        rw [← List.flatMap_def, all]
      have consecutive : Record.Consecutive Lsn.first (pieces.map Piece.records).flatten := by
        rw [← List.flatMap_def]
        exact cut.consecutive
      rcases Recovery.exists_report_of_unpacks
        ((cut.of_current formats admits_current).unpacks formats) consecutive
        (flatten_eq ▸ newest_eq) (Nat.le_max_right _ _)
        (fun record member _ => decoded_of_accepted readable (flatten_eq ▸ member)) carried with
        ⟨report, recovered⟩
      rcases cut.exists_newest (all ▸ newest_eq) with ⟨piece, is_last, lsn_eq⟩
      refine ⟨report, recovered, ?_⟩
      rw [Recovery.highest_of_recoverWith recovered, List.nil_append, List.getLast?_map, is_last]
      exact congrArg some lsn_eq

/-- A reader of the legacy format refuses the newest region. -/
theorem refuses (founded : Founded app config device engine moves)
    (reopens : Reopens (engine.run app moves).shutdown.2.device after)
    (legacy : config.formatPolicy = .legacy) {newest : Record}
    (newest_eq : (engine.accepted app moves).getLast? = some newest)
    (schedule : Recovery.Schedule) (options : RecoveryOptions) (state : σ) :
    (Recovery.recoverWith app schedule config options (Device.newestFirst after) state).outcome =
      .failed (.integrity newest.lsn (.versionRefused RegionFormat.current.version .legacy)) := by
  rcases founded.leaves with ⟨pieces, all, cut, formats, left⟩
  have reads : Device.newestFirst after = _ := reopens.2 _ left
  rcases cut.exists_newest (all ▸ newest_eq) with ⟨piece, is_last, lsn_eq⟩
  have found : (pieces.map Piece.chunk).getLast? = some piece.chunk := by
    rw [List.getLast?_map, is_last]
    rfl
  have turned_away : ¬ FormatPolicy.legacy.Admits .current := nofun
  rw [reads]
  refine Recovery.outcome_of_unreadable found ?_
  rw [legacy, lsn_eq, Piece.chunk, formats piece (List.mem_of_getLast? is_last)]
  exact Region.unpack_refused turned_away piece.checksum piece.records newest.lsn

end Founded

/-- A log that was begun on an empty device and shut down well is opened again under the same
settings, and its highest number is that of the last record that was logged; if the codec
reads what it wrote and no replay fails. Where the settings admit the legacy format only, and
there is a record, the log is not opened again, for the newest region is of the current one. -/
theorem reopened_founded (founded : Founded app config device engine moves)
    (reopens : Reopens (engine.run app moves).shutdown.2.device after)
    (schedule : Recovery.Schedule) (options : RecoveryOptions) (state : σ) :
    ((config.formatPolicy ≠ .legacy ∨ engine.accepted app moves = []) →
      (∀ move ∈ moves, ∀ entry, move.entry? = some entry →
        ∀ action, entry.action? = some action → app.Readable action) →
      ∀ final, Recovery.Use.carryOutAll app (Recovery.recoverWith app schedule config options
        (Device.newestFirst after) state).uses.reverse state = .ok final →
      ∃ report engine', openUnder schedule app config options after state =
          .ok (report, engine') ∧
        report.highest = (engine.accepted app moves).getLast?.map (·.lsn)) ∧
    (config.formatPolicy = .legacy → ∀ newest,
      (engine.accepted app moves).getLast? = some newest →
      openUnder schedule app config options after state =
        .failed (.integrity newest.lsn
          (.versionRefused RegionFormat.current.version .legacy))) := by
  constructor
  · intro admits readable final carried
    rcases founded.recovers reopens (admits.imp_left FormatPolicy.admits_current) readable
      carried with ⟨report, recovered, highest_eq⟩
    exact ⟨report, _, open_of_recovered founded.valid recovered, highest_eq⟩
  · intro legacy newest newest_eq
    exact open_of_failed founded.valid
      (founded.refuses reopens legacy newest_eq schedule options state)

/-- Small windows that a packing stage hands on, regions of the current format without a
checksum, and a replay on the scanning thread. -/
def unchecked : Config :=
  { Config.standard with
    windowCapacity := 2, syncPolicy := .always, checksum := .none, formatPolicy := .current,
    replayWorkers := 0, packingDepth := 1 }

/-- An engine for probes on a new memory device, under some settings. -/
def forProbesUnder (config : Config) : Engine Probe.Journal MemoryDevice :=
  .resume config (.initial none Lsn.first) (.onDisk .empty) .empty

/-- A probe, and a transaction with another one. -/
def pairing : List (Move Probe.Action MemoryDevice) :=
  [.append ⟨7, 0, 0, none, none, []⟩ false, .beginTransaction, .collect,
    .appendMember 1 ⟨8, 0, 0, none, none, []⟩, .commit 1 true]

/-- The log of `pairing`, after its shutdown. -/
def paired : MemoryDevice := ((forProbesUnder unchecked).run Probe.app pairing).shutdown.2.device

theorem accepted_pairing : (forProbesUnder unchecked).accepted Probe.app pairing =
    [probeRecord 100 7,
      ⟨101, 100, Entry.memberTag :: (Bytes.ofNat 8 1 ++ Bytes.ofNat 8 8 ++ Bytes.ofNat 8 0 ++ [0])⟩,
      ⟨102, 100, Entry.commitTag :: Bytes.ofNat 8 1⟩] := by
  decide +kernel

theorem founded_pairing : Founded Probe.app unchecked (.onDisk .empty)
    (forProbesUnder unchecked) pairing where
  intact := trivial
  empty := rfl
  opened := ⟨.late, {}, .empty, .initial none Lsn.first, rfl⟩
  inside := by simp [pairing, Move.Inside]
  fits := by
    rw [accepted_pairing]
    simp only [List.forall_mem_cons]
    exact ⟨⟨by decide, by decide, by decide⟩, ⟨by decide, by decide, by decide⟩,
      ⟨by decide, by decide, by decide⟩, by simp⟩
  room := by
    rw [accepted_pairing]
    decide
  running := by decide +kernel
  clean := clean_of_endsWell (by decide +kernel)

/-- A log with a transaction is opened again, and ends with the commit. -/
theorem reopened_founded_pairing : ∃ report engine,
    openUnder .late Probe.app unchecked {} paired .empty = .ok (report, engine) ∧
      report.highest = some 102 := by
  have reopened := (reopened_founded founded_pairing ⟨trivial, fun _ => id⟩ .late {}
    (.empty : Probe.Journal)).1
  rw [accepted_pairing] at reopened
  have readable : ∀ move ∈ pairing, ∀ entry, move.entry? = some entry →
      ∀ action, entry.action? = some action → Probe.app.Readable action := by
    have plain : Probe.app.Readable ⟨7, 0, 0, none, none, []⟩ := by
      intro bytes encoded
      cases encoded
      exact ⟨⟨7, 0, 0, none, none, []⟩, rfl⟩
    have member : Probe.app.Readable ⟨8, 0, 0, none, none, []⟩ := by
      intro bytes encoded
      cases encoded
      exact ⟨⟨8, 0, 0, none, none, []⟩, rfl⟩
    simp [pairing, Move.entry?, Entry.action?, plain, member]
  have uses_eq : (Recovery.recoverWith Probe.app .late unchecked {} (Device.newestFirst paired)
      .empty).uses = [.replayed ⟨⟨7, 0, 0, none, none, []⟩, 100⟩,
        .replayed ⟨⟨8, 0, 0, none, none, []⟩, 101⟩] := by
    decide +kernel
  have carried : Recovery.Use.carryOutAll Probe.app (Recovery.recoverWith Probe.app .late unchecked
      {} (Device.newestFirst paired) .empty).uses.reverse .empty =
        .ok ⟨[], [(0, 8, 101), (0, 7, 100)], []⟩ := by
    rw [uses_eq]
    rfl
  exact reopened (.inl (by decide)) readable _ carried

/-- Settings that admit regions of the legacy format only. -/
def legacyOnly : Config := { Config.standard with formatPolicy := .legacy }

theorem accepted_probingOnce_legacyOnly :
    (forProbesUnder legacyOnly).accepted Probe.app probingOnce = [probeRecord 100 7] := by
  decide +kernel

/-- Settings that are valid, and a log that was begun and shut down well under them, but
cannot be opened again under them. -/
theorem legacy_not_reopened :
    legacyOnly.validate = .ok () ∧
      Founded Probe.app legacyOnly (.onDisk .empty) (forProbesUnder legacyOnly) probingOnce ∧
      openUnder .late Probe.app legacyOnly {}
          ((forProbesUnder legacyOnly).run Probe.app probingOnce).shutdown.2.device .empty =
        .failed (.integrity 100 (.versionRefused 2 .legacy)) := by
  have valid : legacyOnly.validate = .ok () := rfl
  refine ⟨valid, ?_, open_of_failed valid (by decide +kernel)⟩
  exact {
    intact := trivial
    empty := rfl
    opened := ⟨.late, {}, .empty, .initial none Lsn.first, rfl⟩
    inside := by simp [probingOnce, Move.Inside]
    fits := by
      rw [accepted_probingOnce_legacyOnly, List.forall_mem_singleton]
      exact ⟨by decide, by decide, by decide⟩
    room := by
      rw [accepted_probingOnce_legacyOnly]
      decide
    running := by decide +kernel
    clean := clean_of_endsWell (by decide +kernel) }

end Engine

end Logbook

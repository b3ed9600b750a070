import Logbook.Probe.Action
import Logbook.Proofs.Recovery.Recovered
import Logbook.Proofs.Recovery.Uses
import Logbook.Proofs.Storage.Memory

/-!
# Recovery on the scanning thread

Without workers, recovery carries out what the log prescribes, one action after
the other from the newest down, whatever regions the log was cut into.
-/

namespace Logbook

variable {α σ : Type}

namespace Recovery

variable {app : Application α σ}

/-- A crew without workers that has consumed some actions. -/
structure Crew.Inline (app : Application α σ) (state : σ) (uses : List (Use α))
    (crew : Crew α σ) : Prop where
  workers : crew.workers = []
  aborted : crew.aborted = false
  firstError : crew.firstError = none
  uses_eq : crew.uses = uses.reverse
  replayed : crew.replayed = uses.countP Use.isReplayed
  carried : Use.carryOutAll app uses state = .ok crew.state

namespace Crew

theorem inline_assemble (state : σ) : Inline app state [] (.assemble 0 state) :=
  ⟨rfl, rfl, rfl, rfl, rfl, rfl⟩

theorem workAll_of_no_workers {crew : Crew α σ} (workers : crew.workers = [])
    (numbers : List Nat) : crew.workAll app numbers = crew := by
  induction numbers with
  | nil => rfl
  | cons number numbers ih =>
      have idle : crew.work app number = crew := by
        rw [work, workers, List.getElem?_nil]
      rw [workAll, List.foldl_cons, idle]
      exact ih

theorem join_of_no_workers {crew : Crew α σ} (workers : crew.workers = [])
    (steps : Nat → List Nat) : crew.join app steps = crew := by
  rw [join, workers]
  rfl

/-- A crew without workers keeps up with what it is handed. -/
theorem steady_inline {prescribed : List (Use α)} {state final : σ}
    (carried : Use.carryOutAll app prescribed state = .ok final) :
    Steady app prescribed (Inline app state) where
  dispose uses job crew inline _ :=
    { inline with
      uses_eq := by simp [dispose, inline.uses_eq]
      replayed := by simp [dispose, inline.replayed, Use.isReplayed]
      carried := by rw [Use.carryOutAll_concat inline.carried]; rfl }
  dispatch uses job crew inline is_front := by
    rcases Use.carryOutAll_prefix is_front carried with ⟨middle, before⟩
    have ok : app.replay job.action job.lsn crew.state = .ok middle := by
      rw [Use.carryOutAll_concat inline.carried] at before
      exact before
    refine ⟨{ crew with
      uses := .replayed job :: crew.uses, state := middle, replayed := crew.replayed + 1 }, ?_, ?_⟩
    · simp [dispatch, inline.aborted, inline.workers, replay, ok, count]
    · exact { inline with
        uses_eq := by simp [inline.uses_eq]
        replayed := by simp [inline.replayed, Use.isReplayed]
        carried := before }
  workAll uses crew numbers inline := by
    rw [workAll_of_no_workers inline.workers]
    exact inline

end Crew

/-- What is replayed are the survivors. -/
theorem Ledger.countP_uses {ledger : Ledger α} (lsns : List Nat) :
    (ledger.uses app lsns).countP Use.isReplayed = ledger.count app .survives lsns := by
  induction lsns with
  | nil => rfl
  | cons lsn lsns ih =>
      rw [← List.singleton_append, uses_append, count_append, List.countP_append, ih]
      congr 1
      by_cases replayed : ledger.Replayed app lsn
      · rcases replayed_iff.mp replayed with ⟨entry, action, found, has_action, _⟩
        have survives : ledger.HasFate app lsn .survives := replayed
        rw [uses_of_replayed replayed found has_action, count_singleton survives]
        rfl
      · have gone : ledger.count app .survives [lsn] = 0 := by
          simp [count, HasFate, replayed]
        rw [gone]
        cases action : (ledger.entry lsn).bind Entry.action? with
        | none => simp [Ledger.uses, use?, action]
        | some action => simp [Ledger.uses, use?, action, replayed, Use.isReplayed]

/-- Without workers, and with every replay that is prescribed taking effect, recovery
does what the log prescribes, and reports it. -/
theorem recover_inline {δ : Type} [Device δ] {device : δ} {config : Config}
    {options : RecoveryOptions} {first : Nat} {pieces : List Piece} {newest : Record}
    {boundary : Nat} {state final : σ} (inline : config.replayWorkers = 0)
    (reads : Device.Reads device (pieces.map Piece.chunk))
    (recoverable : Recoverable app config.formatPolicy options first pieces newest boundary)
    (carried : Use.carryOutAll app
      ((Ledger.ofPieces app newest pieces).uses app (descent boundary newest.lsn)) state =
        .ok final) :
    ∃ report, recover app config options device state =
        ⟨.ok report, final,
          ((Ledger.ofPieces app newest pieces).uses app (descent boundary newest.lsn)).reverse⟩ ∧
      report.highest = some newest.lsn ∧ report.lowest = some boundary ∧
      report.boundary = boundary ∧ report.scanned = newest.lsn + 1 - boundary ∧
      report.replayed =
        (Ledger.ofPieces app newest pieces).count app .survives (descent boundary newest.lsn) ∧
      report.skipped =
        (Ledger.ofPieces app newest pieces).count app .superseded (descent boundary newest.lsn) ∧
      report.voided =
        (Ledger.ofPieces app newest pieces).count app .voided (descent boundary newest.lsn) ∧
      report.deleted =
        (Ledger.ofPieces app newest pieces).count app .deleted (descent boundary newest.lsn) := by
  have assembled : Crew.Inline app state [] (.assemble config.replayWorkers state) := by
    rw [inline]
    exact Crew.inline_assemble state
  obtain ⟨pass, recovered, reported, held⟩ := recoverWith_eq_conclude recoverable
    (Crew.steady_inline carried) (.prompt config.replayWorkers) assembled
  have state_eq : pass.crew.state = final := by
    have same := held.carried.symm.trans carried
    cases same
    rfl
  refine ⟨{ pass.report with replayed := pass.crew.replayed }, ?_, reported.highest, ?_,
    reported.boundary, ?_, ?_, ?_, ?_, ?_⟩
  · rw [recover, reads, recovered]
    simp only [conclude, Crew.join_of_no_workers held.workers, held.firstError, held.uses_eq,
      state_eq]
  · have last : (descent boundary newest.lsn).getLast? = some boundary := by
      have := recoverable.boundary_le
      rw [descent, List.getLast?_reverse, List.head?_range', if_neg (by omega)]
    rw [reported.lowest, last]
    rfl
  · rw [reported.scanned, descent, List.length_reverse, List.length_range']
    exact Nat.zero_add _
  · rw [held.replayed, Ledger.countP_uses]
  · rw [reported.skipped]
    exact Nat.zero_add _
  · rw [reported.voided]
    exact Nat.zero_add _
  · rw [reported.deleted]
    exact Nat.zero_add _

/-- A plain probe that supersedes the number before its own. -/
def supersedingProbe : Record :=
  ⟨101, 100, 1 :: (Bytes.ofNat 8 8 ++ Bytes.ofNat 8 0 ++ [0] ++ Bytes.ofNat 8 100)⟩

/-- Two plain probes in two regions, of which the newer supersedes the older. -/
def supersedingPair : List Piece :=
  [⟨.legacy, .adler32, [⟨100, 0, 1 :: (Bytes.ofNat 8 7 ++ Bytes.ofNat 8 0 ++ [0])⟩]⟩,
    ⟨.current, .none, [supersedingProbe]⟩]

theorem recoverable_supersedingPair (options : RecoveryOptions)
    (unset : options.lowestLive = none) :
    Recoverable Probe.app .auto options 100 supersedingPair supersedingProbe 100 where
  cut := by
    constructor
    · exact rfl
    · simp [supersedingPair]
    · simp [supersedingPair, FormatPolicy.Admits]
    · simp only [supersedingPair, List.forall_mem_cons]
      exact ⟨⟨⟨by decide, by decide, by decide⟩, by simp⟩,
        ⟨⟨by decide, by decide, by decide⟩, by simp⟩, by simp⟩
  newest_eq := rfl
  boundary_eq := by rw [unset]; rfl
  first_le := by decide
  boundary_le := by decide
  decodes := by
    simp only [supersedingPair, List.flatMap_cons, List.flatMap_nil, List.append_nil,
      List.singleton_append, List.forall_mem_cons]
    exact ⟨fun _ => ⟨.plain ⟨7, 0, 0, none, none, []⟩, rfl⟩,
      fun _ => ⟨.plain ⟨8, 0, 0, none, none, [100]⟩, rfl⟩, by simp⟩

theorem uses_supersedingPair :
    (Ledger.ofPieces Probe.app supersedingProbe supersedingPair).uses Probe.app
        (descent 100 supersedingProbe.lsn) =
      [.replayed ⟨⟨8, 0, 0, none, none, [100]⟩, 101⟩,
        .disposed ⟨⟨7, 0, 0, none, none, []⟩, 100⟩] := by
  generalize ledger_eq : Ledger.ofPieces Probe.app supersedingProbe supersedingPair = ledger
  have older : ledger.entry 100 = some (.plain ⟨7, 0, 0, none, none, []⟩) := by
    rw [← ledger_eq]
    rfl
  have newer : ledger.entry 101 = some (.plain ⟨8, 0, 0, none, none, [100]⟩) := by
    rw [← ledger_eq]
    rfl
  have highest : ledger.highest = 101 := by
    rw [← ledger_eq]
    rfl
  have above {property : Nat → Prop} : ¬ ledger.SomeFrom property 102 :=
    Ledger.not_someFrom (by rw [highest]; decide)
  have survives : ledger.Replayed Probe.app 101 :=
    Ledger.replayed_iff.mpr ⟨_, _, newer, rfl,
      fun listed => above (Ledger.superseded_iff.mp listed), by simp, by simp [Probe.app]⟩
  have superseded : ledger.Superseded Probe.app 100 :=
    Ledger.superseded_iff.mpr ⟨101, ⟨Nat.le_refl _, Nat.le_of_eq highest.symm⟩, .inl survives,
      _, newer, by simp [Entry.invalidated, Entry.action?, Probe.app]⟩
  have gone : ¬ ledger.Replayed Probe.app 100 := superseded.not_replayed
  have lsns : descent 100 supersedingProbe.lsn = [101] ++ [100] := rfl
  rw [lsns, Ledger.uses_append, Ledger.uses_of_replayed survives newer rfl,
    Ledger.uses_of_not_replayed gone older rfl]
  rfl

theorem recover_inline_supersedingPair :
    ∃ report,
      recover Probe.app { Config.standard with replayWorkers := 0 } {}
          (MemoryDevice.onDisk ⟨supersedingPair.map Piece.chunk, 0⟩) .empty =
        ⟨.ok report, ⟨[], [(0, 8, 101)], [7]⟩,
          [.disposed ⟨⟨7, 0, 0, none, none, []⟩, 100⟩,
            .replayed ⟨⟨8, 0, 0, none, none, [100]⟩, 101⟩]⟩ ∧
      report.scanned = 2 := by
  have inline : ({ Config.standard with replayWorkers := 0 } : Config).replayWorkers = 0 := rfl
  have carried : Use.carryOutAll Probe.app
      ((Ledger.ofPieces Probe.app supersedingProbe supersedingPair).uses Probe.app
        (descent 100 supersedingProbe.lsn)) .empty = .ok ⟨[], [(0, 8, 101)], [7]⟩ := by
    rw [uses_supersedingPair]
    rfl
  obtain ⟨report, recovered, _, _, _, scanned, _⟩ := recover_inline inline
    (MemoryDevice.reads (.onDisk ⟨supersedingPair.map Piece.chunk, 0⟩))
    (recoverable_supersedingPair {} rfl) carried
  rw [uses_supersedingPair] at recovered
  exact ⟨report, recovered, scanned⟩

end Recovery

end Logbook

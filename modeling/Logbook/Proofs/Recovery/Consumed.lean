import Logbook.Proofs.Recovery.Sifted

/-!
# Every decoded action is consumed

However a recovery ends, and whichever replay fails on whatever worker, each action that
was decoded was either replayed or disposed of, and that once. The survivors of one
worker were replayed from the newest down to some point and disposed of from there on,
and where a replay failed, the recovery fails.
-/

namespace Logbook.Recovery

variable {α σ : Type} {app : Application α σ} {state : σ} {workers : Nat}
  {handed : List (Use α)}

theorem entriesOf_cons_of_ok {scanned : Scanned} {entry : Entry α}
    (decoded : Entry.decode app scanned.record.payload = .ok entry)
    (rest : List (Except LogError Scanned)) :
    entriesOf app (.ok scanned :: rest) = (scanned.record.lsn, entry) :: entriesOf app rest := by
  simp [entriesOf, decoded, Except.toOption]

theorem entriesOf_cons_of_error {scanned : Scanned} {cause : CodecError}
    (failed : Entry.decode app scanned.record.payload = .error cause)
    (rest : List (Except LogError Scanned)) :
    entriesOf app (.ok scanned :: rest) = entriesOf app rest := by
  simp [entriesOf, failed, Except.toOption]

/-- The numbers of decoded entries are numbers of records. -/
theorem sublist_entriesOf (app : Application α σ) (front : List Scanned) :
    ((entriesOf app (front.map .ok)).map Prod.fst).Sublist (front.map (·.record.lsn)) := by
  induction front with
  | nil => exact List.Sublist.refl _
  | cons newest older ih =>
      rw [List.map_cons, List.map_cons]
      cases decoded : Entry.decode app newest.record.payload with
      | error cause =>
          rw [entriesOf_cons_of_error decoded]
          exact ih.cons _
      | ok entry =>
          rw [entriesOf_cons_of_ok decoded, List.map_cons]
          exact ih.cons_cons _

/-- The records of a scan come in descending order. -/
theorem pairwise_of_checkDescent {items : List (Except LogError Scanned)} {expected : Option Nat}
    {front : List Scanned} (is_front : front.map .ok <+: checkDescent expected items)
    (positive : ∀ scanned ∈ front, 0 < scanned.record.lsn) :
    (front.map (·.record.lsn)).Pairwise (· > ·) ∧
      ∀ scanned ∈ front, ∀ lsn ∈ expected, scanned.record.lsn ≤ lsn := by
  induction items generalizing expected front with
  | nil =>
      cases List.map_eq_nil_iff.mp (List.prefix_nil.mp is_front)
      exact ⟨.nil, nofun⟩
  | cons head items ih =>
      cases front with
      | nil => exact ⟨.nil, nofun⟩
      | cons newest older =>
          rw [List.map_cons] at is_front
          rw [List.forall_mem_cons] at positive
          cases head with
          | error error => cases (List.cons_prefix_cons.mp is_front).1
          | ok scanned =>
              rw [checkDescent] at is_front
              split at is_front
              · cases (List.cons_prefix_cons.mp is_front).1
              · rename_i matches_expected
                rcases List.cons_prefix_cons.mp is_front with ⟨same, is_front⟩
                cases same
                rcases ih is_front positive.2 with ⟨descending, below⟩
                refine ⟨List.pairwise_cons.mpr ⟨?_, descending⟩, ?_⟩
                · simp only [List.forall_mem_map]
                  intro older_item member
                  have le := below older_item member _ rfl
                  exact Nat.lt_of_le_of_lt le (Nat.sub_one_lt_of_lt positive.1)
                · rintro item member lsn rfl
                  have lsn_eq : lsn = newest.record.lsn := by
                    simpa [Option.filter] using matches_expected
                  rcases List.mem_cons.mp member with rfl | member
                  · exact Nat.le_of_eq lsn_eq.symm
                  · rw [lsn_eq]
                    exact Nat.le_trans (below item member _ rfl) (Nat.sub_le _ _)

namespace Pass

/-- Carrying out the fate of an action hands it over. -/
theorem settle_reliable (calm : app.NeverPanics) (pass : Pass α σ)
    (reliable : pass.crew.Reliable app false workers state handed) (fate : Fate) (job : Job α) :
    ∃ stop crew, pass.settle app fate job = (stop, { pass with crew := crew }) ∧
      (∀ panic, stop ≠ some (.panicked panic)) ∧
      crew.Reliable app false workers state (handed ++ [fate.use job]) := by
  cases fate with
  | survives =>
      rcases reliable.dispatch job with
        ⟨goes_on, crew, dispatched, reliable, _⟩ | ⟨_, _, _, _, panics⟩
      · cases goes_on with
        | true => exact ⟨none, crew, by simp only [settle, dispatched], by simp, reliable⟩
        | false => exact ⟨some .done, crew, by simp only [settle, dispatched], by simp, reliable⟩
      · exact absurd calm panics
  | superseded | commits | voided | deleted =>
      exact ⟨none, _, rfl, by simp, reliable.dispose job⟩

theorem countFate_boundary (report : RecoveryReport) (fate : Fate) :
    (countFate report fate).boundary = report.boundary := by
  cases fate <;> rfl

theorem countFate_scanned (report : RecoveryReport) (fate : Fate) :
    (countFate report fate).scanned = report.scanned := by
  cases fate <;> rfl

/-- Looking at a record hands its action over, if it can be decoded. -/
theorem visit_reliable (calm : app.NeverPanics) (pass : Pass α σ)
    (reliable : pass.crew.Reliable app false workers state handed) (scanned : Scanned) :
    ∃ stop after, pass.visit app scanned.record = (stop, after) ∧
      (∀ panic, stop ≠ some (.panicked panic)) ∧
      after.report.scanned = pass.report.scanned + 1 ∧
      after.report.boundary = pass.report.boundary ∧
      after.crew.Reliable app false workers state
        (handed ++ pass.tables.sift app (entriesOf app [.ok scanned])) ∧
      (stop = none → ∀ older, pass.tables.sift app (entriesOf app (.ok scanned :: older)) =
        pass.tables.sift app (entriesOf app [.ok scanned]) ++
          after.tables.sift app (entriesOf app older)) := by
  unfold visit
  cases decoded : Entry.decode app scanned.record.payload with
  | error cause =>
      rw [entriesOf_cons_of_error decoded]
      exact ⟨_, _, rfl, nofun, rfl, rfl, (List.append_nil handed).symm ▸ reliable, nofun⟩
  | ok entry =>
      simp only [entriesOf_cons_of_ok decoded, Tables.sift_cons]
      rcases pass.tables.judge app scanned.record.lsn entry with ⟨fate, tables⟩
      dsimp only
      rw [show entriesOf app [] = [] from rfl, Tables.sift, List.append_nil]
      cases entry.action? with
      | none =>
          exact ⟨none, _, rfl, nofun, countFate_scanned _ _, countFate_boundary _ _,
            (List.append_nil handed).symm ▸ reliable, fun _ _ => rfl⟩
      | some action =>
          obtain ⟨stop, crew, settled, no_panic, reliable⟩ := settle_reliable calm
            ⟨countFate (count pass.report scanned.record.lsn entry.txn?) fate, tables, pass.crew⟩
            reliable fate ⟨action, scanned.record.lsn⟩
          exact ⟨stop, _, settled, no_panic, countFate_scanned _ _, countFate_boundary _ _,
            reliable, fun _ _ => rfl⟩

/-- A crew that was handed nothing more. -/
theorem reliable_nothing {crew : Crew α σ}
    (reliable : crew.Reliable app false workers state handed) (tables : Tables) :
    crew.Reliable app false workers state
      (handed ++ tables.sift app (entriesOf app (([] : List Scanned).map .ok))) :=
  (List.append_nil handed).symm ▸ reliable

/-- A pass hands over what it decodes, and decodes what it counts. -/
theorem run_reliable (calm : app.NeverPanics) (schedule : Schedule) (pass : Pass α σ)
    (reliable : pass.crew.Reliable app false workers state handed) (previous : Option Nat)
    (items : List (Except LogError Scanned)) :
    ∃ stop after, pass.run app schedule previous items = (stop, after) ∧
      (∀ panic, stop ≠ .panicked panic) ∧
      ∃ front : List Scanned, front.map .ok <+: items ∧
        (∀ scanned ∈ front, pass.report.boundary ≤ scanned.record.lsn) ∧
        after.report.scanned = pass.report.scanned + front.length ∧
        after.crew.Reliable app false workers state
          (handed ++ pass.tables.sift app (entriesOf app (front.map .ok))) := by
  induction items generalizing pass handed previous with
  | nil =>
      cases previous <;>
        exact ⟨_, pass, rfl, nofun, [], List.nil_prefix, nofun, rfl, reliable_nothing reliable _⟩
  | cons head rest ih =>
      cases head with
      | error error =>
          exact ⟨_, pass, rfl, nofun, [], List.nil_prefix, nofun, rfl, reliable_nothing reliable _⟩
      | ok scanned =>
          rw [run]
          dsimp only
          split
          · exact ⟨_, _, rfl, nofun, [], List.nil_prefix, nofun, rfl, reliable_nothing reliable _⟩
          · rename_i above
            have above : ∀ item ∈ [scanned], pass.report.boundary ≤ item.record.lsn := by
              simpa using above
            obtain ⟨stop, after, visited, no_panic, scanned_eq, boundary_eq, reliable, sifted⟩ :=
              visit_reliable calm
                { pass with report := { pass.report with regions := scanned.regions } }
                reliable scanned
            rw [visited]
            cases stop with
            | some stop =>
                exact ⟨stop, after, rfl, fun panic same => no_panic panic (congrArg _ same),
                  [scanned], List.prefix_append [_] rest, above, scanned_eq, reliable⟩
            | none =>
                have reliable := reliable.workAll (schedule.during after.report.scanned)
                let next : Pass α σ := { after with
                  crew := after.crew.workAll app (schedule.during after.report.scanned) }
                dsimp only
                split
                · exact ⟨_, _, rfl, nofun, [scanned], List.prefix_append [_] rest, above,
                    scanned_eq, reliable⟩
                · obtain ⟨stop, last, run_eq, no_panic, front, is_front, below, counted,
                    reliable⟩ := ih next reliable (some scanned.record.lsn)
                  refine ⟨stop, last, run_eq, no_panic, scanned :: front,
                    List.cons_prefix_cons.mpr ⟨rfl, is_front⟩, ?_, ?_, ?_⟩
                  · rw [List.forall_mem_cons]
                    exact ⟨above _ List.mem_cons_self, fun item member =>
                      boundary_eq ▸ below item member⟩
                  · rw [counted]
                    exact (congrArg (· + front.length) scanned_eq).trans (Nat.add_right_comm ..)
                  · rw [List.append_assoc, ← sifted rfl] at reliable
                    exact reliable

end Pass

/-- What became of the actions that a recovery handed over, however it ended. -/
structure Consumed (app : Application α σ) (workers : Nat) (state : σ) (handed : List (Use α))
    (result : Result α σ) : Prop where
  once : (result.uses.map Use.job).Perm (handed.map Use.job)
  first : ∀ lane, onLane app workers lane (replayedJobs result.uses.reverse) <+:
    onLane app workers lane (replayedJobs handed)
  no_panic : ∀ panic, result.outcome ≠ .panicked panic
  state_eq : result.state = Use.advanceAll app result.uses.reverse state
  noticed : ∀ fault, Use.carryOutAll app result.uses.reverse state = .error fault →
    ∃ error, result.outcome = .failed error
  ok : ∀ report, result.outcome = .ok report →
    (∀ lane, onLane app workers lane (replayedJobs result.uses.reverse) =
      onLane app workers lane (replayedJobs handed)) ∧
    Use.carryOutAll app result.uses.reverse state = .ok result.state

/-- A crew that is waited for has consumed what it was handed. -/
theorem Crew.Reliable.consumed {crew : Crew α σ} {told : Bool} (calm : app.NeverPanics)
    (reliable : crew.Reliable app told workers state handed)
    (settled : ∀ number, crew.Settled number) :
    (crew.uses.map Use.job).Perm (handed.map Use.job) ∧
      (∀ lane, onLane app workers lane (replayedJobs crew.uses.reverse) <+:
        onLane app workers lane (replayedJobs handed)) ∧
      (crew.aborted = false → ∀ lane, onLane app workers lane (replayedJobs crew.uses.reverse) =
        onLane app workers lane (replayedJobs handed)) := by
  have living := reliable.honest.living calm
  have serving := reliable.serving living
  have drained := Crew.jobsAt_of_settled settled living
  refine ⟨?_, fun lane => ?_, fun going lane => ?_⟩
  · have once := serving.once
    rw [waiting_eq_nil drained, List.append_nil] at once
    exact once
  · exact (List.prefix_append _ _).trans (serving.first lane)
  · have all := serving.going going lane
    rw [drained, List.append_nil] at all
    exact all

theorem conclude_consumed (calm : app.NeverPanics) (schedule : Schedule) {stop : Stop}
    {pass : Pass α σ} (no_panic : ∀ panic, stop ≠ .panicked panic)
    (reliable : pass.crew.Reliable app false workers state handed) :
    Consumed app workers state handed (conclude app schedule stop pass) := by
  cases stop with
  | panicked panic => exact absurd rfl (no_panic panic)
  | failed error =>
      have joined := reliable.tell.join schedule.after
      rcases joined.consumed calm (Crew.settled_join app _ schedule.after) with ⟨once, first, _⟩
      exact {
        once := once
        first := first
        no_panic := fun _ => nofun
        state_eq := joined.honest.state_eq
        noticed := fun _ _ => ⟨_, rfl⟩
        ok := nofun }
  | done =>
      have joined := reliable.join schedule.after
      have settled := Crew.settled_join app pass.crew schedule.after
      rcases joined.consumed calm settled with ⟨once, first, all⟩
      unfold conclude
      dsimp only
      split
      · exact {
          once := once
          first := first
          no_panic := fun _ => nofun
          state_eq := joined.honest.state_eq
          noticed := fun _ _ => ⟨_, rfl⟩
          ok := nofun }
      · rename_i no_error
        have sound : ¬ (pass.crew.join app schedule.after).Faulted app state :=
          fun faulted => (joined.honest.noted settled).mp faulted no_error
        have going : (pass.crew.join app schedule.after).aborted = false := by
          rw [joined.honest.aborted, no_error]
          rfl
        exact {
          once := once
          first := first
          no_panic := fun _ => nofun
          state_eq := joined.honest.state_eq
          noticed := fun fault failed => absurd ⟨fault, failed⟩ sound
          ok := fun _ _ => ⟨all going, joined.honest.carried sound⟩ }

theorem consumed_nothing {result : Result α σ} (nothing : result.uses = [])
    (state_eq : result.state = state) (no_panic : ∀ panic, result.outcome ≠ .panicked panic) :
    Consumed app workers state [] result := by
  constructor
  · rw [nothing]
  · rw [nothing]
    exact fun _ => List.prefix_refl _
  · exact no_panic
  · rw [nothing, state_eq]
    rfl
  · rw [nothing]
    exact nofun
  · rw [nothing, state_eq]
    exact fun _ _ => ⟨fun _ => rfl, rfl⟩

/-- A recovery that finds a record is a pass which hands over what the decoded entries
prescribe. -/
theorem recoverWith_eq_pass (calm : app.NeverPanics) (schedule : Schedule) {config : Config}
    (options : RecoveryOptions) {regions : List (Except StorageError Chunk)} (state : σ)
    {newest : Scanned} {older : List (Except LogError Scanned)}
    (scan_eq : scan config.formatPolicy regions = .ok newest :: older) :
    ∃ stop pass,
      (Pass.start config state newest.record.lsn (options.boundary newest.record)).run app
          schedule none (.ok newest :: older) = (stop, pass) ∧
        recoverWith app schedule config options regions state =
          conclude app schedule stop pass ∧
        (∀ panic, stop ≠ .panicked panic) ∧
        ((decoded app schedule config options regions state).map Prod.fst).Pairwise (· > ·) ∧
        pass.crew.Reliable app false config.replayWorkers state
          (Tables.empty.sift app (decoded app schedule config options regions state)) := by
  let start : Pass α σ := .start config state newest.record.lsn (options.boundary newest.record)
  have begun : start.crew.Reliable app false config.replayWorkers state [] :=
    Crew.reliable_assemble app _ state
  obtain ⟨stop, pass, run_eq, no_panic, front, is_front, above, counted, reliable⟩ :=
    start.run_reliable calm schedule begun none (.ok newest :: older)
  have seen : (.ok newest :: older).take pass.report.scanned = front.map .ok := by
    rw [counted, List.prefix_iff_eq_take.mp is_front, List.length_map]
    exact congrArg (List.take · _) (Nat.zero_add _)
  have decoded_eq : decoded app schedule config options regions state =
      entriesOf app (front.map .ok) := by
    rw [← seen, decoded, scan_eq]
    dsimp only
    rw [run_eq]
  have positive : ∀ scanned ∈ front, 0 < scanned.record.lsn := fun scanned member =>
    Nat.lt_of_lt_of_le (show 0 < Lsn.first by decide)
      (Nat.le_trans (Nat.le_max_right _ _) (above scanned member))
  have descending := (pairwise_of_checkDescent (scan_eq ▸ is_front) positive).1
  refine ⟨stop, pass, run_eq, recoverWith_eq_run scan_eq rfl run_eq, no_panic, ?_, ?_⟩
  · rw [decoded_eq]
    exact descending.sublist (sublist_entriesOf app front)
  · rw [decoded_eq]
    exact reliable

/-- A recovery consumes what the decoded entries prescribe. -/
theorem recoverWith_consumed (calm : app.NeverPanics) (schedule : Schedule) (config : Config)
    (options : RecoveryOptions) (regions : List (Except StorageError Chunk)) (state : σ) :
    ((decoded app schedule config options regions state).map Prod.fst).Pairwise (· > ·) ∧
      Consumed app config.replayWorkers state
        (Tables.empty.sift app (decoded app schedule config options regions state))
        (recoverWith app schedule config options regions state) := by
  cases scan_eq : scan config.formatPolicy regions with
  | nil =>
      rw [decoded, recoverWith, scan_eq]
      exact ⟨.nil, consumed_nothing rfl rfl (by simp)⟩
  | cons head older =>
      cases head with
      | error error =>
          rw [decoded, recoverWith, scan_eq]
          exact ⟨.nil, consumed_nothing rfl rfl (by simp)⟩
      | ok newest =>
          obtain ⟨stop, pass, _, concludes, no_panic, descending, reliable⟩ :=
            recoverWith_eq_pass calm schedule options state scan_eq
          rw [concludes]
          exact ⟨descending, conclude_consumed calm schedule no_panic reliable⟩

/-- Of the actions of one worker, those that were not replayed were disposed of. -/
theorem Consumed.disposed {result : Result α σ}
    (consumed : Consumed app workers state handed result)
    (distinct : (handed.map Use.job).Nodup) {lane : Nat} {job : Job α}
    (later : job ∈ (onLane app workers lane (replayedJobs handed)).drop
      (onLane app workers lane (replayedJobs result.uses.reverse)).length) :
    .disposed job ∈ result.uses := by
  have is_handed := (mem_onLane.mp (List.mem_of_mem_drop later)).1
  have was_consumed : job ∈ result.uses.map Use.job :=
    consumed.once.mem_iff.mpr ((sublist_replayedJobs handed).subset is_handed)
  rcases List.mem_map.mp was_consumed with ⟨use, member, job_eq⟩
  cases use with
  | disposed other => exact (show other = job from job_eq) ▸ member
  | replayed other =>
      cases (show other = job from job_eq)
      exfalso
      have replayed : job ∈ onLane app workers lane (replayedJobs result.uses.reverse) := by
        refine mem_onLane.mpr ⟨?_, (mem_onLane.mp (List.mem_of_mem_drop later)).2⟩
        exact mem_replayedJobs.mpr (List.mem_reverse.mpr member)
      rw [List.prefix_iff_eq_take.mp (consumed.first lane)] at replayed
      have lane_distinct : (onLane app workers lane (replayedJobs handed)).Nodup :=
        (distinct.sublist (sublist_replayedJobs handed)).filter _
      rw [← List.take_append_drop
        (onLane app workers lane (replayedJobs result.uses.reverse)).length
        (onLane app workers lane (replayedJobs handed)), List.nodup_append] at lane_distinct
      exact lane_distinct.2.2 job replayed job later rfl

/-- Each decoded action was replayed or disposed of, once; the survivors of each worker
were replayed from the newest down to some point, and disposed of from there on; what
came of them is the state that is left; and a recovery in which a replay failed fails.
Without workers all survivors count as those of one. -/
theorem recoverWith_consumes_decoded (calm : app.NeverPanics) (schedule : Schedule)
    (config : Config) (options : RecoveryOptions) (regions : List (Except StorageError Chunk))
    (state : σ) :
    let result := recoverWith app schedule config options regions state
    let entries := decoded app schedule config options regions state
    ((actions entries).map Job.lsn).Pairwise (· > ·) ∧
      (result.uses.map Use.job).Perm (actions entries) ∧
      (∀ lane, ∃ count,
        onLane app config.replayWorkers lane (replayedJobs result.uses.reverse) =
            (onLane app config.replayWorkers lane (survivors app entries)).take count ∧
          ∀ job ∈ (onLane app config.replayWorkers lane (survivors app entries)).drop count,
            .disposed job ∈ result.uses) ∧
      (∀ panic, result.outcome ≠ .panicked panic) ∧
      result.state = Use.advanceAll app result.uses.reverse state ∧
      (Use.SomeReplayFails app result.uses.reverse state →
        ∃ error, result.outcome = .failed error) := by
  intro result entries
  rcases recoverWith_consumed calm schedule config options regions state with
    ⟨descending, consumed⟩
  have jobs : (Tables.empty.sift app entries).map Use.job = actions entries :=
    Tables.empty.map_job_sift app entries
  have ordered : ((actions entries).map Job.lsn).Pairwise (· > ·) :=
    descending.sublist (sublist_actions entries)
  have distinct : ((Tables.empty.sift app entries).map Use.job).Nodup := by
    rw [jobs]
    exact ordered.of_map Job.lsn fun newer older lt same => Nat.lt_irrefl _ (same ▸ lt)
  refine ⟨ordered, jobs ▸ consumed.once, fun lane => ?_, consumed.no_panic, consumed.state_eq,
    fun fails => ?_⟩
  · exact ⟨_, List.prefix_iff_eq_take.mp (consumed.first lane), fun job later =>
      consumed.disposed distinct later⟩
  · rcases Use.someReplayFails_iff.mp fails with ⟨fault, failed⟩
    exact consumed.noticed fault failed

/-- Probes that refuse to be replayed where they would panic. -/
def soberProbes : Application Probe.Action Probe.Journal :=
  { Probe.app with
    replay := fun action lsn journal =>
      match Probe.app.replay action lsn journal with
      | .error (.panicked panic) => .error (.refused panic.message)
      | outcome => outcome }

theorem neverPanics_soberProbes : soberProbes.NeverPanics := by
  intro action lsn journal panic
  simp only [soberProbes]
  split
  · exact nofun
  · rename_i outcome sober
    exact sober panic

/-- Three probes, two of one bucket and one of another. The newest of each bucket refuses
to be replayed. -/
def refusingPiece : Piece :=
  ⟨.current, .none, [plainProbe 100 7,
    ⟨101, 100, 1 :: (Bytes.ofNat 8 8 ++ Bytes.ofNat 8 1 ++ [Probe.refuseFlag])⟩,
    ⟨102, 100, 1 :: (Bytes.ofNat 8 9 ++ Bytes.ofNat 8 0 ++ [Probe.refuseFlag])⟩]⟩

def twoWorkers : Config := { Config.standard with replayWorkers := 2 }

/-- After the scan, both workers take a job and find the replay not aborted. The first one
then replays its job and notes the failure, and after that the second one does. -/
def bothCleared : Schedule where
  during _ := []
  after number := if number = 0 then [0, 1, 0, 1, 0, 0, 1, 1] else []

/-- A recovery in which two replays are refused, one of them after the other's failure was
noted. -/
def refusedRecovery : Result Probe.Action Probe.Journal :=
  recoverWith soberProbes bothCleared twoWorkers {} [.ok refusingPiece.chunk] .empty

theorem recoverWith_consumes_refused :
    (refusedRecovery.uses.map Use.job).Perm
        [⟨⟨9, 0, 1, none, none, []⟩, 102⟩, ⟨⟨8, 1, 1, none, none, []⟩, 101⟩,
          ⟨⟨7, 0, 0, none, none, []⟩, 100⟩] ∧
      Use.replayed ⟨⟨9, 0, 1, none, none, []⟩, 102⟩ ∈ refusedRecovery.uses ∧
      Use.replayed ⟨⟨8, 1, 1, none, none, []⟩, 101⟩ ∈ refusedRecovery.uses ∧
      Use.disposed ⟨⟨7, 0, 0, none, none, []⟩, 100⟩ ∈ refusedRecovery.uses ∧
      ∃ error, refusedRecovery.outcome = .failed error := by
  rcases recoverWith_consumes_decoded neverPanics_soberProbes bothCleared twoWorkers {}
    [.ok refusingPiece.chunk] .empty with ⟨_, once, lanes, _, _, noticed⟩
  have entries_eq : decoded soberProbes bothCleared twoWorkers {} [.ok refusingPiece.chunk] .empty =
      [(102, .plain ⟨9, 0, 1, none, none, []⟩), (101, .plain ⟨8, 1, 1, none, none, []⟩),
        (100, .plain ⟨7, 0, 0, none, none, []⟩)] := by
    decide +kernel
  have uses_eq : refusedRecovery.uses =
      [.disposed ⟨⟨7, 0, 0, none, none, []⟩, 100⟩, .replayed ⟨⟨8, 1, 1, none, none, []⟩, 101⟩,
        .replayed ⟨⟨9, 0, 1, none, none, []⟩, 102⟩] := by
    decide +kernel
  have fails : Use.SomeReplayFails soberProbes refusedRecovery.uses.reverse .empty := by
    rw [uses_eq]
    exact ⟨[], _, _, .refused "tracked action 9 refused", rfl, rfl⟩
  rw [entries_eq] at once lanes
  refine ⟨once, by rw [uses_eq]; decide, by rw [uses_eq]; decide, ?_, noticed fails⟩
  rcases lanes 0 with ⟨count, first, later⟩
  have survivors_eq : onLane soberProbes twoWorkers.replayWorkers 0 (survivors soberProbes
      [(102, .plain ⟨9, 0, 1, none, none, []⟩), (101, .plain ⟨8, 1, 1, none, none, []⟩),
        (100, .plain ⟨7, 0, 0, none, none, []⟩)]) =
      [⟨⟨9, 0, 1, none, none, []⟩, 102⟩, ⟨⟨7, 0, 0, none, none, []⟩, 100⟩] := by
    decide +kernel
  have replayed_one : (onLane soberProbes twoWorkers.replayWorkers 0
      (replayedJobs refusedRecovery.uses.reverse)).length = 1 := by
    decide +kernel
  rw [survivors_eq] at first later
  have one : 1 = min count 2 := by
    rw [← replayed_one]
    exact (congrArg List.length first).trans List.length_take
  apply later
  rw [show count = 1 by omega]
  decide +kernel

end Logbook.Recovery

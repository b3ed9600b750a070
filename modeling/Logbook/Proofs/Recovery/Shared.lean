import Logbook.Proofs.Recovery.Inline
import Logbook.Proofs.Recovery.Serving

/-!
# Recovery with a crew

A crew of any size consumes what it is handed, each action once, unless a replay
fails. The schedule decides in what order actions of different buckets are replayed,
and nothing else. So when every replay takes effect, a recovery consumes what the log
prescribes, and what it replays of one bucket it replays in the prescribed order.
-/

namespace Logbook

variable {α σ : Type}

/-- Every replay takes effect. -/
def Application.Replays (app : Application α σ) : Prop :=
  ∀ action lsn state, ∃ after, app.replay action lsn state = .ok after

theorem Application.Replays.neverPanics {app : Application α σ} (replays : app.Replays) :
    app.NeverPanics := by
  intro action lsn state panic panicked
  rcases replays action lsn state with ⟨after, replayed⟩
  cases replayed.symm.trans panicked

namespace Recovery

variable {app : Application α σ}

/-! ### Jobs in another order -/

/-- Some jobs in another order, which is the same inside each bucket. -/
structure Reorders (app : Application α σ) (jobs order : List (Job α)) : Prop where
  perm : order.Perm jobs
  buckets : ∀ bucket, order.filter (fun job => app.bucket job.action = bucket) =
    jobs.filter (fun job => app.bucket job.action = bucket)

section Reorders

variable {jobs order : List (Job α)}

/-- Neighbours of different buckets may change places. -/
theorem reorders_swap {first second : Job α}
    (differ : app.bucket first.action ≠ app.bucket second.action) (front back : List (Job α)) :
    Reorders app (front ++ first :: second :: back) (front ++ second :: first :: back) where
  perm := (List.Perm.swap first second back).append_left front
  buckets bucket := by
    simp only [List.filter_append, List.filter_cons, decide_eq_true_eq]
    split
    · rename_i here
      have other : app.bucket first.action ≠ bucket := fun there => differ (there.trans here.symm)
      rw [if_neg other, if_neg other]
    · rfl

/-- A property of fewer jobs, looked for among more of them. -/
theorem filter_of_implies {narrow wide : Job α → Bool}
    (implies : ∀ job, narrow job = true → wide job = true) (jobs : List (Job α)) :
    jobs.filter narrow = (jobs.filter wide).filter narrow := by
  rw [List.filter_filter]
  congr 1
  funext job
  cases holds : narrow job with
  | false => rfl
  | true => exact (implies job holds).symm

/-- Jobs of one bucket keep their order. -/
theorem Reorders.filter_eq (reorders : Reorders app jobs order) (property : Job α → Bool)
    {bucket : UInt64} (inside : ∀ job, property job = true → app.bucket job.action = bucket) :
    order.filter property = jobs.filter property := by
  have implies job (holds : property job = true) := decide_eq_true (inside job holds)
  rw [filter_of_implies implies order, filter_of_implies implies jobs, reorders.buckets]

/-- Jobs that keep their order on the way to each worker keep it inside each bucket. -/
theorem reorders_of_onLane {workers : Nat}
    (lanes : ∀ lane, onLane app workers lane order = onLane app workers lane jobs) :
    Reorders app jobs order where
  perm := by
    classical
    rw [List.perm_iff_count]
    intro job
    have counted (jobs : List (Job α)) :
        (onLane app workers (job.lane app workers) jobs).count job = jobs.count job :=
      List.count_filter (decide_eq_true rfl)
    rw [← counted order, lanes, counted]
  buckets bucket := by
    have implies (job : Job α) (inside : decide (app.bucket job.action = bucket) = true) :
        decide (job.lane app workers =
          if workers = 0 then 0 else bucket.toNat % workers) = true := by
      rw [Job.lane, of_decide_eq_true inside]
      exact decide_eq_true rfl
    rw [filter_of_implies implies order, filter_of_implies implies jobs]
    exact congrArg (List.filter _) (lanes _)

end Reorders

namespace Crew

variable {state : σ} {uses : List (Use α)} {crew : Crew α σ} {told : Bool} {workers : Nat}
  {job : Job α}

/-- A crew that was handed some actions, of which no replay failed so far. -/
structure Sharing (app : Application α σ) (state : σ) (uses : List (Use α))
    (crew : Crew α σ) : Prop where
  reliable : ∃ workers, Reliable app false workers state uses crew
  unfaulted : ¬ Faulted app state crew

theorem not_faulted_of_uses_eq_nil (nothing : crew.uses = []) : ¬ Faulted app state crew := by
  rintro ⟨fault, failed⟩
  rw [nothing] at failed
  cases failed

theorem sharing_assemble (workers : Nat) (state : σ) :
    Sharing app state [] (.assemble workers state) :=
  ⟨⟨workers, reliable_assemble app workers state⟩, not_faulted_of_uses_eq_nil rfl⟩

/-- A crew that was handed some actions and has consumed them, without a failure. -/
structure Done (app : Application α σ) (state : σ) (uses : List (Use α)) (crew : Crew α σ) :
    Prop where
  firstError : crew.firstError = none
  shared : crew.uses.Perm uses
  ordered : ∀ bucket, crew.uses.reverse.filter (Use.replaysIn app bucket) =
    uses.filter (Use.replaysIn app bucket)
  counted : crew.replayed = uses.countP Use.isReplayed
  carried : Use.carryOutAll app crew.uses.reverse state = .ok crew.state

/-- Without a failed replay none is noted. -/
theorem Honest.unfailed (honest : Honest app told state crew) (sound : ¬ Faulted app state crew) :
    crew.firstError = none :=
  of_not_not fun noted => sound (honest.evident.mpr (.inl noted))

/-- A crew that was not told to stop, and whose workers have come to their end, has done
its work unless a replay failed. -/
theorem Reliable.done (reliable : Reliable app false workers state uses crew)
    (settled : ∀ number, crew.Settled number) (sound : ¬ Faulted app state crew) :
    Done app state uses crew := by
  have living := reliable.honest.not_harmed sound
  have serving := reliable.serving living
  have unfailed := reliable.honest.unfailed sound
  have going : crew.aborted = false := by
    rw [reliable.honest.aborted, unfailed]
    rfl
  have drained := jobsAt_of_settled settled living
  have shared := serving.kept going
  have lanes := serving.going going
  rw [waiting_eq_nil drained, List.append_nil] at shared
  simp only [drained, List.append_nil] at lanes
  refine ⟨unfailed, shared, fun bucket => ?_, ?_, reliable.honest.carried sound⟩
  · rw [filter_replaysIn, filter_replaysIn, (reorders_of_onLane lanes).buckets]
  · rw [reliable.honest.replayed_eq settled sound, shared.countP_eq]

namespace Sharing

theorem dispose (sharing : Sharing app state uses crew) (job : Job α) :
    Sharing app state (uses ++ [.disposed job]) (crew.dispose app job) := by
  rcases sharing with ⟨⟨workers, reliable⟩, unfaulted⟩
  exact ⟨⟨workers, reliable.dispose job⟩,
    fun faulted => unfaulted ((reliable.honest.faulted_of_ok rfl rfl).mp faulted)⟩

/-- An action that is handed over is replayed at once or sent to a worker, unless its
replay fails. -/
theorem dispatch_cases (sharing : Sharing app state uses crew) (job : Job α) :
    (∃ after, crew.dispatch app job = (.ok true, after) ∧
        Sharing app state (uses ++ [.replayed job]) after) ∨
      (∃ after, crew.dispatch app job = (.ok false, after) ∧ Failed app state after) ∨
      ∃ panic after, crew.dispatch app job = (.error panic, after) ∧ Faulted app state after := by
  rcases sharing with ⟨⟨workers, reliable⟩, unfaulted⟩
  rcases reliable.dispatch job with
    ⟨goes_on, after, dispatched, reliable, aborted, goes⟩ | ⟨panic, after, dispatched, faulted, _⟩
  · cases goes_on with
    | true => exact .inl ⟨after, dispatched, ⟨workers, reliable⟩, unfaulted ∘ goes rfl⟩
    | false =>
        have noted : after.firstError ≠ none := by
          rw [reliable.honest.aborted, Bool.false_or] at aborted
          exact Option.isSome_iff_ne_none.mp aborted
        have faulted := reliable.honest.evident.mpr (.inl noted)
        exact .inr (.inl ⟨after, dispatched, reliable.honest, faulted⟩)
  · exact .inr (.inr ⟨panic, after, dispatched, faulted⟩)

theorem workAll_cases (sharing : Sharing app state uses crew) (numbers : List Nat) :
    Sharing app state uses (crew.workAll app numbers) ∨
      Failed app state (crew.workAll app numbers) := by
  rcases sharing.reliable with ⟨workers, reliable⟩
  have worked := reliable.workAll numbers
  by_cases faulted : Faulted app state (crew.workAll app numbers)
  · exact .inr ⟨worked.honest, faulted⟩
  · exact .inl ⟨⟨workers, worked⟩, faulted⟩

/-- A crew that is waited for has consumed everything, unless a replay failed. -/
theorem join_cases (sharing : Sharing app state uses crew) (steps : Nat → List Nat) :
    Done app state uses (crew.join app steps) ∨
      Faulted app state (crew.join app steps) ∧ (crew.join app steps).firstError ≠ none := by
  rcases sharing.reliable with ⟨workers, reliable⟩
  have joined := reliable.join steps
  have settled := settled_join app crew steps
  by_cases faulted : Faulted app state (crew.join app steps)
  · exact .inr ⟨faulted, (joined.honest.noted settled).mp faulted⟩
  · exact .inl (joined.done settled faulted)

/-- A crew that is told to stop has no failure to report, unless a replay failed that was
under way. -/
theorem abort_cases (sharing : Sharing app state uses crew) (steps : Nat → List Nat) :
    (crew.abort app steps).firstError = none ∨ Faulted app state (crew.abort app steps) := by
  rcases sharing.reliable with ⟨workers, reliable⟩
  have joined := reliable.honest.tell.join steps
  by_cases faulted : Faulted app state (crew.abort app steps)
  · exact .inr faulted
  · exact .inl (joined.unfailed faulted)

end Sharing

/-- When every replay takes effect, none fails. -/
theorem not_faulted (replays : app.Replays) (crew : Crew α σ) : ¬ Faulted app state crew := by
  rintro ⟨fault, failed⟩
  rcases Use.someReplayFails_iff.mpr ⟨fault, failed⟩ with ⟨front, job, back, fault, _, refused⟩
  rcases replays job.action job.lsn (Use.advanceAll app front state) with ⟨after, replayed⟩
  cases replayed.symm.trans refused

/-- A crew keeps up with what it is handed. -/
theorem steady_sharing (replays : app.Replays) (prescribed : List (Use α)) (state : σ) :
    Steady app prescribed (Sharing app state) where
  dispose _ job _ sharing _ := sharing.dispose job
  dispatch _ job _ sharing _ := by
    rcases sharing.dispatch_cases job with ok | ⟨after, _, failed⟩ | ⟨_, after, _, faulted⟩
    · exact ok
    · exact absurd failed.faulted (not_faulted replays after)
    · exact absurd faulted (not_faulted replays after)
  workAll _ _ numbers sharing := by
    rcases sharing.workAll_cases numbers with worked | failed
    · exact worked
    · exact absurd failed.faulted (not_faulted replays _)

end Crew

/-- With workers and a schedule of any kind, and with every replay taking effect,
recovery consumes what the log prescribes, and replays what it prescribes of one bucket in
the same order. -/
theorem recoverWith_shared {config : Config} {options : RecoveryOptions} {first : Nat}
    {pieces : List Piece} {newest : Record} {boundary : Nat} (replays : app.Replays)
    (recoverable : Recoverable app config.formatPolicy options first pieces newest boundary)
    (schedule : Schedule) (state : σ) :
    ∃ report final uses,
      recoverWith app schedule config options ((pieces.map Piece.chunk).reverse.map .ok) state =
        ⟨.ok report, final, uses⟩ ∧
      report.highest = some newest.lsn ∧ report.boundary = boundary ∧
      uses.Perm ((Ledger.ofPieces app newest pieces).uses app (descent boundary newest.lsn)) ∧
      (∀ bucket, uses.reverse.filter (Use.replaysIn app bucket) =
        ((Ledger.ofPieces app newest pieces).uses app (descent boundary newest.lsn)).filter
          (Use.replaysIn app bucket)) ∧
      Use.carryOutAll app uses.reverse state = .ok final := by
  rcases recoverWith_eq_conclude recoverable (Crew.steady_sharing replays _ state) schedule
    (Crew.sharing_assemble config.replayWorkers state) with ⟨pass, recovered, reported, sharing⟩
  rcases sharing.join_cases schedule.after with done | ⟨faulted, _⟩
  · refine ⟨{ pass.report with replayed := (pass.crew.join app schedule.after).replayed }, _, _,
      ?_, reported.highest, reported.boundary, done.shared, done.ordered, done.carried⟩
    rw [recovered]
    simp only [conclude, done.firstError]
  · exact absurd faulted (Crew.not_faulted replays _)

end Recovery

end Logbook

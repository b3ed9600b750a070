import Logbook.Proofs.Recovery.Failing

/-!
# What a crew does with what it is handed

As long as no replay panics, a crew loses nothing: what it was handed was consumed, or a
worker has it in hand or in its queue. A worker does its jobs in the order in which they
were handed over, and once it has disposed of one it replays no more: what was replayed of
its jobs are the first of them. Other workers may still replay theirs after a failure, as
long as they have not looked.
-/

namespace Logbook.Recovery

variable {α σ : Type} {app : Application α σ}

/-! ### The jobs of one worker -/

/-- The worker, of so many, that a job goes to; without workers all jobs go the same way. -/
def Job.lane (app : Application α σ) (workers : Nat) (job : Job α) : Nat :=
  if workers = 0 then 0 else (app.bucket job.action).toNat % workers

/-- The jobs of some that go to one worker of so many. -/
def onLane (app : Application α σ) (workers lane : Nat) (jobs : List (Job α)) : List (Job α) :=
  jobs.filter fun job => job.lane app workers = lane

@[simp]
theorem onLane_append (workers lane : Nat) (front back : List (Job α)) :
    onLane app workers lane (front ++ back) =
      onLane app workers lane front ++ onLane app workers lane back :=
  List.filter_append ..

theorem onLane_singleton (workers lane : Nat) (job : Job α) :
    onLane app workers lane [job] = if job.lane app workers = lane then [job] else [] := by
  simp only [onLane, List.filter_cons, List.filter_nil, decide_eq_true_eq]

theorem mem_onLane {workers lane : Nat} {jobs : List (Job α)} {job : Job α} :
    job ∈ onLane app workers lane jobs ↔ job ∈ jobs ∧ job.lane app workers = lane := by
  simp [onLane]

/-- An action that is disposed of is not replayed. -/
theorem replayedJobs_dispose (done : List (Use α)) (job : Job α) :
    replayedJobs (.disposed job :: done).reverse = replayedJobs done.reverse := by
  rw [List.reverse_cons, replayedJobs_append]
  exact List.append_nil _

theorem replayedJobs_replay (done : List (Use α)) (job : Job α) :
    replayedJobs (.replayed job :: done).reverse = replayedJobs done.reverse ++ [job] := by
  rw [List.reverse_cons, replayedJobs_append]
  rfl

namespace Worker

/-- The job that a worker is going to replay. -/
def cleared (worker : Worker α) : List (Job α) :=
  match worker.activity with
  | .cleared job => [job]
  | _ => []

/-- The jobs of a worker, one in hand and the others in its queue. -/
def jobs (worker : Worker α) : List (Job α) :=
  match worker.activity with
  | .took job | .cleared job => job :: worker.queue
  | _ => worker.queue

theorem jobs_eq_nil {worker : Worker α} (rests : worker.stepsLeft = 0)
    (living : ¬ worker.hasPanicked = true) : worker.jobs = [] := by
  rcases worker with ⟨queue, _ | _ | _ | _ | _⟩
  case idle =>
    have none_left : 4 * queue.length = 0 := rests
    have empty : queue.length = 0 := by omega
    exact List.length_eq_zero_iff.mp empty
  case lost => exact absurd rfl living
  all_goals exact absurd rests (Nat.succ_ne_zero _)

theorem jobs_concat (worker : Worker α) (job : Job α) :
    jobs ⟨worker.queue ++ [job], worker.activity⟩ = worker.jobs ++ [job] := by
  rcases worker with ⟨queue, _ | _ | _ | _ | _⟩ <;> rfl

end Worker

/-- What a worker has of some kind of jobs. -/
def jobsAt (kind : Worker α → List (Job α)) (workers : List (Worker α)) (number : Nat) :
    List (Job α) :=
  (workers[number]?.map kind).getD []

/-- The jobs of workers, to be replayed. -/
def waiting (workers : List (Worker α)) : List (Use α) :=
  workers.flatMap fun worker => worker.jobs.map .replayed

section Jobs

variable {workers : List (Worker α)} {number lane : Nat} {worker other : Worker α} {job : Job α}

theorem jobsAt_eq (found : workers[number]? = some worker) (kind : Worker α → List (Job α)) :
    jobsAt kind workers number = kind worker := by
  rw [jobsAt, found]
  rfl

/-- A worker that becomes another. -/
theorem jobsAt_set (found : workers[number]? = some worker) (other : Worker α)
    (kind : Worker α → List (Job α)) (lane : Nat) :
    jobsAt kind (workers.set number other) lane =
      if number = lane then kind other else jobsAt kind workers lane := by
  unfold jobsAt
  split
  · rename_i same
    subst same
    rw [List.getElem?_set_self (List.getElem?_eq_some_iff.mp found).1]
    rfl
  · rename_i differ
    rw [List.getElem?_set_ne differ]

/-- A worker that becomes another with the same jobs of a kind. -/
theorem jobsAt_set_same (found : workers[number]? = some worker) (kind : Worker α → List (Job α))
    (same : kind other = kind worker) (lane : Nat) :
    jobsAt kind (workers.set number other) lane = jobsAt kind workers lane := by
  rw [jobsAt_set found]
  split
  · rename_i here
    rw [same, ← jobsAt_eq found kind, here]
  · rfl

theorem jobsAt_replicate (kind : Worker α → List (Job α)) (nothing : kind ⟨[], .idle⟩ = [])
    (count number : Nat) : jobsAt kind (List.replicate count ⟨[], .idle⟩) number = [] := by
  unfold jobsAt
  cases found : (List.replicate count (⟨[], .idle⟩ : Worker α))[number]? with
  | none => rfl
  | some worker =>
      rw [List.eq_of_mem_replicate (List.mem_of_getElem? found)]
      exact nothing

theorem waiting_replicate (count : Nat) :
    waiting (List.replicate count (⟨[], .idle⟩ : Worker α)) = [] := by
  rw [waiting, List.flatMap_eq_nil_iff]
  intro worker member
  rw [List.eq_of_mem_replicate member]
  rfl

theorem waiting_eq_nil (none : ∀ number, jobsAt Worker.jobs workers number = []) :
    waiting workers = [] := by
  rw [waiting, List.flatMap_eq_nil_iff]
  intro worker member
  rcases List.getElem?_of_mem member with ⟨number, found⟩
  rw [← jobsAt_eq found Worker.jobs, none, List.map_nil]

/-- The jobs of one worker among those of the others. -/
theorem exists_waiting_set (found : workers[number]? = some worker) (other : Worker α) :
    ∃ rest, (waiting workers).Perm (worker.jobs.map .replayed ++ rest) ∧
      (waiting (workers.set number other)).Perm (other.jobs.map .replayed ++ rest) := by
  rcases Crew.exists_set found other with ⟨front, back, workers_eq, set_eq⟩
  have moved (one : Worker α) : (waiting (front ++ one :: back)).Perm
      (one.jobs.map .replayed ++ (waiting front ++ waiting back)) := by
    rw [waiting, List.flatMap_append, List.flatMap_cons]
    exact List.perm_append_comm_assoc ..
  exact ⟨_, workers_eq ▸ moved worker, set_eq ▸ moved other⟩

theorem waiting_set_same (found : workers[number]? = some worker)
    (same : other.jobs = worker.jobs) :
    (waiting (workers.set number other)).Perm (waiting workers) := by
  rcases exists_waiting_set found other with ⟨rest, before, after⟩
  rw [same] at after
  exact after.trans before.symm

/-- A worker that has one job less. -/
theorem waiting_set_tail (found : workers[number]? = some worker)
    (jobs : worker.jobs = job :: other.jobs) :
    (.replayed job :: waiting (workers.set number other)).Perm (waiting workers) := by
  rcases exists_waiting_set found other with ⟨rest, before, after⟩
  rw [jobs] at before
  exact (after.cons _).trans before.symm

/-- A worker that has one job more. -/
theorem waiting_set_concat (found : workers[number]? = some worker)
    (jobs : other.jobs = worker.jobs ++ [job]) :
    (waiting (workers.set number other)).Perm (waiting workers ++ [.replayed job]) := by
  rcases exists_waiting_set found other with ⟨rest, before, after⟩
  rw [jobs, List.map_append, List.append_assoc] at after
  refine after.trans (List.Perm.trans ?_ (before.append_right _).symm)
  rw [List.append_assoc]
  exact List.perm_append_comm.append_left _

end Jobs

namespace Crew

variable {crew after : Crew α σ} {state : σ} {told : Bool} {workers number lane : Nat}
  {worker other : Worker α} {job : Job α} {queue : List (Job α)} {handed : List (Use α)}

/-- What a crew of so many workers does with the actions that it was handed, unless a
replay panics. -/
structure Serving (app : Application α σ) (workers : Nat) (handed : List (Use α))
    (crew : Crew α σ) : Prop where
  size : crew.workers.length = workers
  /-- Each action was consumed, or a worker has it. -/
  once : ((crew.uses ++ waiting crew.workers).map Use.job).Perm (handed.map Use.job)
  /-- Until the replay is aborted, it is consumed as it should be. -/
  kept : crew.aborted = false → (crew.uses ++ waiting crew.workers).Perm handed
  /-- What was replayed of the jobs of a worker, and what it is going to replay, comes
  first. -/
  first : ∀ lane, onLane app workers lane (replayedJobs crew.uses.reverse) ++
      jobsAt Worker.cleared crew.workers lane <+: onLane app workers lane (replayedJobs handed)
  /-- Until the replay is aborted, the other jobs of the worker follow. -/
  going : crew.aborted = false → ∀ lane,
    onLane app workers lane (replayedJobs crew.uses.reverse) ++
      jobsAt Worker.jobs crew.workers lane = onLane app workers lane (replayedJobs handed)

theorem serving_assemble (app : Application α σ) (workers : Nat) (state : σ) :
    Serving app workers [] (.assemble workers state) where
  size := List.length_replicate
  once := by
    rw [assemble, waiting_replicate]
    exact List.Perm.refl _
  kept _ := by
    rw [assemble, waiting_replicate]
    exact List.Perm.refl _
  first lane := by
    rw [assemble, jobsAt_replicate Worker.cleared rfl]
    exact List.prefix_refl _
  going _ lane := by
    rw [assemble, jobsAt_replicate Worker.jobs rfl]
    rfl

namespace Serving

theorem count (serving : Serving app workers handed crew) :
    Serving app workers handed crew.count :=
  ⟨serving.size, serving.once, serving.kept, serving.first, serving.going⟩

theorem abort (serving : Serving app workers handed crew) :
    Serving app workers handed { crew with aborted := true } :=
  ⟨serving.size, serving.once, nofun, serving.first, nofun⟩

theorem fail (serving : Serving app workers handed crew) (error : RecoveryError) :
    Serving app workers handed (crew.fail error) :=
  ⟨serving.size, serving.once, nofun, serving.first, nofun⟩

/-! ### Steps of workers -/

/-- A worker takes a step that consumes nothing. -/
theorem setWorker (serving : Serving app workers handed crew)
    (found : crew.workers[number]? = some worker) (jobs : other.jobs = worker.jobs)
    (cleared : other.cleared = worker.cleared) :
    Serving app workers handed (crew.setWorker number other) where
  size := List.length_set.trans serving.size
  once := (((waiting_set_same found jobs).append_left _).map _).trans serving.once
  kept going := ((waiting_set_same found jobs).append_left _).trans (serving.kept going)
  first lane := by
    have first := serving.first lane
    rw [← jobsAt_set_same found Worker.cleared cleared lane] at first
    exact first
  going going lane := by
    have all := serving.going going lane
    rw [← jobsAt_set_same found Worker.jobs jobs lane] at all
    exact all

/-- A worker disposes of its job. -/
theorem disposes (serving : Serving app workers handed crew) (aborted : crew.aborted = true)
    (found : crew.workers[number]? = some ⟨queue, .took job⟩) :
    Serving app workers handed ((crew.dispose app job).setWorker number ⟨queue, .idle⟩) where
  size := List.length_set.trans serving.size
  once := by
    have moved : (.replayed job :: waiting (crew.workers.set number ⟨queue, .idle⟩)).Perm
        (waiting crew.workers) := waiting_set_tail found rfl
    have taken := List.perm_middle.symm.trans (moved.append_left crew.uses)
    exact (taken.map Use.job).trans serving.once
  kept going := nomatch aborted.symm.trans going
  first lane := by
    have first := serving.first lane
    have same : Worker.cleared ⟨queue, .idle⟩ = Worker.cleared ⟨queue, .took job⟩ := rfl
    rw [← replayedJobs_dispose crew.uses job,
      ← jobsAt_set_same found Worker.cleared same lane] at first
    exact first
  going going := nomatch aborted.symm.trans going

/-- Before the replay is aborted, a worker is going to replay its job. -/
theorem clears (serving : Serving app workers handed crew) (going : crew.aborted = false)
    (found : crew.workers[number]? = some ⟨queue, .took job⟩) :
    Serving app workers handed (crew.setWorker number ⟨queue, .cleared job⟩) := by
  have same : Worker.jobs ⟨queue, .cleared job⟩ = Worker.jobs ⟨queue, .took job⟩ := rfl
  have kept := (waiting_set_same found same).append_left crew.uses
  exact {
    size := List.length_set.trans serving.size
    once := (kept.map Use.job).trans serving.once
    kept := fun going => kept.trans (serving.kept going)
    first := fun lane => by
      rw [Crew.setWorker, jobsAt_set found]
      split
      · rename_i here
        subst here
        have next := serving.going going number
        rw [jobsAt_eq found] at next
        rw [← next]
        exact (List.prefix_append_right_inj _).mpr (List.prefix_append [job] queue)
      · exact serving.first lane
    going := fun going lane => by
      have all := serving.going going lane
      rw [← jobsAt_set_same found Worker.jobs same lane] at all
      exact all }

/-- The job that a worker is going to replay is one of its own. -/
theorem lane_of_cleared (serving : Serving app workers handed crew)
    (found : crew.workers[number]? = some ⟨queue, .cleared job⟩) :
    job.lane app workers = number := by
  have first := serving.first number
  rw [jobsAt_eq found] at first
  have inside : job ∈ onLane app workers number (replayedJobs handed) :=
    first.subset (List.mem_append_right _ (List.mem_singleton_self job))
  exact (mem_onLane.mp inside).2

/-- A worker replays its job. -/
theorem replays (serving : Serving app workers handed crew)
    (found : crew.workers[number]? = some ⟨queue, .cleared job⟩) (middle : σ)
    (result : Except ReplayFault Unit) :
    Serving app workers handed
      ({ crew with uses := .replayed job :: crew.uses, state := middle }.setWorker number
        ⟨queue, .returned job.lsn result⟩) := by
  let returned : Worker α := ⟨queue, .returned job.lsn result⟩
  have moved : (.replayed job :: waiting (crew.workers.set number returned)).Perm
      (waiting crew.workers) := waiting_set_tail found rfl
  have taken := List.perm_middle.symm.trans (moved.append_left crew.uses)
  have here := serving.lane_of_cleared found
  have onward (kind : Worker α → List (Job α))
      (next : kind ⟨queue, .cleared job⟩ = job :: kind returned) (lane : Nat) :
      onLane app workers lane (replayedJobs (.replayed job :: crew.uses).reverse) ++
          jobsAt kind (crew.workers.set number returned) lane =
        onLane app workers lane (replayedJobs crew.uses.reverse) ++
          jobsAt kind crew.workers lane := by
    rw [jobsAt_set found, replayedJobs_replay, onLane_append, onLane_singleton, here]
    split
    · rename_i same
      rw [← same, jobsAt_eq found, next, List.append_assoc, List.singleton_append]
    · rw [List.append_nil]
  exact {
    size := List.length_set.trans serving.size
    once := (taken.map Use.job).trans serving.once
    kept := fun going => taken.trans (serving.kept going)
    first := fun lane => (onward Worker.cleared rfl lane).symm ▸ serving.first lane
    going := fun going lane => (onward Worker.jobs rfl lane).trans (serving.going going lane) }

theorem step (serving : Serving app workers handed crew) (step : Step app crew number after)
    (sound : after.workers.any Worker.hasPanicked = false) :
    Serving app workers handed after := by
  cases step with
  | rests => exact serving
  | takes found => exact serving.setWorker found rfl rfl
  | disposes found aborted => exact serving.disposes aborted found
  | clears found going => exact serving.clears going found
  | @replays job queue found =>
      rcases crew.exists_replay app job with ⟨middle, replay_eq⟩
      rw [replay_eq]
      exact serving.replays found middle _
  | counts found => exact serving.count.setWorker found rfl rfl
  | fails found => exact (serving.fail _).setWorker found rfl rfl
  | ends found =>
      have inside := (List.getElem?_eq_some_iff.mp found).1
      have lost : Worker.hasPanicked (⟨[], .lost⟩ : Worker α) = true := rfl
      cases (any_of_found (List.getElem?_set_self inside) lost).symm.trans sound

/-! ### Actions that are handed over -/

/-- One more action is consumed at once, in whatever way. -/
theorem once_cons {done queued : List (Use α)}
    (once : ((done ++ queued).map Use.job).Perm (handed.map Use.job)) {use next : Use α}
    (same : use.job = next.job) :
    ((use :: done ++ queued).map Use.job).Perm ((handed ++ [next]).map Use.job) := by
  rw [List.cons_append, List.map_cons, same, Use.map_job_concat]
  exact (once.cons _).trans (List.perm_append_singleton _ _).symm

/-- An action that is handed over is disposed of, as it should be or after a failure. -/
theorem dispose (serving : Serving app workers handed crew) {next : Use α} (same : job = next.job)
    (as_said : crew.aborted = false → next = .disposed job) :
    Serving app workers (handed ++ [next]) (crew.dispose app job) where
  size := serving.size
  once := once_cons serving.once same
  kept going := by
    rw [as_said going]
    exact ((serving.kept going).cons _).trans (List.perm_append_singleton _ _).symm
  first lane := by
    rw [Crew.dispose, replayedJobs_dispose, replayedJobs_append, onLane_append]
    exact (serving.first lane).trans (List.prefix_append _ _)
  going going lane := by
    have all := serving.going going lane
    rw [Crew.dispose, replayedJobs_dispose, replayedJobs_append, as_said going]
    exact all.trans (congrArg _ (List.append_nil _).symm)

/-- Without workers an action is replayed at once. -/
theorem replay (serving : Serving app workers handed crew) (going : crew.aborted = false)
    (alone : crew.workers = []) (job : Job α) (middle : σ) :
    Serving app workers (handed ++ [.replayed job])
      { crew with uses := .replayed job :: crew.uses, state := middle } := by
  have none (kind : Worker α → List (Job α)) (lane : Nat) : jobsAt kind crew.workers lane = [] := by
    rw [alone]
    rfl
  have whole (kind : Worker α → List (Job α)) (lane : Nat) :
      onLane app workers lane (replayedJobs (.replayed job :: crew.uses).reverse) ++
          jobsAt kind crew.workers lane =
        onLane app workers lane (replayedJobs (handed ++ [.replayed job])) := by
    have before := serving.going going lane
    rw [none, List.append_nil] at before
    rw [none, List.append_nil, replayedJobs_replay, replayedJobs_append, onLane_append,
      onLane_append, before]
    rfl
  exact {
    size := serving.size
    once := once_cons serving.once rfl
    kept := fun going =>
      ((serving.kept going).cons _).trans (List.perm_append_singleton _ _).symm
    first := fun lane => ⟨[], (List.append_nil _).trans (whole Worker.cleared lane)⟩
    going := fun _ => whole Worker.jobs }

/-- An action is sent to its worker. -/
theorem sends (serving : Serving app workers handed crew)
    (found : crew.workers[crew.workerOf (app.bucket job.action)]? = some worker) :
    Serving app workers (handed ++ [.replayed job])
      (crew.setWorker (crew.workerOf (app.bucket job.action))
        ⟨worker.queue ++ [job], worker.activity⟩) := by
  have inside := (List.getElem?_eq_some_iff.mp found).1
  have here : job.lane app workers = crew.workerOf (app.bucket job.action) := by
    have some_workers : workers ≠ 0 := by
      rw [← serving.size]
      exact Nat.ne_of_gt (Nat.lt_of_le_of_lt (Nat.zero_le _) inside)
    rw [Job.lane, if_neg some_workers, workerOf, serving.size]
  have moved : (crew.uses ++ waiting (crew.setWorker (crew.workerOf (app.bucket job.action))
      ⟨worker.queue ++ [job], worker.activity⟩).workers).Perm
        (crew.uses ++ waiting crew.workers ++ [.replayed job]) := by
    rw [List.append_assoc]
    exact (waiting_set_concat found (worker.jobs_concat job)).append_left _
  exact {
    size := List.length_set.trans serving.size
    once := by
      rw [Use.map_job_concat]
      refine (moved.map Use.job).trans ?_
      rw [Use.map_job_concat]
      exact serving.once.append_right _
    kept := fun going => moved.trans ((serving.kept going).append_right _)
    first := fun lane => by
      have same : Worker.cleared ⟨worker.queue ++ [job], worker.activity⟩ = worker.cleared := rfl
      rw [Crew.setWorker, jobsAt_set_same found Worker.cleared same, replayedJobs_append,
        onLane_append]
      exact (serving.first lane).trans (List.prefix_append _ _)
    going := fun going lane => by
      have before := serving.going going lane
      have single : onLane app workers lane (replayedJobs [.replayed job]) =
        if job.lane app workers = lane then [job] else [] := onLane_singleton workers lane job
      rw [Crew.setWorker, jobsAt_set found, replayedJobs_append, onLane_append, single, here,
        ← before]
      split
      · rename_i same
        subst same
        rw [jobsAt_eq found, Worker.jobs_concat, List.append_assoc]
      · rw [List.append_nil] }

theorem handing (serving : Serving app workers handed crew) {result : Except Panic Bool}
    (handing : Handing app crew job (result, after)) {goes_on : Bool} (ok : result = .ok goes_on)
    (sound : after.workers.any Worker.hasPanicked = false) :
    Serving app workers (handed ++ [.replayed job]) after := by
  cases handing with
  | disposes aborted => exact serving.dispose rfl fun going => nomatch aborted.symm.trans going
  | replays going alone effect => exact (serving.replay going alone job _).count
  | fails going alone effect => exact (serving.replay going alone job _).fail _
  | panics alone effect => cases ok
  | sends going found => exact serving.sends found
  | @loses queue found =>
      have lost : Worker.hasPanicked ⟨queue, .lost⟩ = true := rfl
      cases (any_of_found found lost).symm.trans sound

end Serving

/-- Workers that have come to their end have no jobs left. -/
theorem jobsAt_of_settled (settled : ∀ number, crew.Settled number)
    (sound : crew.workers.any Worker.hasPanicked = false) (lane : Nat) :
    jobsAt Worker.jobs crew.workers lane = [] := by
  cases found : crew.workers[lane]? with
  | none => rw [jobsAt, found]; rfl
  | some worker =>
      have rests : worker.stepsLeft = 0 := (stepsLeft_eq found).symm.trans (settled lane).rests
      have living : ¬ worker.hasPanicked = true := fun panicked =>
        nomatch (any_of_found found panicked).symm.trans sound
      rw [jobsAt_eq found]
      exact Worker.jobs_eq_nil rests living

/-! ### Workers that are relied on -/

/-- A crew that does its work, and knows what came of it. A worker that is lost takes its
jobs with it. -/
structure Reliable (app : Application α σ) (told : Bool) (workers : Nat) (state : σ)
    (handed : List (Use α)) (crew : Crew α σ) : Prop where
  honest : Honest app told state crew
  serving : crew.workers.any Worker.hasPanicked = false → Serving app workers handed crew

theorem reliable_assemble (app : Application α σ) (workers : Nat) (state : σ) :
    Reliable app false workers state [] (.assemble workers state) :=
  ⟨honest_assemble app workers state, fun _ => serving_assemble app workers state⟩

namespace Reliable

theorem dispose (reliable : Reliable app told workers state handed crew) (job : Job α) :
    Reliable app told workers state (handed ++ [.disposed job]) (crew.dispose app job) :=
  ⟨reliable.honest.dispose job, fun sound => (reliable.serving sound).dispose rfl fun _ => rfl⟩

theorem step (reliable : Reliable app told workers state handed crew)
    (step : Step app crew number after) : Reliable app told workers state handed after where
  honest := reliable.honest.step step
  serving sound := by
    have before : crew.workers.any Worker.hasPanicked = false :=
      eq_false_of_ne_true fun harmed => nomatch (step.harmed harmed).symm.trans sound
    exact (reliable.serving before).step step sound

theorem workAll (reliable : Reliable app told workers state handed crew) (numbers : List Nat) :
    Reliable app told workers state handed (crew.workAll app numbers) :=
  workAll_keeps (fun before number reliable => reliable.step (before.step_work app number))
    reliable numbers

/-- A surviving action is handed over, unless its replay panics at once. -/
theorem dispatch (reliable : Reliable app told workers state handed crew) (job : Job α) :
    (∃ goes_on after, crew.dispatch app job = (.ok goes_on, after) ∧
        Reliable app told workers state (handed ++ [.replayed job]) after ∧
        after.aborted = !goes_on ∧
        (goes_on = true → Faulted app state after → Faulted app state crew)) ∨
      ∃ panic after, crew.dispatch app job = (.error panic, after) ∧ Faulted app state after ∧
        ¬ app.NeverPanics := by
  have handing := crew.handing_dispatch app job
  rcases reliable.honest.handing handing with ⟨goes_on, after, dispatched, honest, goes⟩ | panicked
  · rw [dispatched] at handing
    refine .inl ⟨goes_on, after, dispatched, ⟨honest, fun sound => ?_⟩, goes⟩
    have before : crew.workers.any Worker.hasPanicked = false :=
      eq_false_of_ne_true fun harmed => nomatch (handing.harmed harmed).symm.trans sound
    exact (reliable.serving before).handing handing rfl sound
  · exact .inr panicked

theorem join (reliable : Reliable app told workers state handed crew) (steps : Nat → List Nat) :
    Reliable app told workers state handed (crew.join app steps) :=
  join_keeps (fun before number reliable => reliable.step (before.step_work app number))
    (fun _ _ lost reliable =>
      ⟨reliable.honest.noteLost lost _, fun sound => (reliable.serving sound).fail _⟩)
    reliable steps

/-- The crew is told to stop. -/
theorem tell (reliable : Reliable app told workers state handed crew) :
    Reliable app true workers state handed { crew with aborted := true } :=
  ⟨reliable.honest.tell, fun sound => (reliable.serving sound).abort⟩

end Reliable

end Crew

end Logbook.Recovery

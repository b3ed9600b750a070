import Logbook.Application

/-!
# The replay crew

Surviving actions are replayed on the scanning thread or by a crew of workers.
A worker has a queue of its own, and actions of one bucket go to one worker, so
they are replayed in the order the scan found them. A failure aborts the replay:
whoever looks at the flag from then on disposes of the action. A worker whose
action panics is lost, and so is what it still had in its queue.

A worker takes a job, looks at the flag, replays the action and notes the result,
and the others go on between any two of these steps. So when the first failure is
noted, other workers may have looked already: their actions are still replayed,
and may fail as well. A replay acts on the state of the application at one moment,
and is one step. Which worker takes its next step when is not for the crew to say. A
schedule says it, and stands for the interleaving of the scan and the workers.
-/

namespace Logbook.Recovery

/-- An action on its way to be replayed. -/
structure Job (α : Type) where
  action : α
  lsn : Nat
deriving DecidableEq, Repr

/-- How an action was consumed. -/
inductive Use (α : Type) where
  /-- It was passed to replay, with whatever result. -/
  | replayed (job : Job α)
  | disposed (job : Job α)
deriving DecidableEq, Repr

/-- What a replay worker is doing. -/
inductive Activity (α : Type) where
  | idle
  /-- It has taken a job, and has still to look whether the replay is aborted. -/
  | took (job : Job α)
  /-- It has looked, and is going to replay the job. -/
  | cleared (job : Job α)
  /-- The replay of an action has returned, and its result has still to be noted. -/
  | returned (lsn : Nat) (result : Except ReplayFault Unit)
  /-- It was lost to a panic. -/
  | lost
deriving Repr

/-- A replay worker and the jobs it has still to take, the next one first. -/
structure Worker (α : Type) where
  queue : List (Job α)
  activity : Activity α
deriving Repr

namespace Worker

variable {α : Type}

def isLost : Worker α → Bool
  | ⟨_, .lost⟩ => true
  | _ => false

/-- The steps a worker has left, at most: four for a job, of which it may have taken
some. -/
def stepsLeft : Worker α → Nat
  | ⟨queue, .idle⟩ => 4 * queue.length
  | ⟨queue, .took _⟩ => 4 * queue.length + 3
  | ⟨queue, .cleared _⟩ => 4 * queue.length + 2
  | ⟨queue, .returned _ _⟩ => 4 * queue.length + 1
  | ⟨_, .lost⟩ => 0

end Worker

/-- The replay in progress. -/
structure Crew (α σ : Type) where
  /-- The state of the application. -/
  state : σ
  /-- How actions were consumed, the latest first. -/
  uses : List (Use α)
  /-- The workers; without any, actions are replayed on the scanning thread. -/
  workers : List (Worker α)
  aborted : Bool
  replayed : Nat
  firstError : Option RecoveryError

/-- When the workers take their steps: the numbers of those that take one, in order. -/
structure Schedule where
  /-- The steps after a record, when so many were scanned. -/
  during : Nat → List Nat
  /-- The steps after the scan, while a worker is waited for. -/
  after : Nat → List Nat

namespace Schedule

/-- Every worker does a job as soon as it has one. -/
def prompt (workers : Nat) : Schedule :=
  ⟨fun _ => (List.range workers).flatMap (List.replicate 4), fun _ => []⟩

/-- No worker takes a step before it is waited for. -/
def late : Schedule := ⟨fun _ => [], fun _ => []⟩

end Schedule

namespace Crew

variable {α σ : Type} (app : Application α σ)

/-- A crew that has done nothing yet. -/
def assemble (workers : Nat) (state : σ) : Crew α σ where
  state := state
  uses := []
  workers := List.replicate workers ⟨[], .idle⟩
  aborted := false
  replayed := 0
  firstError := none

/-- Note a failure; the first one stays, and each aborts the replay. The flag is raised
after the error is noted, which counts as one step: nobody reads the error before the
workers have ended, so a look at the flag in between may as well come before both. -/
def fail (crew : Crew α σ) (error : RecoveryError) : Crew α σ :=
  { crew with firstError := some (crew.firstError.getD error), aborted := true }

/-- Count a replay that took effect. -/
def count (crew : Crew α σ) : Crew α σ := { crew with replayed := crew.replayed + 1 }

/-- Dispose of an action. -/
def dispose (crew : Crew α σ) (job : Job α) : Crew α σ :=
  { crew with
    state := app.dispose job.action crew.state
    uses := .disposed job :: crew.uses }

/-- Replay an action. A failure is not noted yet. -/
def replay (crew : Crew α σ) (job : Job α) : Except ReplayFault Unit × Crew α σ :=
  let crew := { crew with uses := .replayed job :: crew.uses }
  match app.replay job.action job.lsn crew.state with
  | .ok state => (.ok (), { crew with state := state })
  | .error fault => (.error fault, crew)

/-- The worker that does the jobs of a bucket. -/
def workerOf (crew : Crew α σ) (bucket : UInt64) : Nat := bucket.toNat % crew.workers.length

/-- What a worker is to be from now on. -/
def setWorker (crew : Crew α σ) (number : Nat) (worker : Worker α) : Crew α σ :=
  { crew with workers := crew.workers.set number worker }

/-- Hand a surviving action over. The result is whether the scan should go on. The job
is sent after the flag is looked at, which counts as one step: the worker need not take
it at once, and if it is lost in between, the scan may as well look after that. A queue
has no bound: a full one would keep the scan waiting, and leave fewer interleavings. -/
def dispatch (crew : Crew α σ) (job : Job α) : Except Panic Bool × Crew α σ :=
  if crew.aborted then (.ok false, crew.dispose app job)
  else if crew.workers = [] then
    match crew.replay app job with
    | (.ok (), crew) => (.ok true, crew.count)
    | (.error (.refused text), crew) => (.ok false, crew.fail (.replay job.lsn text))
    | (.error (.panicked panic), crew) => (.error panic, crew)
  else
    let number := crew.workerOf (app.bucket job.action)
    match crew.workers[number]? with
    | none | some ⟨_, .lost⟩ => (.ok false, (crew.dispose app job).fail (.workerLost number))
    | some ⟨queue, activity⟩ => (.ok true, crew.setWorker number ⟨queue ++ [job], activity⟩)

/-- A worker takes its next step, if it has one to take. -/
def work (crew : Crew α σ) (number : Nat) : Crew α σ :=
  match crew.workers[number]? with
  | some ⟨job :: queue, .idle⟩ => crew.setWorker number ⟨queue, .took job⟩
  | some ⟨queue, .took job⟩ =>
      if crew.aborted then (crew.dispose app job).setWorker number ⟨queue, .idle⟩
      else crew.setWorker number ⟨queue, .cleared job⟩
  | some ⟨queue, .cleared job⟩ =>
      let (result, crew) := crew.replay app job
      crew.setWorker number ⟨queue, .returned job.lsn result⟩
  | some ⟨queue, .returned _ (.ok ())⟩ => crew.count.setWorker number ⟨queue, .idle⟩
  | some ⟨queue, .returned lsn (.error (.refused text))⟩ =>
      (crew.fail (.replay lsn text)).setWorker number ⟨queue, .idle⟩
  | some ⟨_, .returned _ (.error (.panicked _))⟩ => crew.setWorker number ⟨[], .lost⟩
  | some ⟨[], .idle⟩ | some ⟨_, .lost⟩ | none => crew

/-- Some workers take a step each, one after the other. -/
def workAll (crew : Crew α σ) (numbers : List Nat) : Crew α σ :=
  numbers.foldl (work app) crew

/-- The steps a worker has left, at most. -/
def stepsLeft (crew : Crew α σ) (number : Nat) : Nat :=
  (crew.workers[number]?.map Worker.stepsLeft).getD 0

/-- Wait for a worker to end, and note it if it was lost. Until then the workers take
`steps`, and what the worker has left after them it does alone. -/
def await (steps : Nat → List Nat) (crew : Crew α σ) (number : Nat) : Crew α σ :=
  let crew := crew.workAll app (steps number)
  let crew := crew.workAll app (List.replicate (crew.stepsLeft number) number)
  if crew.workers[number]?.any Worker.isLost then crew.fail (.workerLost number) else crew

/-- Wait for the workers to end, one after the other. -/
def join (crew : Crew α σ) (steps : Nat → List Nat) : Crew α σ :=
  (List.range crew.workers.length).foldl (await app steps) crew

/-- Stop replaying; what the workers have not yet looked at is disposed of. -/
def abort (crew : Crew α σ) (steps : Nat → List Nat) : Crew α σ :=
  { crew with aborted := true }.join app steps

end Crew

end Logbook.Recovery

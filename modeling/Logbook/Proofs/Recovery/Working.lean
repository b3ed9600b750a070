import Logbook.Proofs.Recovery.Uses

/-!
# What a crew does in one step

A worker takes a job, disposes of it or decides to replay it, replays it, and notes what
came of that. Each step is one less to take, and changes no other worker. An action that is
handed over is consumed at once or sent to a worker. Whatever it does, a crew does not
forget what it consumed, nor that it noted a failure.
-/

namespace Logbook.Recovery.Crew

variable {α σ : Type} {app : Application α σ} {crew after : Crew α σ} {number : Nat}

/-- The steps of a worker. -/
inductive Step (app : Application α σ) (crew : Crew α σ) (number : Nat) : Crew α σ → Prop
  | rests (none_left : crew.stepsLeft number = 0) : Step app crew number crew
  | takes {job : Job α} {queue : List (Job α)}
      (found : crew.workers[number]? = some ⟨job :: queue, .idle⟩) :
      Step app crew number (crew.setWorker number ⟨queue, .took job⟩)
  | disposes {job : Job α} {queue : List (Job α)}
      (found : crew.workers[number]? = some ⟨queue, .took job⟩) (aborted : crew.aborted = true) :
      Step app crew number ((crew.dispose app job).setWorker number ⟨queue, .idle⟩)
  | clears {job : Job α} {queue : List (Job α)}
      (found : crew.workers[number]? = some ⟨queue, .took job⟩) (going : crew.aborted = false) :
      Step app crew number (crew.setWorker number ⟨queue, .cleared job⟩)
  | replays {job : Job α} {queue : List (Job α)}
      (found : crew.workers[number]? = some ⟨queue, .cleared job⟩) :
      Step app crew number
        ((crew.replay app job).2.setWorker number
          ⟨queue, .returned job.lsn (crew.replay app job).1⟩)
  | counts {queue : List (Job α)} {lsn : Nat}
      (found : crew.workers[number]? = some ⟨queue, .returned lsn (.ok ())⟩) :
      Step app crew number (crew.count.setWorker number ⟨queue, .idle⟩)
  | fails {queue : List (Job α)} {lsn : Nat} {text : String}
      (found : crew.workers[number]? = some ⟨queue, .returned lsn (.error (.refused text))⟩) :
      Step app crew number ((crew.fail (.replay lsn text)).setWorker number ⟨queue, .idle⟩)
  | ends {queue : List (Job α)} {lsn : Nat} {panic : Panic}
      (found : crew.workers[number]? = some ⟨queue, .returned lsn (.error (.panicked panic))⟩) :
      Step app crew number (crew.setWorker number ⟨[], .lost⟩)

theorem stepsLeft_eq {worker : Worker α} (found : crew.workers[number]? = some worker) :
    crew.stepsLeft number = worker.stepsLeft := by
  rw [stepsLeft, found]
  rfl

theorem step_work (app : Application α σ) (crew : Crew α σ) (number : Nat) :
    Step app crew number (crew.work app number) := by
  unfold work
  split
  case h_1 job queue found => exact .takes found
  case h_2 queue job found =>
    split
    · exact .disposes found ‹_›
    · exact .clears found (eq_false_of_ne_true ‹_›)
  case h_3 queue job found => exact .replays found
  case h_4 queue lsn found => exact .counts found
  case h_5 queue lsn text found => exact .fails found
  case h_6 queue lsn panic found => exact .ends found
  case h_7 idle => exact .rests (stepsLeft_eq idle)
  case h_8 queue lost => exact .rests (stepsLeft_eq lost)
  case h_9 missing =>
    refine .rests ?_
    rw [stepsLeft, missing]
    rfl

/-- A replay takes effect or fails. -/
theorem replay_cases (app : Application α σ) (crew : Crew α σ) (job : Job α) :
    (∃ after, (Use.replayed job).carryOut app crew.state = .ok after ∧
        crew.replay app job =
          (.ok (), { crew with uses := .replayed job :: crew.uses, state := after })) ∨
      ∃ fault, (Use.replayed job).carryOut app crew.state = .error fault ∧
        crew.replay app job =
          (.error fault, { crew with uses := .replayed job :: crew.uses }) := by
  unfold replay Use.carryOut
  dsimp only
  cases app.replay job.action job.lsn crew.state with
  | ok after => exact .inl ⟨after, rfl, rfl⟩
  | error fault => exact .inr ⟨fault, rfl, rfl⟩

/-- A replay consumes its action and does nothing else to the crew. -/
theorem exists_replay (app : Application α σ) (crew : Crew α σ) (job : Job α) :
    ∃ state, (crew.replay app job).2 =
      { crew with uses := .replayed job :: crew.uses, state := state } := by
  rcases crew.replay_cases app job with ⟨after, _, replay_eq⟩ | ⟨_, _, replay_eq⟩
  · exact ⟨after, by rw [replay_eq]⟩
  · exact ⟨crew.state, by rw [replay_eq]⟩

/-- The ways in which an action is handed over, and whether the scan goes on. -/
inductive Handing (app : Application α σ) (crew : Crew α σ) (job : Job α) :
    Except Panic Bool × Crew α σ → Prop
  | disposes (aborted : crew.aborted = true) :
      Handing app crew job (.ok false, crew.dispose app job)
  | replays {state : σ} (going : crew.aborted = false) (alone : crew.workers = [])
      (effect : (Use.replayed job).carryOut app crew.state = .ok state) :
      Handing app crew job
        (.ok true, { crew with uses := .replayed job :: crew.uses, state := state }.count)
  | fails {text : String} (going : crew.aborted = false) (alone : crew.workers = [])
      (effect : (Use.replayed job).carryOut app crew.state = .error (.refused text)) :
      Handing app crew job
        (.ok false, { crew with uses := .replayed job :: crew.uses }.fail (.replay job.lsn text))
  | panics {panic : Panic} (alone : crew.workers = [])
      (effect : (Use.replayed job).carryOut app crew.state = .error (.panicked panic)) :
      Handing app crew job (.error panic, { crew with uses := .replayed job :: crew.uses })
  | sends {worker : Worker α} (going : crew.aborted = false)
      (found : crew.workers[crew.workerOf (app.bucket job.action)]? = some worker) :
      Handing app crew job (.ok true, crew.setWorker (crew.workerOf (app.bucket job.action))
        ⟨worker.queue ++ [job], worker.activity⟩)
  | loses {queue : List (Job α)}
      (found : crew.workers[crew.workerOf (app.bucket job.action)]? = some ⟨queue, .lost⟩) :
      Handing app crew job (.ok false, (crew.dispose app job).fail
        (.workerLost (crew.workerOf (app.bucket job.action))))

theorem handing_dispatch (app : Application α σ) (crew : Crew α σ) (job : Job α) :
    Handing app crew job (crew.dispatch app job) := by
  unfold dispatch
  split
  · exact .disposes ‹_›
  · have going : crew.aborted = false := eq_false_of_ne_true ‹_›
    split
    · have alone : crew.workers = [] := ‹_›
      rcases crew.replay_cases app job with ⟨state, effect, replay_eq⟩ | ⟨fault, effect, replay_eq⟩
      · rw [replay_eq]
        exact .replays going alone effect
      · rw [replay_eq]
        cases fault with
        | refused text => exact .fails going alone effect
        | panicked panic => exact .panics alone effect
    · have inside : crew.workerOf (app.bucket job.action) < crew.workers.length :=
        Nat.mod_lt _ (List.length_pos_iff.mpr ‹_›)
      dsimp only
      split
      case h_1 missing =>
        exact absurd inside (Nat.not_lt.mpr (List.getElem?_eq_none_iff.mp missing))
      case h_2 queue found => exact .loses found
      case h_3 queue activity _ found => exact .sends going found

/-! ### What is kept -/

section Keeps

variable {holds : Crew α σ → Prop}
  (step : ∀ crew number, holds crew → holds (crew.work app number))
  (note : ∀ crew number, crew.workers[number]?.any Worker.isLost = true → holds crew →
    holds (crew.fail (.workerLost number)))

include step

theorem workAll_keeps (held : holds crew) (numbers : List Nat) :
    holds (crew.workAll app numbers) := by
  induction numbers generalizing crew with
  | nil => exact held
  | cons number numbers ih => exact ih (step crew number held)

include note

theorem await_keeps (held : holds crew) (steps : Nat → List Nat) (number : Nat) :
    holds (crew.await app steps number) := by
  have worked := workAll_keeps step (workAll_keeps step held (steps number))
    (List.replicate ((crew.workAll app (steps number)).stepsLeft number) number)
  unfold await
  dsimp only
  split
  · exact note _ number ‹_› worked
  · exact worked

/-- What survives the steps of workers, and that lost ones are noted, survives until all
have ended. -/
theorem join_keeps (held : holds crew) (steps : Nat → List Nat) :
    holds (crew.join app steps) := by
  have waited (numbers : List Nat) (crew : Crew α σ) (held : holds crew) :
      holds (numbers.foldl (await app steps) crew) := by
    induction numbers generalizing crew with
    | nil => exact held
    | cons number numbers ih => exact ih _ (await_keeps step note held steps number)
  exact waited _ crew held

end Keeps

/-! ### Steps that are left -/

/-- A worker with steps left takes one of them, and becomes another worker with fewer. -/
theorem Step.cases_rests (step : Step app crew number after) :
    (crew.stepsLeft number = 0 ∧ after = crew) ∨
      ∃ worker other, crew.workers[number]? = some worker ∧
        after.workers = crew.workers.set number other ∧ other.stepsLeft < worker.stepsLeft := by
  cases step with
  | rests none_left => exact .inl ⟨none_left, rfl⟩
  | takes found =>
      exact .inr ⟨_, _, found, rfl, by simp only [Worker.stepsLeft, List.length_cons]; omega⟩
  | disposes found aborted => exact .inr ⟨_, _, found, rfl, by simp [Worker.stepsLeft]⟩
  | clears found going => exact .inr ⟨_, _, found, rfl, by simp [Worker.stepsLeft]⟩
  | @replays job queue found =>
      rcases crew.exists_replay app job with ⟨state, replay_eq⟩
      exact .inr ⟨_, _, found, by rw [replay_eq]; rfl, by simp [Worker.stepsLeft]⟩
  | counts found => exact .inr ⟨_, _, found, rfl, by simp [Worker.stepsLeft]⟩
  | fails found => exact .inr ⟨_, _, found, rfl, by simp [Worker.stepsLeft]⟩
  | ends found => exact .inr ⟨_, _, found, rfl, by simp [Worker.stepsLeft]⟩

theorem work_of_rests (rests : crew.stepsLeft number = 0) : crew.work app number = crew := by
  rcases (crew.step_work app number).cases_rests with ⟨_, same⟩ | ⟨worker, other, found, _, lt⟩
  · exact same
  · rw [← stepsLeft_eq found, rests] at lt
    cases lt

theorem getElem?_work_ne (app : Application α σ) (crew : Crew α σ) {other : Nat}
    (differ : number ≠ other) :
    (crew.work app number).workers[other]? = crew.workers[other]? := by
  rcases (crew.step_work app number).cases_rests with ⟨_, same⟩ | ⟨_, _, _, workers_eq, _⟩
  · rw [same]
  · rw [workers_eq, List.getElem?_set_ne differ]

theorem stepsLeft_work (app : Application α σ) (crew : Crew α σ) (number : Nat) :
    (crew.work app number).stepsLeft number ≤ crew.stepsLeft number - 1 := by
  rcases (crew.step_work app number).cases_rests with
    ⟨rests, same⟩ | ⟨worker, other, found, workers_eq, lt⟩
  · rw [same]
    exact Nat.le_trans (Nat.le_of_eq rests) (Nat.zero_le _)
  · have inside := (List.getElem?_eq_some_iff.mp found).1
    have becomes : (crew.work app number).workers[number]? = some other := by
      rw [workers_eq, List.getElem?_set_self inside]
    rw [stepsLeft_eq found, stepsLeft_eq becomes]
    exact Nat.le_sub_one_of_lt lt

/-- A worker that takes so many steps alone has so many fewer left. -/
theorem stepsLeft_workAll (app : Application α σ) (crew : Crew α σ) (count number : Nat) :
    (crew.workAll app (List.replicate count number)).stepsLeft number ≤
      crew.stepsLeft number - count := by
  induction count generalizing crew with
  | zero => exact Nat.le_refl _
  | succ count ih =>
      have rest := ih (crew.work app number)
      have step := crew.stepsLeft_work app number
      rw [List.replicate_succ, workAll, List.foldl_cons]
      exact Nat.le_trans rest (by omega)

/-! ### What a crew keeps -/

/-- What a crew may become: it does not forget what it consumed, nor that it noted a
failure. -/
structure Later (before after : Crew α σ) : Prop where
  uses : before.uses <:+ after.uses
  noted : before.firstError ≠ none → after.firstError ≠ none

theorem Later.refl (crew : Crew α σ) : Later crew crew :=
  ⟨List.suffix_refl _, id⟩

theorem Later.trans {before middle after : Crew α σ} (first : Later before middle)
    (second : Later middle after) : Later before after :=
  ⟨first.uses.trans second.uses, second.noted ∘ first.noted⟩

theorem later_fail (crew : Crew α σ) (error : RecoveryError) : Later crew (crew.fail error) :=
  ⟨List.suffix_refl _, fun _ => Option.some_ne_none _⟩

theorem later_dispose (crew : Crew α σ) (job : Job α) : Later crew (crew.dispose app job) :=
  ⟨List.suffix_cons _ _, id⟩

theorem Step.later (step : Step app crew number after) : Later crew after := by
  cases step with
  | rests => exact .refl crew
  | disposes => exact ⟨List.suffix_cons _ _, id⟩
  | @replays job queue found =>
      rcases crew.exists_replay app job with ⟨state, replay_eq⟩
      rw [replay_eq]
      exact ⟨List.suffix_cons _ _, id⟩
  | fails => exact ⟨List.suffix_refl _, fun _ => Option.some_ne_none _⟩
  | takes | clears | counts | ends => exact ⟨List.suffix_refl _, id⟩

theorem Handing.later {job : Job α} {result : Except Panic Bool × Crew α σ}
    (handing : Handing app crew job result) : Later crew result.2 := by
  cases handing with
  | fails => exact ⟨List.suffix_cons _ _, fun _ => Option.some_ne_none _⟩
  | sends => exact ⟨List.suffix_refl _, id⟩
  | loses => exact (later_dispose crew job).trans (later_fail _ _)
  | disposes | replays | panics => exact ⟨List.suffix_cons _ _, id⟩

theorem later_workAll (app : Application α σ) (crew : Crew α σ) (numbers : List Nat) :
    Later crew (crew.workAll app numbers) :=
  workAll_keeps (fun before number later => later.trans (before.step_work app number).later)
    (.refl crew) numbers

theorem later_join (app : Application α σ) (crew : Crew α σ) (steps : Nat → List Nat) :
    Later crew (crew.join app steps) :=
  join_keeps (fun before number later => later.trans (before.step_work app number).later)
    (fun before _ _ later => later.trans (later_fail before _)) (.refl crew) steps

/-! ### Workers that have come to their end -/

/-- A worker has no step left, and if it was lost, that is noted. -/
structure Settled (crew : Crew α σ) (number : Nat) : Prop where
  rests : crew.stepsLeft number = 0
  noted : crew.workers[number]?.any Worker.isLost = true → crew.firstError ≠ none

theorem settled_of_missing (missing : crew.workers[number]? = none) : crew.Settled number := by
  constructor
  · rw [stepsLeft, missing]
    rfl
  · rw [missing]
    exact nofun

theorem Settled.work (settled : crew.Settled number) (app : Application α σ) (other : Nat) :
    (crew.work app other).Settled number := by
  by_cases same : other = number
  · rw [same, work_of_rests settled.rests]
    exact settled
  · have still := getElem?_work_ne app crew same
    constructor
    · rw [stepsLeft, still]
      exact settled.rests
    · rw [still]
      exact (crew.step_work app other).later.noted ∘ settled.noted

theorem Settled.await (settled : crew.Settled number) (app : Application α σ)
    (steps : Nat → List Nat) (other : Nat) : (crew.await app steps other).Settled number :=
  @await_keeps _ _ app crew (Settled · number) (fun _ other settled => settled.work app other)
    (fun _ _ _ settled => ⟨settled.rests, fun _ => Option.some_ne_none _⟩) settled steps other

/-- A worker that was waited for has come to its end. -/
theorem settled_await (app : Application α σ) (steps : Nat → List Nat) (crew : Crew α σ)
    (number : Nat) : (crew.await app steps number).Settled number := by
  let worked := crew.workAll app (steps number)
  have rests : (worked.workAll app
      (List.replicate (worked.stepsLeft number) number)).stepsLeft number = 0 :=
    Nat.le_zero.mp (Nat.sub_self _ ▸ stepsLeft_workAll app worked _ number)
  unfold await
  dsimp only
  split
  · exact ⟨rests, fun _ => Option.some_ne_none _⟩
  · exact ⟨rests, fun lost => absurd lost ‹_›⟩

/-- When the workers were waited for, they have come to their end. -/
theorem settled_join (app : Application α σ) (crew : Crew α σ) (steps : Nat → List Nat)
    (number : Nat) : (crew.join app steps).Settled number := by
  have waited (numbers : List Nat) (crew : Crew α σ)
      (soon : number ∈ numbers ∨ crew.Settled number) :
      (numbers.foldl (await app steps) crew).Settled number := by
    induction numbers generalizing crew with
    | nil => exact soon.resolve_left List.not_mem_nil
    | cons first numbers ih =>
        apply ih
        rcases soon with member | settled
        · rcases List.mem_cons.mp member with rfl | later
          · exact .inr (settled_await app steps crew number)
          · exact .inl later
        · exact .inr (settled.await app steps first)
  apply waited
  rcases Nat.lt_or_ge number crew.workers.length with inside | outside
  · exact .inl (List.mem_range.mpr inside)
  · exact .inr (settled_of_missing (List.getElem?_eq_none outside))

end Logbook.Recovery.Crew

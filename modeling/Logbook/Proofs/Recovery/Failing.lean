import Logbook.Proofs.Recovery.Working

/-!
# A failed replay is not forgotten

A crew whose replay failed has noted a failure, or a worker has it still to note, or was
lost to it. A worker that has come to its end has nothing to note, and if it was lost, that
is noted then. So a crew that was waited for has noted a failure if and only if a replay
failed.
-/

namespace Logbook

variable {α σ : Type}

/-- No replay panics. -/
def Application.NeverPanics (app : Application α σ) : Prop :=
  ∀ action lsn state panic, app.replay action lsn state ≠ .error (.panicked panic)

namespace Recovery

variable {app : Application α σ}

namespace Worker

/-- Whether a replay of the worker failed, and that is not noted. -/
def hasFailed (worker : Worker α) : Bool :=
  match worker.activity with
  | .returned _ (.error _) | .lost => true
  | _ => false

/-- Whether a replay of the worker panicked. -/
def hasPanicked (worker : Worker α) : Bool :=
  match worker.activity with
  | .returned _ (.error (.panicked _)) | .lost => true
  | _ => false

/-- Whether a replay of the worker took effect, and that is not counted. -/
def hasReplayed (worker : Worker α) : Bool :=
  match worker.activity with
  | .returned _ (.ok ()) => true
  | _ => false

theorem hasFailed_of_hasPanicked {worker : Worker α} (panicked : worker.hasPanicked = true) :
    worker.hasFailed = true := by
  rcases worker with ⟨queue, _ | _ | _ | ⟨lsn, _ | _⟩ | _⟩
  case returned.error | lost => rfl
  all_goals cases panicked

theorem hasFailed_of_isLost {worker : Worker α} (lost : worker.isLost = true) :
    worker.hasFailed = true := by
  rcases worker with ⟨queue, _ | _ | _ | _ | _⟩
  case lost => rfl
  all_goals cases lost

/-- What a worker has failed to note when it has come to its end is its own loss. -/
theorem isLost_of_hasFailed {worker : Worker α} (rests : worker.stepsLeft = 0)
    (failed : worker.hasFailed = true) : worker.isLost = true := by
  rcases worker with ⟨queue, _ | _ | _ | _ | _⟩
  case returned => exact absurd rests (Nat.succ_ne_zero _)
  case lost => rfl
  all_goals cases failed

theorem hasReplayed_of_rests {worker : Worker α} (rests : worker.stepsLeft = 0) :
    worker.hasReplayed = false := by
  rcases worker with ⟨queue, _ | _ | _ | _ | _⟩
  case returned => exact absurd rests (Nat.succ_ne_zero _)
  all_goals rfl

end Worker

namespace Crew

variable {crew after : Crew α σ} {number : Nat} {worker other : Worker α} {job : Job α}
  {use : Use α} {state : σ} {told : Bool}

/-- Some replay of a crew that began with `state` failed. -/
def Faulted (app : Application α σ) (state : σ) (crew : Crew α σ) : Prop :=
  ∃ fault, Use.carryOutAll app crew.uses.reverse state = .error fault

/-- What was consumed stays so, and with it a failed replay. -/
theorem Faulted.later (faulted : Faulted app state crew) (later : Later crew after) :
    Faulted app state after := by
  rcases faulted with ⟨fault, failed⟩
  rcases later.uses with ⟨added, uses_eq⟩
  refine ⟨fault, ?_⟩
  rw [← uses_eq, List.reverse_append]
  exact Use.carryOutAll_append_error failed _

/-! ### One worker among the rest -/

section Set

variable {workers : List (Worker α)} {check : Worker α → Bool}

theorem any_of_found (found : workers[number]? = some worker) (holds : check worker = true) :
    workers.any check = true :=
  List.any_eq_true.mpr ⟨worker, List.mem_of_getElem? found, holds⟩

/-- A worker that becomes another. -/
theorem exists_set (found : workers[number]? = some worker) (other : Worker α) :
    ∃ front back, workers = front ++ worker :: back ∧
      workers.set number other = front ++ other :: back := by
  rcases List.getElem?_eq_some_iff.mp found with ⟨inside, rfl⟩
  obtain ⟨front, back, workers_eq, _, set_eq⟩ := List.exists_of_set inside
  exact ⟨front, back, workers_eq, set_eq⟩

theorem any_set (found : workers[number]? = some worker) (other : Worker α)
    (check : Worker α → Bool) (same : check other = check worker) :
    (workers.set number other).any check = workers.any check := by
  rcases exists_set found other with ⟨front, back, workers_eq, set_eq⟩
  rw [set_eq, workers_eq, List.any_append, List.any_append, List.any_cons, List.any_cons, same]

theorem any_set_of_imp (found : workers[number]? = some worker)
    (keeps : check worker = true → check other = true) (holds : workers.any check = true) :
    (workers.set number other).any check = true := by
  rcases exists_set found other with ⟨front, back, workers_eq, set_eq⟩
  rw [workers_eq, List.any_append, List.any_cons] at holds
  rw [set_eq, List.any_append, List.any_cons]
  cases here : check worker with
  | true => rw [keeps here, Bool.true_or, Bool.or_true]
  | false =>
      rw [here, Bool.false_or, Bool.or_eq_true] at holds
      rcases holds with before | behind
      · rw [before, Bool.true_or]
      · rw [behind, Bool.or_true, Bool.or_true]

theorem countP_set (found : workers[number]? = some worker) (check : Worker α → Bool)
    (other : Worker α) :
    (workers.set number other).countP check + (if check worker then 1 else 0) =
      workers.countP check + if check other then 1 else 0 := by
  rcases exists_set found other with ⟨front, back, workers_eq, set_eq⟩
  have counts (one : Worker α) : (front ++ one :: back).countP check =
      front.countP check + back.countP check + if check one then 1 else 0 := by
    rw [List.countP_append, List.countP_cons, Nat.add_assoc]
  rw [set_eq, workers_eq, counts, counts, Nat.add_right_comm]

end Set

/-- A panic is not undone. -/
theorem Step.harmed (step : Step app crew number after)
    (panicked : crew.workers.any Worker.hasPanicked = true) :
    after.workers.any Worker.hasPanicked = true := by
  cases step with
  | rests => exact panicked
  | @replays job queue found =>
      rcases crew.exists_replay app job with ⟨middle, replay_eq⟩
      rw [replay_eq]
      exact any_set_of_imp found nofun panicked
  | ends found => exact any_set_of_imp found (fun _ => rfl) panicked
  | takes found | disposes found | clears found | counts found | fails found =>
      exact any_set_of_imp found nofun panicked

theorem Handing.harmed {result : Except Panic Bool × Crew α σ}
    (handing : Handing app crew job result)
    (panicked : crew.workers.any Worker.hasPanicked = true) :
    result.2.workers.any Worker.hasPanicked = true := by
  cases handing with
  | sends going found => exact any_set_of_imp found id panicked
  | disposes | replays | fails | panics | loses => exact panicked

/-! ### What a crew knows of its replays -/

/-- A crew that was told to stop, or not, and knows what came of its replays. -/
structure Honest (app : Application α σ) (told : Bool) (state : σ) (crew : Crew α σ) : Prop where
  aborted : crew.aborted = (told || crew.firstError.isSome)
  state_eq : crew.state = Use.advanceAll app crew.uses.reverse state
  /-- A failure is noted, or a worker has it to note, or was lost to it. -/
  evident : Faulted app state crew ↔
    crew.firstError ≠ none ∨ crew.workers.any Worker.hasFailed = true
  counted : ¬ Faulted app state crew →
    crew.replayed + crew.workers.countP Worker.hasReplayed = crew.uses.countP Use.isReplayed
  harmed : crew.workers.any Worker.hasPanicked = true → ¬ app.NeverPanics

theorem honest_assemble (app : Application α σ) (workers : Nat) (state : σ) :
    Honest app false state (.assemble workers state) := by
  have nothing (check : Worker α → Bool) (idle : check ⟨[], .idle⟩ = false) :
      (List.replicate workers ⟨[], .idle⟩).any check = false := by
    rw [List.any_replicate, idle, ite_self]
  constructor
  · rfl
  · rfl
  · have sound : ¬ Faulted app state (assemble workers state) := by
      rintro ⟨fault, failed⟩
      cases failed
    refine iff_of_false sound (not_or.mpr ⟨fun noted => noted rfl, ?_⟩)
    rw [assemble, nothing _ rfl]
    exact Bool.false_ne_true
  · intro _
    rw [assemble, List.countP_replicate]
    rfl
  · rw [assemble, nothing _ rfl]
    exact nofun

namespace Honest

/-- An action is consumed. -/
theorem faulted_cons (honest : Honest app told state crew)
    (uses_eq : after.uses = use :: crew.uses) :
    Faulted app state after ↔
      Faulted app state crew ∨ ∃ fault, use.carryOut app crew.state = .error fault := by
  rw [Faulted, uses_eq, List.reverse_cons, Use.carryOutAll_concat_error, ← honest.state_eq]
  rfl

/-- An action that takes effect is no failure. -/
theorem faulted_of_ok (honest : Honest app told state crew) {final : σ}
    (uses_eq : after.uses = use :: crew.uses) (effect : use.carryOut app crew.state = .ok final) :
    Faulted app state after ↔ Faulted app state crew := by
  refine (honest.faulted_cons uses_eq).trans (or_iff_left ?_)
  rintro ⟨fault, failed⟩
  cases effect.symm.trans failed

theorem state_cons (honest : Honest app told state crew) (use : Use α) :
    Use.advance app crew.state use = Use.advanceAll app (use :: crew.uses).reverse state := by
  rw [List.reverse_cons, Use.advanceAll_concat, ← honest.state_eq]

theorem dispose (honest : Honest app told state crew) (job : Job α) :
    Honest app told state (crew.dispose app job) where
  aborted := honest.aborted
  state_eq := honest.state_cons (.disposed job)
  evident := by
    have same : Faulted app state (crew.dispose app job) ↔ Faulted app state crew :=
      honest.faulted_of_ok rfl rfl
    exact same.trans honest.evident
  counted sound := honest.counted fun faulted => sound (faulted.later (later_dispose crew job))
  harmed := honest.harmed

/-- A worker takes a step that has nothing to do with a result. -/
theorem setWorker (honest : Honest app told state crew)
    (found : crew.workers[number]? = some worker) (failed : other.hasFailed = worker.hasFailed)
    (replayed : other.hasReplayed = worker.hasReplayed)
    (panicked : other.hasPanicked = worker.hasPanicked) :
    Honest app told state (crew.setWorker number other) where
  aborted := honest.aborted
  state_eq := honest.state_eq
  evident := (any_set found other _ failed).symm ▸ honest.evident
  counted sound := by
    have same := countP_set found Worker.hasReplayed other
    rw [replayed] at same
    exact (Nat.add_right_cancel same).symm ▸ honest.counted sound
  harmed := (any_set found other _ panicked).symm ▸ honest.harmed

/-- A worker replays its job, which takes effect. -/
theorem replay_ok (honest : Honest app told state crew) {queue : List (Job α)} {after : σ}
    (found : crew.workers[number]? = some ⟨queue, .cleared job⟩)
    (effect : (Use.replayed job).carryOut app crew.state = .ok after) :
    Honest app told state
      ({ crew with uses := .replayed job :: crew.uses, state := after }.setWorker number
        ⟨queue, .returned job.lsn (.ok ())⟩) := by
  let returned : Worker α := ⟨queue, .returned job.lsn (.ok ())⟩
  let consumed : Crew α σ := { crew with uses := .replayed job :: crew.uses, state := after }
  have same : Faulted app state consumed ↔ Faulted app state crew :=
    honest.faulted_of_ok rfl effect
  constructor
  · exact honest.aborted
  · exact (Use.advance_of_ok effect).symm.trans (honest.state_cons _)
  · exact (any_set found returned Worker.hasFailed rfl).symm ▸ same.trans honest.evident
  · intro sound
    have counted := honest.counted fun faulted => sound (same.mpr faulted)
    have one_more : _ = crew.workers.countP Worker.hasReplayed + 1 :=
      countP_set found Worker.hasReplayed returned
    refine Eq.trans ?_ (List.countP_cons_of_pos rfl).symm
    rw [← counted, Nat.add_assoc, ← one_more]
    rfl
  · exact (any_set found returned Worker.hasPanicked rfl).symm ▸ honest.harmed

/-- A worker replays its job, which fails. -/
theorem replay_error (honest : Honest app told state crew) {queue : List (Job α)}
    {fault : ReplayFault} (found : crew.workers[number]? = some ⟨queue, .cleared job⟩)
    (effect : (Use.replayed job).carryOut app crew.state = .error fault) :
    Honest app told state ({ crew with uses := .replayed job :: crew.uses }.setWorker number
      ⟨queue, .returned job.lsn (.error fault)⟩) := by
  let returned : Worker α := ⟨queue, .returned job.lsn (.error fault)⟩
  let consumed : Crew α σ := { crew with uses := .replayed job :: crew.uses }
  have faulted : Faulted app state consumed := (honest.faulted_cons rfl).mpr (.inr ⟨fault, effect⟩)
  have inside := (List.getElem?_eq_some_iff.mp found).1
  constructor
  · exact honest.aborted
  · exact (Use.advance_of_error effect).symm.trans (honest.state_cons _)
  · exact iff_of_true faulted (.inr (any_of_found (List.getElem?_set_self inside) rfl))
  · exact fun sound => absurd faulted sound
  · cases fault with
    | refused text =>
        exact (any_set found returned Worker.hasPanicked rfl).symm ▸ honest.harmed
    | panicked panic => exact fun _ calm => calm _ _ _ panic effect

/-- A worker notes that its replay took effect. -/
theorem counts (honest : Honest app told state crew) {queue : List (Job α)} {lsn : Nat}
    (found : crew.workers[number]? = some ⟨queue, .returned lsn (.ok ())⟩) :
    Honest app told state (crew.count.setWorker number ⟨queue, .idle⟩) where
  aborted := honest.aborted
  state_eq := honest.state_eq
  evident := (any_set found ⟨queue, .idle⟩ Worker.hasFailed rfl).symm ▸ honest.evident
  counted sound := by
    have counted := honest.counted sound
    have one_less : _ + 1 = crew.workers.countP Worker.hasReplayed :=
      countP_set found Worker.hasReplayed ⟨queue, .idle⟩
    rw [← one_less, Nat.add_comm _ 1, ← Nat.add_assoc] at counted
    exact counted
  harmed := (any_set found ⟨queue, .idle⟩ Worker.hasPanicked rfl).symm ▸ honest.harmed

/-- A failure is noted after a replay failed. -/
theorem fail (honest : Honest app told state crew) (faulted : Faulted app state crew)
    (error : RecoveryError) : Honest app told state (crew.fail error) where
  aborted := (Bool.or_true told).symm
  state_eq := honest.state_eq
  evident := iff_of_true faulted (.inl (Option.some_ne_none _))
  counted sound := absurd faulted sound
  harmed := honest.harmed

/-- A worker notes that its replay failed. -/
theorem notes (honest : Honest app told state crew) {queue : List (Job α)} {lsn : Nat}
    {text : String}
    (found : crew.workers[number]? = some ⟨queue, .returned lsn (.error (.refused text))⟩) :
    Honest app told state ((crew.fail (.replay lsn text)).setWorker number ⟨queue, .idle⟩) := by
  have faulted : Faulted app state crew := honest.evident.mpr (.inr (any_of_found found rfl))
  exact {
    honest.fail faulted (.replay lsn text) with
    evident := iff_of_true faulted (.inl (Option.some_ne_none _))
    counted := fun sound => absurd faulted sound
    harmed := (any_set found ⟨queue, .idle⟩ Worker.hasPanicked rfl).symm ▸ honest.harmed }

/-- Whatever step a worker takes. -/
theorem step (honest : Honest app told state crew) (step : Step app crew number after) :
    Honest app told state after := by
  cases step with
  | rests => exact honest
  | takes found => exact honest.setWorker found rfl rfl rfl
  | disposes found aborted => exact (honest.dispose _).setWorker found rfl rfl rfl
  | clears found going => exact honest.setWorker found rfl rfl rfl
  | @replays job queue found =>
      rcases crew.replay_cases app job with ⟨state, effect, replay_eq⟩ | ⟨fault, effect, replay_eq⟩
      · rw [replay_eq]
        exact honest.replay_ok found effect
      · rw [replay_eq]
        exact honest.replay_error found effect
  | counts found => exact honest.counts found
  | fails found => exact honest.notes found
  | ends found => exact honest.setWorker found rfl rfl rfl

theorem workAll (honest : Honest app told state crew) (numbers : List Nat) :
    Honest app told state (crew.workAll app numbers) :=
  workAll_keeps (fun before number honest => honest.step (before.step_work app number)) honest
    numbers

/-- A worker was lost to a replay, and that is noted. -/
theorem noteLost (honest : Honest app told state crew)
    (lost : crew.workers[number]?.any Worker.isLost = true) (error : RecoveryError) :
    Honest app told state (crew.fail error) := by
  cases found : crew.workers[number]? with
  | none =>
      rw [found] at lost
      cases lost
  | some worker =>
      rw [found, Option.any_some] at lost
      have failed := any_of_found found (Worker.hasFailed_of_isLost lost)
      exact honest.fail (honest.evident.mpr (.inr failed)) error

theorem join (honest : Honest app told state crew) (steps : Nat → List Nat) :
    Honest app told state (crew.join app steps) :=
  join_keeps (fun before number honest => honest.step (before.step_work app number))
    (fun _ _ lost honest => honest.noteLost lost _) honest steps

/-- A crew is told to stop. -/
theorem tell (honest : Honest app told state crew) :
    Honest app true state { crew with aborted := true } :=
  ⟨rfl, honest.state_eq, honest.evident, honest.counted, honest.harmed⟩

/-- An action is handed over, unless its replay panics at once. -/
theorem handing (honest : Honest app told state crew) {result : Except Panic Bool × Crew α σ}
    (handing : Handing app crew job result) :
    (∃ goes_on after, result = (.ok goes_on, after) ∧ Honest app told state after ∧
        after.aborted = !goes_on ∧
        (goes_on = true → Faulted app state after → Faulted app state crew)) ∨
      ∃ panic after, result = (.error panic, after) ∧ Faulted app state after ∧
        ¬ app.NeverPanics := by
  cases handing with
  | disposes aborted => exact .inl ⟨_, _, rfl, honest.dispose job, aborted, nofun⟩
  | @replays middle going alone effect =>
      let consumed : Crew α σ := { crew with uses := .replayed job :: crew.uses, state := middle }
      have same : Faulted app state consumed ↔ Faulted app state crew :=
        honest.faulted_of_ok rfl effect
      refine .inl ⟨_, _, rfl, ?_, going, fun _ => same.mp⟩
      constructor
      · exact honest.aborted
      · exact (Use.advance_of_ok effect).symm.trans (honest.state_cons _)
      · exact same.trans honest.evident
      · intro sound
        have counted := honest.counted fun faulted => sound (same.mpr faulted)
        refine Eq.trans ?_ (List.countP_cons_of_pos rfl).symm
        rw [← counted]
        exact Nat.add_right_comm ..
      · exact honest.harmed
  | @fails text going alone effect =>
      have faulted : Faulted app state { crew with uses := .replayed job :: crew.uses } :=
        (honest.faulted_cons rfl).mpr (.inr ⟨_, effect⟩)
      refine .inl ⟨_, _, rfl, ?_, rfl, nofun⟩
      constructor
      · exact (Bool.or_true told).symm
      · exact (Use.advance_of_error effect).symm.trans (honest.state_cons _)
      · exact iff_of_true faulted (.inl (Option.some_ne_none _))
      · exact fun sound => absurd faulted sound
      · exact honest.harmed
  | @panics panic alone effect =>
      refine .inr ⟨panic, _, rfl, ?_, fun calm => calm _ _ _ panic effect⟩
      exact (honest.faulted_cons rfl).mpr (.inr ⟨_, effect⟩)
  | sends going found =>
      exact .inl ⟨_, _, rfl, honest.setWorker found rfl rfl rfl, going, fun _ => id⟩
  | loses found =>
      have faulted : Faulted app state crew := honest.evident.mpr (.inr (any_of_found found rfl))
      refine .inl ⟨_, _, rfl, (honest.dispose job).fail ?_ _, rfl, nofun⟩
      exact faulted.later (later_dispose crew job)

/-- A crew whose workers have come to their end knows of each failure. -/
theorem noted (honest : Honest app told state crew) (settled : ∀ number, crew.Settled number) :
    Faulted app state crew ↔ crew.firstError ≠ none := by
  refine honest.evident.trans (or_iff_left_of_imp ?_)
  intro failed
  rcases List.any_eq_true.mp failed with ⟨worker, member, failed⟩
  rcases List.getElem?_of_mem member with ⟨number, found⟩
  have rests : worker.stepsLeft = 0 := (stepsLeft_eq found).symm.trans (settled number).rests
  apply (settled number).noted
  rw [found]
  exact Worker.isLost_of_hasFailed rests failed

/-- A crew whose workers have come to their end has counted what was replayed. -/
theorem replayed_eq (honest : Honest app told state crew)
    (settled : ∀ number, crew.Settled number) (sound : ¬ Faulted app state crew) :
    crew.replayed = crew.uses.countP Use.isReplayed := by
  have none : crew.workers.countP Worker.hasReplayed = 0 := by
    rw [List.countP_eq_zero]
    intro worker member
    rcases List.getElem?_of_mem member with ⟨number, found⟩
    have rests : worker.stepsLeft = 0 := (stepsLeft_eq found).symm.trans (settled number).rests
    rw [Worker.hasReplayed_of_rests rests]
    exact Bool.false_ne_true
  have counted := honest.counted sound
  rw [none] at counted
  exact counted

/-- Where no replay failed, none panicked. -/
theorem not_harmed (honest : Honest app told state crew) (sound : ¬ Faulted app state crew) :
    crew.workers.any Worker.hasPanicked = false := by
  refine eq_false_of_ne_true fun harmed => sound (honest.evident.mpr (.inr ?_))
  rcases List.any_eq_true.mp harmed with ⟨worker, member, panicked⟩
  exact List.any_eq_true.mpr ⟨worker, member, Worker.hasFailed_of_hasPanicked panicked⟩

/-- Where no replay can panic, none did. -/
theorem living (honest : Honest app told state crew) (calm : app.NeverPanics) :
    crew.workers.any Worker.hasPanicked = false :=
  eq_false_of_ne_true fun panicked => honest.harmed panicked calm

/-- Where no replay failed, what was consumed had its effect. -/
theorem carried (honest : Honest app told state crew) (sound : ¬ Faulted app state crew) :
    Use.carryOutAll app crew.uses.reverse state = .ok crew.state := by
  cases outcome : Use.carryOutAll app crew.uses.reverse state with
  | error fault => exact absurd ⟨fault, outcome⟩ sound
  | ok final => rw [honest.state_eq, Use.advanceAll_of_ok outcome]

end Honest

/-! ### Crews that failed -/

/-- A crew that a replay failed, and that knows of it. -/
structure Failed (app : Application α σ) (state : σ) (crew : Crew α σ) : Prop where
  honest : Honest app false state crew
  faulted : Faulted app state crew

namespace Failed

theorem dispose (failed : Failed app state crew) (job : Job α) :
    Failed app state (crew.dispose app job) :=
  ⟨failed.honest.dispose job, failed.faulted.later (later_dispose crew job)⟩

theorem dispatch (failed : Failed app state crew) (job : Job α) :
    (∃ goes_on after, crew.dispatch app job = (.ok goes_on, after) ∧ Failed app state after) ∨
      ∃ panic after, crew.dispatch app job = (.error panic, after) ∧ Faulted app state after := by
  have handing := crew.handing_dispatch app job
  rcases failed.honest.handing handing with
    ⟨goes_on, after, dispatched, honest, _⟩ | ⟨panic, after, dispatched, faulted, _⟩
  · rw [dispatched] at handing
    exact .inl ⟨goes_on, after, dispatched, honest, failed.faulted.later handing.later⟩
  · exact .inr ⟨panic, after, dispatched, faulted⟩

theorem workAll (failed : Failed app state crew) (numbers : List Nat) :
    Failed app state (crew.workAll app numbers) :=
  ⟨failed.honest.workAll numbers, failed.faulted.later (later_workAll app crew numbers)⟩

/-- A crew whose replay failed says so in the end. -/
theorem join (failed : Failed app state crew) (steps : Nat → List Nat) :
    Faulted app state (crew.join app steps) ∧ (crew.join app steps).firstError ≠ none := by
  have faulted := failed.faulted.later (later_join app crew steps)
  exact ⟨faulted, ((failed.honest.join steps).noted (settled_join app crew steps)).mp faulted⟩

/-- A crew that is told to stop has still failed. -/
theorem abort (failed : Failed app state crew) (steps : Nat → List Nat) :
    Faulted app state (crew.abort app steps) ∧ (crew.abort app steps).firstError ≠ none := by
  have told : Faulted app state { crew with aborted := true } := failed.faulted
  have faulted := told.later (later_join app _ steps)
  exact ⟨faulted, ((failed.honest.tell.join steps).noted (settled_join app _ steps)).mp faulted⟩

end Failed

end Crew

end Recovery

end Logbook

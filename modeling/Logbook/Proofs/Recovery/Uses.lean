import Logbook.Recovery.Crew

/-!
# What becomes of actions

Actions that are replayed and disposed of, one after the other, take the state of an
application to another one. A replay that fails leaves the state as it was, and others
may come after it. Whether one of them failed can be told from the first that did.
-/

namespace Logbook.Recovery

variable {α σ : Type} {app : Application α σ}

namespace Use

/-- The action that is consumed. -/
def job : Use α → Job α
  | replayed job | disposed job => job

theorem map_job_concat (uses : List (Use α)) (use : Use α) :
    (uses ++ [use]).map job = uses.map job ++ [use.job] :=
  List.map_append

/-- Whether the action was replayed. -/
def isReplayed : Use α → Bool
  | replayed _ => true
  | disposed _ => false

/-- The action, if it is replayed. -/
def replay? : Use α → Option (Job α)
  | replayed job => some job
  | disposed _ => none

/-- Whether an action of the bucket is replayed. -/
def replaysIn (app : Application α σ) (bucket : UInt64) : Use α → Bool
  | replayed job => app.bucket job.action = bucket
  | disposed _ => false

end Use

/-! ### Replayed actions -/

/-- The actions that are replayed, in the order in which they are. -/
def replayedJobs (uses : List (Use α)) : List (Job α) := uses.filterMap Use.replay?

@[simp]
theorem replayedJobs_append (front back : List (Use α)) :
    replayedJobs (front ++ back) = replayedJobs front ++ replayedJobs back :=
  List.filterMap_append

theorem mem_replayedJobs {uses : List (Use α)} {job : Job α} :
    job ∈ replayedJobs uses ↔ .replayed job ∈ uses := by
  rw [replayedJobs, List.mem_filterMap]
  constructor
  · rintro ⟨use, member, is_replayed⟩
    cases use with
    | replayed other => cases is_replayed; exact member
    | disposed other => cases is_replayed
  · exact fun member => ⟨_, member, rfl⟩

/-- What is replayed is among what is consumed. -/
theorem sublist_replayedJobs (uses : List (Use α)) :
    (replayedJobs uses).Sublist (uses.map Use.job) := by
  induction uses with
  | nil => exact List.Sublist.refl _
  | cons use uses ih =>
      cases use with
      | replayed job => exact ih.cons_cons _
      | disposed job => exact ih.cons _

theorem length_replayedJobs (uses : List (Use α)) :
    (replayedJobs uses).length = uses.countP Use.isReplayed := by
  induction uses with
  | nil => rfl
  | cons use uses ih =>
      rw [List.countP_cons, ← ih]
      cases use <;> rfl

/-- What is replayed of a bucket are its jobs among those that are replayed. -/
theorem filter_replaysIn (app : Application α σ) (bucket : UInt64) (uses : List (Use α)) :
    uses.filter (Use.replaysIn app bucket) =
      ((replayedJobs uses).filter fun job => app.bucket job.action = bucket).map .replayed := by
  induction uses with
  | nil => rfl
  | cons use uses ih =>
      rw [List.filter_cons, ih]
      cases use with
      | disposed job => rfl
      | replayed job =>
          rw [show replayedJobs (.replayed job :: uses) = job :: replayedJobs uses from rfl,
            List.filter_cons]
          by_cases here : app.bucket job.action = bucket <;> simp [Use.replaysIn, here]

/-! ### Actions that are carried out -/

namespace Use

/-- Consume an action. -/
def carryOut (app : Application α σ) (use : Use α) (state : σ) : Except ReplayFault σ :=
  match use with
  | replayed job => app.replay job.action job.lsn state
  | disposed job => .ok (app.dispose job.action state)

/-- Consume some actions, one after the other. -/
def carryOutAll (app : Application α σ) (uses : List (Use α)) (state : σ) :
    Except ReplayFault σ :=
  uses.foldlM (fun state use => use.carryOut app state) state

/-- The state after an action was consumed, in which a failed replay leaves no trace. -/
def advance (app : Application α σ) (state : σ) (use : Use α) : σ :=
  match use.carryOut app state with
  | .ok after => after
  | .error _ => state

/-- The state after some actions were consumed, whichever replays failed. -/
def advanceAll (app : Application α σ) (uses : List (Use α)) (state : σ) : σ :=
  uses.foldl (advance app) state

/-- Of some actions that are consumed one after the other, the replay of one fails. -/
def SomeReplayFails (app : Application α σ) (uses : List (Use α)) (state : σ) : Prop :=
  ∃ front job back fault, uses = front ++ .replayed job :: back ∧
    app.replay job.action job.lsn (advanceAll app front state) = .error fault

section CarryOut

variable {uses : List (Use α)} {use : Use α} {state middle final : σ}

theorem advance_of_ok (effect : use.carryOut app state = .ok middle) :
    advance app state use = middle := by
  rw [advance, effect]

theorem advance_of_error {fault : ReplayFault} (effect : use.carryOut app state = .error fault) :
    advance app state use = state := by
  rw [advance, effect]

theorem carryOutAll_cons (app : Application α σ) (use : Use α) (uses : List (Use α))
    (state : σ) :
    carryOutAll app (use :: uses) state = use.carryOut app state >>= carryOutAll app uses :=
  List.foldlM_cons

theorem carryOutAll_concat (before : carryOutAll app uses state = .ok middle) :
    carryOutAll app (uses ++ [use]) state = use.carryOut app middle := by
  rw [carryOutAll] at before
  rw [carryOutAll, List.foldlM_append, before]
  simp [bind, Except.bind, pure, Except.pure]
  cases use.carryOut app middle <;> rfl

/-- What a longer list goes through is no failure. -/
theorem carryOutAll_prefix {front : List (Use α)} (is_front : front <+: uses)
    (carried : carryOutAll app uses state = .ok final) :
    ∃ middle, carryOutAll app front state = .ok middle := by
  rcases is_front with ⟨back, rfl⟩
  rw [carryOutAll, List.foldlM_append] at carried
  rw [carryOutAll]
  generalize front.foldlM (fun state use => carryOut app use state) state = outcome at carried ⊢
  cases outcome with
  | error fault => cases carried
  | ok middle => exact ⟨middle, rfl⟩

theorem advanceAll_concat (app : Application α σ) (uses : List (Use α)) (use : Use α)
    (state : σ) :
    advanceAll app (uses ++ [use]) state = advance app (advanceAll app uses state) use :=
  List.foldl_append

/-- Where no replay fails, the actions have their effect. -/
theorem advanceAll_of_ok (carried : carryOutAll app uses state = .ok final) :
    advanceAll app uses state = final := by
  induction uses generalizing state with
  | nil => cases carried; rfl
  | cons use uses ih =>
      rw [carryOutAll_cons] at carried
      cases effect : use.carryOut app state with
      | error fault => rw [effect] at carried; cases carried
      | ok middle =>
          rw [effect] at carried
          rw [advanceAll, List.foldl_cons, advance_of_ok effect]
          exact ih carried

/-- Some replay fails where the actions cannot all be carried out. -/
theorem someReplayFails_iff :
    SomeReplayFails app uses state ↔ ∃ fault, carryOutAll app uses state = .error fault := by
  induction uses generalizing state with
  | nil =>
      constructor
      · rintro ⟨front, job, back, fault, uses_eq, _⟩
        exact absurd uses_eq.symm (List.append_ne_nil_of_right_ne_nil front (List.cons_ne_nil _ _))
      · rintro ⟨fault, failed⟩
        cases failed
  | cons use uses ih =>
      rw [carryOutAll_cons]
      cases effect : use.carryOut app state with
      | error fault =>
          refine iff_of_true ?_ ⟨fault, rfl⟩
          cases use with
          | disposed job => cases effect
          | replayed job => exact ⟨[], job, uses, fault, rfl, effect⟩
      | ok middle =>
          refine Iff.trans ?_ ih
          have onward (front : List (Use α)) :
              advanceAll app (use :: front) state = advanceAll app front middle := by
            rw [advanceAll, List.foldl_cons, advance_of_ok effect]
            rfl
          constructor
          · rintro ⟨front, job, back, fault, uses_eq, failed⟩
            cases front with
            | nil =>
                cases uses_eq
                cases effect.symm.trans failed
            | cons first front =>
                cases uses_eq
                exact ⟨front, job, back, fault, rfl, onward front ▸ failed⟩
          · rintro ⟨front, job, back, fault, rfl, failed⟩
            exact ⟨use :: front, job, back, fault, rfl, (onward front).symm ▸ failed⟩

/-- What fails is not repaired by what comes after it. -/
theorem carryOutAll_append_error {front : List (Use α)} {fault : ReplayFault}
    (failed : carryOutAll app front state = .error fault) (back : List (Use α)) :
    carryOutAll app (front ++ back) state = .error fault := by
  rw [carryOutAll] at failed
  rw [carryOutAll, List.foldlM_append, failed]
  rfl

/-- One more action makes the difference only if its own replay fails. -/
theorem carryOutAll_concat_error :
    (∃ fault, carryOutAll app (uses ++ [use]) state = .error fault) ↔
      (∃ fault, carryOutAll app uses state = .error fault) ∨
        ∃ fault, use.carryOut app (advanceAll app uses state) = .error fault := by
  cases before : carryOutAll app uses state with
  | error fault =>
      exact iff_of_true ⟨fault, carryOutAll_append_error before [use]⟩ (.inl ⟨fault, rfl⟩)
  | ok middle =>
      rw [carryOutAll_concat before, advanceAll_of_ok before]
      exact (or_iff_right (by simp)).symm

end CarryOut

end Use

end Logbook.Recovery

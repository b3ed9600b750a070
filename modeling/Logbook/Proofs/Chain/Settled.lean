import Logbook.Chain.Event
import Logbook.Proofs.Chain.Custody
import Logbook.Proofs.Chain.Outcomes

/-!
# The first failure wins

What a completion handle says is decided by when the writer failed first. A write that was
over by then stays a success, and every other window ends in that failure, whether it was
there at the time or is made later, and whatever failure is reported after it. The handle
says so however it is asked, a wait that began before the failure included.
-/

namespace Logbook

namespace WriteFuture

variable {outcome : WriteOutcome}

theorem wait_cons (future : WriteFuture) (later : List WriteFuture) :
    wait (future :: later) = future.poll.or (wait later) := by
  rcases future with ⟨_ | outcome, _ | failure⟩ <;> rfl

/-- A wait ends like the handle at the last look, if no look before told otherwise. -/
theorem wait_concat {looks : List WriteFuture} {last : WriteFuture}
    (waiting : ∀ look ∈ looks, look.poll = none ∨ look.poll = some outcome)
    (done : last.poll = some outcome) : wait (looks ++ [last]) = some outcome := by
  induction looks with
  | nil => rw [List.nil_append, wait_cons, done, Option.some_or]
  | cons look looks ih =>
      obtain ⟨here, later⟩ := List.forall_mem_cons.mp waiting
      rw [List.cons_append, wait_cons, ih later]
      rcases here with none | found
      · rw [none, Option.none_or]
      · rw [found, Option.some_or]

/-- So does a wait with a time limit. -/
theorem waitTimeout_eq_some {future woken : WriteFuture}
    (waiting : future.poll = none ∨ future.poll = some outcome)
    (done : woken.poll = some outcome) : future.waitTimeout woken = some outcome := by
  rcases future with ⟨_ | own, _ | failure⟩
  · exact done
  · exact waiting.resolve_left (Option.some_ne_none _)
  · exact waiting.resolve_left (Option.some_ne_none _)
  · exact waiting.resolve_left (Option.some_ne_none _)

end WriteFuture

namespace Window

/-- The window holds a record of each number up to its end. -/
def MissesNone (window : Window) (last : Nat) : Prop :=
  ∀ lsn, window.base ≤ lsn → lsn ≤ last → ∃ record, window.Holds record ∧ record.lsn = lsn

namespace Sound

variable {capacity : Capacity} {window : Window} {last : Nat} {failure : DurabilityFailure}

/-- A closed window gives its records out in order, also after a failure. -/
theorem contiguous_of_missesNone (sound : window.Sound capacity)
    (closed : window.fixedEnd = some last) (whole : window.MissesNone last)
    (failure : Option DurabilityFailure) :
    ∃ records, window.contiguous failure = .ok (some records) ∧
      (∀ record, record ∈ records ↔ window.Holds record) ∧
      records.map (·.lsn) = List.range' window.base (last + 1 - window.base) := by
  have filled := (sound.all_isFilled_iff closed).mpr whole
  refine ⟨(window.keptSlots last).filterMap Slot.record?, ?_,
    fun record => sound.holds_iff_keptSlots closed, ?_⟩
  · simp only [contiguous, closed, filled, if_true]
  · rw [← sound.length_keptSlots closed]
    refine map_lsn_filterMap_record? filled fun offset record sync found => ?_
    rw [keptSlots, List.getElem?_take] at found
    split at found
    · exact sound.lsn_of_filled offset record sync found
    · cases found

/-- What a closed window misses will not come after a failure. -/
theorem contiguous_of_missing (sound : window.Sound capacity)
    (closed : window.fixedEnd = some last) (missing : ¬ window.MissesNone last)
    (failure : DurabilityFailure) :
    window.contiguous (some failure) = .error (.durability failure) := by
  have unfilled : ¬ (window.keptSlots last).all Slot.isFilled = true := fun filled =>
    missing ((sound.all_isFilled_iff closed).mp filled)
  simp only [contiguous, closed, if_neg unfilled]

end Sound

end Window

namespace Chain

open Windows

variable {first : Nat} {chain : Chain}

/-! ### Events -/

theorem called_of_call (sound : Sound first chain) (call : Call) :
    ∃ bound, Called first bound chain (chain.call call).1 (chain.call call).2 :=
  @History.called_call first (.start chain) sound call

theorem sound_fail (sound : Sound first chain) (failure : DurabilityFailure) :
    Sound first (chain.fail failure) := by
  have same : (chain.fail failure).windows.map Window.content =
      chain.windows.map Window.content := by
    conv => rhs; rw [← List.take_append_drop chain.tail chain.windows]
    rw [fail, List.map_append, List.map_append, List.map_map]
    rfl
  have length : (chain.fail failure).windows.length = chain.windows.length := by
    simpa only [List.length_map] using congrArg List.length same
  have carried : Carried chain.capacity first 0 chain.windows none (chain.fail failure).windows :=
    .of_content sound.linked same
  exact ⟨carried.linked, length ▸ sound.tail_lt, length ▸ sound.head_lt⟩

/-- Whatever happens to a chain, its windows stay linked. -/
theorem sound_react (sound : Sound first chain) (event : Event) :
    Sound first (chain.react event) := by
  cases event with
  | called call =>
      obtain ⟨bound, called⟩ := called_of_call sound call
      exact called.sound sound
  | completed =>
      have called : Called first 0 chain none (chain.complete chain.tail) :=
        called_complete sound chain.tail
      exact called.sound sound
  | retired held =>
      obtain ⟨bound, called⟩ := called_of_call sound (.next chain.tail)
      exact sound_retire sound.tail_lt held (called.sound sound)
  | failed failure => exact sound_fail sound failure

/-- The failure that an event reports. -/
def Event.failure? : Event → Option DurabilityFailure
  | .failed failure => some failure
  | _ => none

/-- Only the first failure counts. -/
theorem failure_react (sound : Sound first chain) (event : Event) :
    (chain.react event).failure = chain.failure.or event.failure? := by
  cases event with
  | called call =>
      obtain ⟨bound, called⟩ := called_of_call sound call
      exact called.failure.trans (Option.or_none).symm
  | completed => exact (Option.or_none).symm
  | retired held =>
      obtain ⟨bound, called⟩ := called_of_call sound (.next chain.tail)
      exact called.failure.trans (Option.or_none).symm
  | failed failure =>
      change some (chain.failure.getD failure) = chain.failure.or (some failure)
      cases chain.failure <;> rfl

namespace Watch

variable {watch : Watch} {failure : DurabilityFailure}

/-- The writer has not failed, and the windows that were completed are the ones with an
outcome. -/
structure Running (first : Nat) (watch : Watch) : Prop where
  sound : Sound first watch.chain
  unfailed : watch.chain.failure = none
  outcome_eq : ∀ place, Windows.outcomeAt watch.chain.windows place =
    if place ∈ watch.completed then some (.ok ()) else none

theorem running_start (first capacity poolLimit : Nat) :
    Running first (start (.create first capacity poolLimit)) where
  sound := sound_create first capacity poolLimit
  unfailed := rfl
  outcome_eq place := by
    have unsettled : Windows.outcomeAt (create first capacity poolLimit).windows place = none :=
      congrFun (outcomeAt_cons_of_none rfl rfl) place
    exact unsettled.trans (if_neg List.not_mem_nil).symm

theorem Running.step (running : Running first watch) {event : Event}
    (unfailed : event.failure? = none) : Running first (watch.step event) where
  sound := sound_react running.sound event
  unfailed := (failure_react running.sound event).trans (by rw [running.unfailed, unfailed]; rfl)
  outcome_eq place := by
    cases event with
    | called call => exact (congrFun (outcomeAt_call call) place).trans (running.outcome_eq place)
    | retired held =>
        exact (congrFun (outcomeAt_next watch.chain.tail) place).trans (running.outcome_eq place)
    | failed failure => cases unfailed
    | completed =>
        have settled : ((Windows.outcomeAt watch.chain.windows watch.chain.tail).getD (.ok ())) =
            .ok () := by
          rw [running.outcome_eq]
          split <;> rfl
        change Windows.outcomeAt (watch.chain.complete watch.chain.tail).windows place =
          if place ∈ watch.chain.tail :: watch.completed then some (.ok ()) else none
        rw [outcomeAt_complete running.sound.tail_lt, settled, running.outcome_eq]
        by_cases same : place = watch.chain.tail
        · rw [if_pos same, if_pos (List.mem_cons.mpr (.inl same))]
        · simp only [same, if_false, List.mem_cons, false_or]

theorem Running.run (running : Running first watch) {events : List Event}
    (unfailed : ∀ event ∈ events, event.failure? = none) : Running first (watch.run events) := by
  induction events generalizing watch with
  | nil => exact running
  | cons event events ih =>
      obtain ⟨here, later⟩ := List.forall_mem_cons.mp unfailed
      exact ih (running.step here) later

/-- What is completed stays completed. -/
theorem mem_completed_run {place : Nat} (completed : place ∈ watch.completed)
    (events : List Event) : place ∈ (watch.run events).completed := by
  induction events generalizing watch with
  | nil => exact completed
  | cons event events ih =>
      apply ih
      simp only [step]
      split
      · exact List.mem_cons_of_mem _ completed
      · exact completed

/-- How the write of the window at a place ends, if the writer fails when these windows are
completed. -/
def verdict (completed : List Nat) (failure : DurabilityFailure) (place : Nat) : WriteOutcome :=
  if place ∈ completed then .ok () else .error failure

/-- The writer has failed, and what is settled is settled as it should be. -/
structure Failed (first : Nat) (failure : DurabilityFailure) (completed : List Nat)
    (chain : Chain) : Prop where
  sound : Sound first chain
  failure_eq : chain.failure = some failure
  succeeded : ∀ place ∈ completed, Windows.outcomeAt chain.windows place = some (.ok ())
  settled : ∀ place outcome, Windows.outcomeAt chain.windows place = some outcome →
    outcome = verdict completed failure place

/-- The first failure. -/
theorem Running.failed (running : Running first watch) (failure : DurabilityFailure) :
    Failed first failure watch.completed (watch.chain.fail failure) where
  sound := sound_fail running.sound failure
  failure_eq := by rw [fail, running.unfailed]; rfl
  succeeded place completed := by
    have settled : Windows.outcomeAt watch.chain.windows place = some (.ok ()) := by
      rw [running.outcome_eq, if_pos completed]
    exact outcomeAt_fail_of_settled running.sound failure settled
  settled place outcome found := by
    have before := running.outcome_eq place
    unfold verdict
    rcases outcomeAt_fail running.sound failure place with same | ⟨unsettled, same⟩
    · rw [same.symm.trans found] at before
      split at before
      · rename_i completed
        rw [if_pos completed]
        exact Option.some.inj before
      · cases before
    · rw [unsettled] at before
      rw [same, running.unfailed] at found
      split at before
      · cases before
      · rename_i uncompleted
        rw [if_neg uncompleted]
        exact (Option.some.inj found).symm

namespace Failed

variable {completed : List Nat} {chain : Chain}

theorem react (failed : Failed first failure completed chain) {event : Event}
    (uncompleted : event ≠ .completed) :
    Failed first failure completed (chain.react event) := by
  have sound := sound_react failed.sound event
  have failure_eq : (chain.react event).failure = some failure := by
    rw [failure_react failed.sound, failed.failure_eq]
    rfl
  have kept : Windows.outcomeAt (chain.react event).windows = Windows.outcomeAt chain.windows →
      Failed first failure completed (chain.react event) := fun same =>
    ⟨sound, failure_eq, fun place member => (congrFun same place).trans (failed.succeeded place member),
      fun place outcome found => failed.settled place outcome ((congrFun same place).symm.trans found)⟩
  cases event with
  | called call => exact kept (outcomeAt_call call)
  | retired held => exact kept (outcomeAt_next chain.tail)
  | completed => exact absurd rfl uncompleted
  | failed other =>
      refine ⟨sound, failure_eq, fun place member => ?_, fun place outcome found => ?_⟩
      · exact outcomeAt_fail_of_settled failed.sound other (failed.succeeded place member)
      · rcases outcomeAt_fail failed.sound other place with same | ⟨unsettled, same⟩
        · exact failed.settled place outcome (same.symm.trans found)
        · have uncompleted : place ∉ completed := by
            intro member
            cases unsettled.symm.trans (failed.succeeded place member)
          rw [verdict, if_neg uncompleted]
          rw [failed.failure_eq] at same
          exact Option.some.inj (found.symm.trans same)

theorem run (failed : Failed first failure completed watch.chain) {events : List Event}
    (uncompleted : ∀ event ∈ events, event ≠ .completed) :
    Failed first failure completed (watch.run events).chain := by
  induction events generalizing watch with
  | nil => exact failed
  | cons event events ih =>
      obtain ⟨here, later⟩ := List.forall_mem_cons.mp uncompleted
      exact ih (failed.react here) later

/-- Every handle has its outcome. -/
theorem poll_eq (failed : Failed first failure completed chain) (place : Nat) :
    (chain.futureAt place).poll = some (verdict completed failure place) := by
  have outcome_eq : (chain.futureAt place).outcome = Windows.outcomeAt chain.windows place := rfl
  unfold WriteFuture.poll
  rw [outcome_eq]
  cases found : Windows.outcomeAt chain.windows place with
  | some outcome => exact congrArg some (failed.settled place outcome found)
  | none =>
      have uncompleted : place ∉ completed := by
        intro member
        cases found.symm.trans (failed.succeeded place member)
      rw [verdict, if_neg uncompleted, futureAt, failed.failure_eq]
      rfl

end Failed

/-- Before the writer fails a handle has no outcome or the one that it will have. -/
theorem Running.poll_cases (running : Running first watch) {completed : List Nat}
    (later : ∀ place ∈ watch.completed, place ∈ completed) (failure : DurabilityFailure)
    (place : Nat) :
    (watch.chain.futureAt place).poll = none ∨
      (watch.chain.futureAt place).poll = some (verdict completed failure place) := by
  have outcome_eq : (watch.chain.futureAt place).outcome =
      Windows.outcomeAt watch.chain.windows place := rfl
  unfold WriteFuture.poll
  rw [outcome_eq, running.outcome_eq]
  by_cases done : place ∈ watch.completed
  · rw [if_pos done, verdict, if_pos (later place done)]
    exact .inr rfl
  · rw [if_neg done, futureAt, running.unfailed]
    exact .inl rfl

/-- What can be observed of a chain once its writer has failed, the completed windows being
those that were completed by then. -/
structure Decided (failure : DurabilityFailure) (completed : List Nat) (fresh : Watch)
    (events : List Event) : Prop where
  /-- The first failure is the failure of the chain. -/
  failure_eq : (fresh.run events).chain.failure = some failure
  outcomeAt_eq : ∀ place,
    (fresh.run events).chain.outcomeAt place = some (verdict completed failure place)
  poll_eq : ∀ place,
    ((fresh.run events).chain.futureAt place).poll = some (verdict completed failure place)
  /-- A wait ends like that, at whichever moments it has looked before. -/
  wait_eq : ∀ place (moments : List (List Event)), (∀ moment ∈ moments, moment <+: events) →
    WriteFuture.wait ((moments ++ [events]).map fun moment =>
      (fresh.run moment).chain.futureAt place) = some (verdict completed failure place)
  /-- So does a wait with a time limit, whenever it has begun. -/
  waitTimeout_eq : ∀ place moment, moment <+: events →
    ((fresh.run moment).chain.futureAt place).waitTimeout
      ((fresh.run events).chain.futureAt place) = some (verdict completed failure place)
  /-- Appending fails and changes nothing. -/
  append_eq : ∀ record sync, (fresh.run events).chain.append record sync =
    (.error (.durability failure), (fresh.run events).chain)
  /-- A closed window that misses nothing gives out its records in order. -/
  contiguousAt_eq_ok : ∀ place window last, (fresh.run events).chain.window? place = some window →
    window.fixedEnd = some last → window.MissesNone last →
    ∃ records, (fresh.run events).chain.contiguousAt place = .ok (some records) ∧
      (∀ record, record ∈ records ↔ window.Holds record) ∧
      records.map (·.lsn) = List.range' window.base (last + 1 - window.base)
  /-- A closed window that misses a record gives out the failure. -/
  contiguousAt_eq_error : ∀ place window last,
    (fresh.run events).chain.window? place = some window → window.fixedEnd = some last →
    ¬ window.MissesNone last →
    (fresh.run events).chain.contiguousAt place = .error (.durability failure)

/-- At no moment of a run does a handle tell otherwise than in the end. -/
theorem poll_of_moment (first capacity poolLimit : Nat) {before after moment : List Event}
    {failure : DurabilityFailure} (unfailed : ∀ event ∈ before, event.failure? = none)
    (uncompleted : ∀ event ∈ after, event ≠ .completed)
    (early : moment <+: before ++ .failed failure :: after) (place : Nat) :
    let fresh := start (.create first capacity poolLimit)
    ((fresh.run moment).chain.futureAt place).poll = none ∨
      ((fresh.run moment).chain.futureAt place).poll =
        some (verdict (fresh.run before).completed failure place) := by
  intro fresh
  have fresh_running : Running first fresh := running_start first capacity poolLimit
  rcases List.prefix_or_prefix_of_prefix early (List.prefix_append before _) with
    ⟨rest, rfl⟩ | ⟨rest, rfl⟩
  · have running := fresh_running.run fun event member =>
      unfailed event (List.mem_append_left rest member)
    refine running.poll_cases (fun place member => ?_) failure place
    rw [run_append]
    exact mem_completed_run member rest
  · have running := fresh_running.run unfailed
    rw [List.prefix_append_right_inj, List.prefix_cons_iff] at early
    rcases early with rfl | ⟨rest, rfl, early⟩
    · rw [List.append_nil]
      exact running.poll_cases (fun _ member => member) failure place
    · rw [run_append, run_cons]
      have failed : Failed first failure (fresh.run before).completed
          (((fresh.run before).step (.failed failure)).run rest).chain :=
        Failed.run (running.failed failure) fun event member =>
          uncompleted event (early.subset member)
      exact .inr (failed.poll_eq place)

/-- Whatever happened to a new chain before its writer failed, and whatever happens then
apart from completions. -/
theorem decided_run (first capacity poolLimit : Nat) {before after : List Event}
    {failure : DurabilityFailure} (unfailed : ∀ event ∈ before, event.failure? = none)
    (uncompleted : ∀ event ∈ after, event ≠ .completed) :
    Decided failure ((start (.create first capacity poolLimit)).run before).completed
      (start (.create first capacity poolLimit)) (before ++ .failed failure :: after) := by
  have running := (running_start first capacity poolLimit).run unfailed
  have failed : Failed first failure
      ((start (.create first capacity poolLimit)).run before).completed
      ((start (.create first capacity poolLimit)).run (before ++ .failed failure :: after)).chain := by
    rw [run_append, run_cons]
    exact Failed.run (running.failed failure) uncompleted
  refine ⟨failed.failure_eq, fun place => ?_, failed.poll_eq, fun place moments early => ?_,
    fun place moment early => ?_, fun record sync => ?_, ?_, ?_⟩
  · rw [outcomeAt_eq_poll]
    exact failed.poll_eq place
  · rw [List.map_append, List.map_singleton]
    refine WriteFuture.wait_concat (fun look member => ?_) (failed.poll_eq place)
    rcases List.mem_map.mp member with ⟨moment, at_moment, rfl⟩
    exact poll_of_moment first capacity poolLimit unfailed uncompleted (early moment at_moment) place
  · exact WriteFuture.waitTimeout_eq_some
      (poll_of_moment first capacity poolLimit unfailed uncompleted early place)
      (failed.poll_eq place)
  · rw [append, failed.failure_eq]
  · intro place window last here closed whole
    have sound := failed.sound.linked.sound (List.mem_of_getElem? here)
    rw [contiguousAt, here]
    exact sound.contiguous_of_missesNone closed whole _
  · intro place window last here closed missing
    have sound := failed.sound.linked.sound (List.mem_of_getElem? here)
    rw [contiguousAt, here, failed.failure_eq]
    exact sound.contiguous_of_missing closed missing failure

/-- A first window is written, and a second one is closed while it misses a record. -/
def servingOnce : List Event :=
  [.called (.append ⟨100, 0, []⟩ false), .called (.append ⟨101, 0, []⟩ true),
    .called (.closeAt 0 101), .completed, .retired true,
    .called (.append ⟨103, 0, []⟩ false), .called (.closeAt 1 103)]

/-- After the failure windows are made, records come and another failure is reported. -/
def goingOn : List Event :=
  [.called (.next 1), .failed ⟨105, "still unplugged"⟩, .called (.appendAt 2 ⟨104, 0, []⟩ true),
    .called (.closeThrough 104), .retired false]

theorem decided_run_servingOnce :
    (∀ event ∈ servingOnce, event.failure? = none) ∧ (∀ event ∈ goingOn, event ≠ .completed) ∧
      Decided ⟨103, "unplugged"⟩ [0] (start (.create 100 2 0))
        (servingOnce ++ .failed ⟨103, "unplugged"⟩ :: goingOn) := by
  have unfailed : ∀ event ∈ servingOnce, event.failure? = none := by decide
  have uncompleted : ∀ event ∈ goingOn, event ≠ .completed := by decide
  have completed : ((start (.create 100 2 0)).run servingOnce).completed = [0] := by
    decide +kernel
  refine ⟨unfailed, uncompleted, ?_⟩
  rw [← completed]
  exact decided_run 100 2 0 unfailed uncompleted

end Watch

end Chain

end Logbook

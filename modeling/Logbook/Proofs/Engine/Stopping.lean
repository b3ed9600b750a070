import Logbook.Proofs.Engine.Delivering

/-!
# The end of the writer

The writer of a log ends well only if the device did all that was asked of it, and not
before everything that was accepted is on the device: it is told to stop when producers
are turned away, it stops collecting when no record is left in the windows, and it ends
when nothing that it has collected is left to write.
-/

namespace Logbook.Engine

variable {α σ δ : Type} {app : Application α σ} {engine : Engine σ δ}

/-- An engine that turns producers away logs nothing. -/
theorem logged_of_closed (closed : engine.isOpen = false) (entry : Entry α) (sync : Bool) :
    engine.logged app entry sync = none := by
  rw [logged, log, refusal, closed]
  rfl

/-! ### What is left to do -/

/-- How far the end of an engine has come, which has still to collect some records. -/
structure Stopping (pending : List Record) (engine : Engine σ δ) : Prop where
  turnedAway : engine.writer.stopRequested = true → engine.isOpen = false
  collected : engine.writer.collecting = false → engine.isOpen = false ∧ pending = []
  ended : engine.writer.verdict ≠ none →
    engine.writer.collecting = false ∧ engine.writer.queue = []

namespace Stopping

variable {pending : List Record}

/-- An engine that was just opened has not begun to stop. -/
theorem of_resume (config : Config) (report : RecoveryReport) (device : δ) (state : σ) :
    Stopping [] (resume config report device state) where
  turnedAway := nofun
  collected := nofun
  ended := fun ended => absurd rfl ended

theorem log (stopping : Stopping pending engine) (entry : Entry α) (sync : Bool) :
    Stopping (pending ++ (engine.logged app entry sync).toList)
      (engine.log app entry sync).2 := by
  rcases log_frame app engine entry sync with ⟨_, _, _, logged⟩
  rw [logged]
  refine ⟨stopping.turnedAway, ?_, stopping.ended⟩
  intro collecting
  rcases stopping.collected collecting with ⟨closed, none⟩
  refine ⟨closed, ?_⟩
  rw [none, logged_of_closed closed]
  rfl

theorem requestStop (stopping : Stopping pending engine) :
    Stopping pending engine.requestStop where
  turnedAway _ := rfl
  collected collecting := ⟨rfl, (stopping.collected collecting).2⟩
  ended := stopping.ended

theorem closeBarrier (stopping : Stopping pending engine) :
    Stopping pending engine.closeBarrier.2 := by
  rw [Engine.closeBarrier]
  split
  · exact stopping
  · exact ⟨stopping.turnedAway, stopping.collected, stopping.ended⟩

end Stopping

variable [Device δ]

/-! ### A device that fails -/

/-- A writer that has failed does not recover. -/
theorem failed_move {failure : DurabilityFailure}
    (failed : engine.writer.verdict = some (.error failure)) (move : Move α δ) :
    (engine.move app move).writer.verdict = some (.error failure) := by
  have logging : ∀ entry sync,
      (engine.log app entry sync).2.writer.verdict = some (.error failure) := by
    intro entry sync
    rcases log_frame app engine entry sync with ⟨_, _, _, logged⟩
    rw [logged]
    exact failed
  cases move with
  | append | appendMember | commit => exact logging _ _
  | beginTransaction | setLowestLive | requestStop | onDevice => exact failed
  | closeBarrier =>
      rw [Engine.move, closeBarrier]
      split <;> exact failed
  | collect =>
      have barred : ¬ engine.writer.CanCollect engine.config := by
        rintro ⟨_, running, _⟩
        rw [failed] at running
        cases running
      rw [Engine.move, collect, if_pos barred]
      exact failed
  | write =>
      rw [Engine.move, write, failed]
      exact failed
  | finish =>
      have ended : engine.writer.verdict ≠ none := by
        rw [failed]
        exact Option.some_ne_none _
      rw [Engine.move, finish, if_pos (.inr (.inr ended))]
      exact failed

theorem failed_run {failure : DurabilityFailure}
    (failed : engine.writer.verdict = some (.error failure)) (moves : List (Move α δ)) :
    (engine.run app moves).writer.verdict = some (.error failure) := by
  induction moves generalizing engine with
  | nil => exact failed
  | cons move moves ih => exact ih (failed_move failed move)

/-- A move after which the writer has not failed found the device do what was asked. -/
theorem faultless_of_unfailed (app : Application α σ) {move : Move α δ} (inside : move.Inside)
    (unfailed : ∀ failure, (engine.move app move).writer.verdict ≠ some (.error failure)) :
    engine.Faultless move := by
  refine faultless_of_served inside (Bool.of_not_eq_false fun unserved => ?_)
  rcases abandoned_of_unserved app unserved with ⟨device, lsn, error, moved⟩ |
    ⟨failure, _, ended⟩
  · rw [moved] at unfailed
    exact unfailed _ rfl
  · exact unfailed failure ended

/-- A run after which the writer has not failed found the device do what was asked. -/
theorem faultlessRun_of_unfailed {moves : List (Move α δ)} (inside : ∀ move ∈ moves, move.Inside)
    (unfailed : ∀ failure, (engine.run app moves).writer.verdict ≠ some (.error failure)) :
    engine.FaultlessRun app moves := by
  induction moves generalizing engine with
  | nil => trivial
  | cons move moves ih =>
      rw [List.forall_mem_cons] at inside
      refine ⟨faultless_of_unfailed app inside.1 ?_, ih inside.2 unfailed⟩
      exact fun failure failed => unfailed failure (failed_run failed moves)

variable [Device.Reliable δ] {config : Config} {first : Nat} {old : List Chunk}
  {written : List Piece} {queued : List (List Record)} {pending : List Record}

/-- What becomes of the stretches of a log that gains a record or none: records move to
the stretch before, and one may be added to the last. -/
def Advances (config : Config) (first : Nat) (old : List Chunk) (written : List Piece)
    (queued : List (List Record)) (pending : List Record) (gained : Option Record)
    (engine after : Engine σ δ) : Prop :=
  ∃ added queued' pending',
    (written ++ added).flatMap Piece.records ++ (queued'.flatten ++ pending') =
        written.flatMap Piece.records ++ (queued.flatten ++ pending) ++ gained.toList ∧
      Delivering config first old (written ++ added) queued' pending' after ∧
      (Stopping pending engine → Stopping pending' after)

namespace Delivering

/-- A writer that stops collecting has nothing left to collect. -/
theorem pending_eq_nil (delivering : Delivering config first old written queued pending engine)
    {window : Window} (here : engine.chain.window? engine.writer.cursor = some window)
    (nothing : engine.current < window.base) : pending = [] := by
  rcases delivering.cursor with ⟨_, here', starts⟩
  cases here.symm.trans here'
  have next := delivering.sequenced.next
  rw [List.length_append, List.length_append] at next
  rw [current, Sequencer.current] at nothing
  apply List.length_eq_zero_iff.mp
  omega

/-- Collecting moves records from the windows to the queue, or does nothing. -/
theorem collect (delivering : Delivering config first old written queued pending engine) :
    ∃ queued' pending', queued'.flatten ++ pending' = queued.flatten ++ pending ∧
      Delivering config first old written queued' pending' engine.collect ∧
      (Stopping pending engine → Stopping pending' engine.collect) := by
  have collects := delivering.lined.tracked.collects
  generalize engine.collect = after at collects ⊢
  cases collects with
  | barred | waiting => exact ⟨queued, pending, rfl, delivering, id⟩
  | stopped here idle stop nothing =>
      refine ⟨queued, pending, rfl,
        { delivering with sequenced := { delivering.sequenced with } }, fun stopping => ?_⟩
      refine ⟨stopping.turnedAway, fun _ => ⟨stopping.turnedAway stop, ?_⟩, fun ended => ?_⟩
      · exact delivering.pending_eq_nil here nothing
      · exact ⟨rfl, (stopping.ended ended).2⟩
  | closed able closes called here closed =>
      have called_of := delivering.of_called called
      refine ⟨_, _, ?_, called_of.collectClosed here closed, fun stopping => ?_⟩
      · rw [List.flatten_append, List.flatten_singleton, List.append_assoc,
          List.take_append_drop]
      · rw [called_of.collectClosed_eq here closed]
        refine ⟨stopping.turnedAway, fun collecting => ?_, fun ended => absurd able.2.1 ended⟩
        cases able.1.symm.trans collecting

theorem advances {after : Engine σ δ}
    (delivering : Delivering config first old written queued pending after)
    (stopping : Stopping pending engine → Stopping pending after) :
    Advances config first old written queued pending none engine after :=
  ⟨[], queued, pending, by simp, (List.append_nil written).symm ▸ delivering, stopping⟩

/-- Logging an entry adds a record to what is to be collected, or none. -/
theorem advances_log (delivering : Delivering config first old written queued pending engine)
    {entry : Entry α} {sync : Bool}
    (fits : ∀ record ∈ engine.logged app entry sync, record.Fits)
    (room : first + (written.flatMap Piece.records ++ (queued.flatten ++ pending)).length +
      (engine.logged app entry sync).toList.length < Sequencer.wordSize) :
    Advances config first old written queued pending (engine.logged app entry sync) engine
      (engine.log app entry sync).2 := by
  refine ⟨[], queued, _, ?_, ((List.append_nil written).symm ▸ delivering).log fits ?_,
    fun stopping => stopping.log entry sync⟩
  · simp only [List.append_nil, List.append_assoc]
  · intro record logged
    rw [logged, Option.toList_some, List.length_singleton] at room
    rw [List.append_nil]
    exact room

/-- A move of the writer moves records to the stretch before, and one of producers adds a
record to the last. -/
theorem advances_move (delivering : Delivering config first old written queued pending engine)
    {move : Move α δ} (faultless : engine.Faultless move)
    (fits : ∀ record ∈ engine.gained app move, record.Fits)
    (room : first + (written.flatMap Piece.records ++ (queued.flatten ++ pending)).length +
      (engine.gained app move).toList.length < Sequencer.wordSize) :
    Advances config first old written queued pending (engine.gained app move) engine
      (engine.move app move) := by
  cases move with
  | append | appendMember | commit => exact delivering.advances_log fits room
  | beginTransaction =>
      exact Delivering.advances { delivering with sequenced := { delivering.sequenced with } }
        fun stopping => ⟨stopping.turnedAway, stopping.collected, stopping.ended⟩
  | setLowestLive lsn =>
      exact Delivering.advances { delivering with sequenced := { delivering.sequenced with } }
        fun stopping => ⟨stopping.turnedAway, stopping.collected, stopping.ended⟩
  | requestStop =>
      exact Delivering.advances { delivering with sequenced := { delivering.sequenced with } }
        Stopping.requestStop
  | closeBarrier => exact Delivering.advances delivering.closeBarrier Stopping.closeBarrier
  | finish =>
      refine Delivering.advances (delivering.finish faultless) fun stopping => ?_
      rcases delivering.finish_cases faultless with ⟨_, idle⟩ |
        ⟨collecting, empty, device, _, finished⟩
      · rw [Engine.move, idle]
        exact stopping
      · rw [Engine.move, finished]
        exact ⟨stopping.turnedAway, stopping.collected, fun _ => ⟨collecting, empty⟩⟩
  | collect =>
      rcases delivering.collect with ⟨queued', pending', split, collected, stopping⟩
      refine ⟨[], queued', pending', ?_, (List.append_nil written).symm ▸ collected, stopping⟩
      rw [split]
      simp [gained]
  | write =>
      rcases delivering.write faultless with ⟨added, queued', split, delivered⟩
      refine ⟨added, queued', pending, ?_, delivered, fun stopping => ?_⟩
      · rw [List.flatMap_append, List.append_assoc, ← List.append_assoc (added.flatMap _), split]
        simp [gained]
      · rcases delivering.write_cases faultless with ⟨_, none⟩ |
          ⟨batch, rest, device, _, _, queue_eq, _, _, _, _, written_eq⟩
        · rw [Engine.move, none]
          exact stopping
        · rw [Engine.move, written_eq]
          refine ⟨stopping.turnedAway, stopping.collected, fun ended => ?_⟩
          have empty := (stopping.ended ended).2
          rw [queue_eq] at empty
          cases empty
  | onDevice => exact absurd faultless id

end Delivering

end Logbook.Engine

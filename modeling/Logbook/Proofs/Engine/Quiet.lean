import Logbook.Proofs.Engine.Acknowledged

/-!
# Moves that log nothing

The writer and the barrier work on the windows, the device and the watermark. They
log nothing, and leave the application and the producers alone.
-/

namespace Logbook

/-- The move is one of the writer or of the barrier. -/
def Move.Quiet {α δ : Type} : Move α δ → Prop
  | .closeBarrier | .collect | .write | .finish => True
  | _ => False

theorem Move.Quiet.inside {α δ : Type} {move : Move α δ} (quiet : move.Quiet) : move.Inside := by
  cases move with
  | onDevice => exact quiet
  | append | beginTransaction | appendMember | commit | setLowestLive | closeBarrier
  | requestStop | collect | write | finish => exact trivial

namespace Engine

variable {α σ δ : Type} [Device δ] {app : Application α σ} {engine : Engine σ δ}

omit [Device δ] in
theorem gained_of_quiet {move : Move α δ} (quiet : move.Quiet) : engine.gained app move = none := by
  cases move with
  | append | appendMember | commit => exact absurd quiet id
  | beginTransaction | setLowestLive | closeBarrier | requestStop | collect | write | finish
  | onDevice => rfl

theorem accepted_of_quiet {moves : List (Move α δ)} (quiet : ∀ move ∈ moves, move.Quiet) :
    engine.accepted app moves = [] := by
  induction moves generalizing engine with
  | nil => rfl
  | cons move moves ih =>
      rw [List.forall_mem_cons] at quiet
      rw [accepted, gained_of_quiet quiet.1, ih quiet.2]
      rfl

/-- What a quiet move works on. -/
theorem quiet_frame (app : Application α σ) (engine : Engine σ δ) {move : Move α δ}
    (quiet : move.Quiet) :
    ∃ chain watermark writer device, engine.move app move =
      { engine with
        chain := chain, watermark := watermark, writer := writer, device := device } := by
  cases move with
  | closeBarrier =>
      rw [Engine.move, closeBarrier]
      split
      · exact ⟨_, _, _, _, rfl⟩
      · exact ⟨_, _, _, _, rfl⟩
  | collect =>
      rcases collect_frame engine with ⟨_, _, _, collected⟩
      rw [Engine.move, collected]
      exact ⟨_, _, _, _, rfl⟩
  | write =>
      rw [Engine.move, Engine.write]
      split
      · split
        · exact ⟨_, _, _, _, rfl⟩
        · exact ⟨_, _, _, _, rfl⟩
      · exact ⟨_, _, _, _, rfl⟩
  | finish =>
      rw [Engine.move, Engine.finish]
      split
      · exact ⟨_, _, _, _, rfl⟩
      · split
        · exact ⟨_, _, _, _, rfl⟩
        · split
          · exact ⟨_, _, _, _, rfl⟩
          · exact ⟨_, _, _, _, rfl⟩
  | append | beginTransaction | appendMember | commit | setLowestLive | requestStop
  | onDevice => exact absurd quiet id

/-- A step of the writer is a quiet move. -/
theorem writerStep_eq_move (app : Application α σ) (engine : Engine σ δ) :
    ∃ move : Move α δ, move.Quiet ∧ engine.writerStep = engine.move app move := by
  unfold writerStep
  split
  · exact ⟨.write, trivial, rfl⟩
  · split
    · exact ⟨.collect, trivial, rfl⟩
    · exact ⟨.finish, trivial, rfl⟩

/-- Letting the writer run is a run of quiet moves. -/
theorem settle_eq_run (app : Application α σ) (engine : Engine σ δ) :
    ∃ moves : List (Move α δ), (∀ move ∈ moves, move.Quiet) ∧
      engine.settle = engine.run app moves := by
  unfold settle
  generalize engine.stepsLeft = count
  induction count with
  | zero => exact ⟨[], nofun, rfl⟩
  | succ count ih =>
      rcases ih with ⟨moves, quiet, settled⟩
      rcases writerStep_eq_move app (engine.run app moves) with ⟨move, step_quiet, stepped⟩
      refine ⟨moves ++ [move], ?_, ?_⟩
      · intro other member
        rcases List.mem_append.mp member with before | here
        · exact quiet other before
        · rw [List.mem_singleton.mp here]
          exact step_quiet
      · rw [Nat.repeat, settled, stepped, run_append]
        rfl

/-- Stopping a log is a run that logs nothing. -/
theorem stop_eq_run (app : Application α σ) (engine : Engine σ δ) :
    ∃ moves : List (Move α δ), (∀ move ∈ moves, move.Inside) ∧ engine.accepted app moves = [] ∧
      engine.requestStop.settle = engine.run app moves := by
  rcases settle_eq_run app engine.requestStop with ⟨moves, quiet, settled⟩
  refine ⟨.requestStop :: moves, ?_, ?_, settled⟩
  · rw [List.forall_mem_cons]
    exact ⟨trivial, fun move member => (quiet move member).inside⟩
  · rw [accepted, accepted_of_quiet quiet]
    rfl

theorem verdict_of_shutdown (running : engine.isOpen = true)
    (clean : engine.shutdown.1 = some (.ok ())) :
    engine.requestStop.settle.writer.verdict = some (.ok ()) := by
  rw [shutdown, if_neg (not_not_intro running)] at clean
  rcases Option.map_eq_some_iff.mp clean with ⟨outcome, verdict, ok⟩
  cases outcome with
  | error failure => cases ok
  | ok => exact verdict

/-- Whether a shutdown ends well. -/
def endsWell (engine : Engine σ δ) : Bool := engine.shutdown.1 matches some (.ok ())

theorem clean_of_endsWell (ends : engine.endsWell = true) :
    engine.shutdown.1 = some (.ok ()) := by
  rw [endsWell] at ends
  split at ends
  · assumption
  · cases ends

/-- A writer that has failed ends no shutdown well. -/
theorem unfailed_of_shutdown (app : Application α σ) (running : engine.isOpen = true)
    (clean : engine.shutdown.1 = some (.ok ())) (failure : DurabilityFailure) :
    engine.writer.verdict ≠ some (.error failure) := by
  intro failed
  rcases stop_eq_run app engine with ⟨moves, _, _, settled⟩
  have verdict := verdict_of_shutdown running clean
  rw [settled, failed_run failed moves] at verdict
  cases verdict

variable [Device.Reliable δ] {config : Config} {first : Nat} {old : List Chunk}
  {written : List Piece} {records : List Record}

/-- A shutdown that ends well leaves all that was logged on the device, cut into regions
somewhere. -/
theorem Logs.shutdown (app : Application α σ)
    (logs : Logs config first old written records engine) (running : engine.isOpen = true)
    (clean : engine.shutdown.1 = some (.ok ()))
    (room : first + records.length < Sequencer.wordSize) {policy : FormatPolicy}
    (admits : policy.Admits .current) :
    ∃ pieces, pieces.flatMap Piece.records = records ∧
      Piece.Cut policy first pieces ∧ (∀ piece ∈ pieces, piece.format = .current) ∧
      Device.Reads engine.shutdown.2.device (old ++ pieces.map Piece.chunk) := by
  have device_eq : engine.shutdown.2.device = engine.requestStop.settle.device := by
    rw [Engine.shutdown, if_neg (not_not_intro running)]
  have verdict := verdict_of_shutdown running clean
  rcases stop_eq_run app engine with ⟨moves, inside, nothing, settled⟩
  have unfailed : ∀ failure, (engine.run app moves).writer.verdict ≠ some (.error failure) := by
    rw [← settled, verdict]
    exact fun failure failed => by cases failed
  rcases logs.run_of_accepted_eq_nil (faultlessRun_of_unfailed inside unfailed) nothing room with
    ⟨added, ran⟩
  rw [← settled] at ran
  have ended : engine.requestStop.settle.writer.verdict ≠ none := by
    rw [verdict]
    exact Option.some_ne_none _
  have all := ran.written_eq ended
  rcases ran with ⟨_, _, _, delivering, _⟩
  rw [device_eq]
  exact ⟨_, all, delivering.cut admits, delivering.formats, delivering.reads⟩

/-- A log that is opened, used and shut down well leaves its records behind the regions that
it found. -/
theorem leaves_of_open {schedule : Recovery.Schedule} {options : RecoveryOptions} {device : δ}
    {state : σ} {report : RecoveryReport} {moves : List (Move α δ)}
    (intact : Device.Reliable.Intact device) (reads : Device.Reads device old)
    (opened : openUnder schedule app config options device state = .ok (report, engine))
    (inside : ∀ move ∈ moves, move.Inside)
    (fits : ∀ record ∈ engine.accepted app moves, record.Fits)
    (room : report.nextLsn + (engine.accepted app moves).length < Sequencer.wordSize)
    (running : (engine.run app moves).isOpen = true)
    (clean : (engine.run app moves).shutdown.1 = some (.ok ())) :
    ∃ pieces, pieces.flatMap Piece.records = engine.accepted app moves ∧
      Piece.Cut .auto report.nextLsn pieces ∧ (∀ piece ∈ pieces, piece.format = .current) ∧
      Device.Reads (engine.run app moves).shutdown.2.device (old ++ pieces.map Piece.chunk) := by
  have opening := logs_of_open intact reads opened
  have unfailed := unfailed_of_shutdown app running clean
  rcases opening.run (faultlessRun_of_unfailed inside unfailed) fits (by simpa using room) with
    ⟨written, logs⟩
  rw [List.nil_append, List.nil_append] at logs
  exact logs.shutdown app running clean room trivial

section InMemory

variable {engine : Engine σ Volume}

/-- Stopping a log in memory writes some of what it has logged, and fails no one. -/
theorem Logs.stop (app : Application α σ) (logs : Logs config first old written records engine)
    (memory : engine.device.InMemory) (room : first + records.length < Sequencer.wordSize) :
    ∃ added, Logs config first old (written ++ added) records engine.requestStop.settle ∧
      engine.requestStop.settle.device.InMemory := by
  rcases stop_eq_run app engine with ⟨moves, inside, nothing, settled⟩
  rcases logs.run_of_accepted_eq_nil (faultlessRun_of_inMemory memory inside) nothing room with
    ⟨added, stopped⟩
  rw [settled]
  exact ⟨added, stopped, inMemory_run memory inside⟩

end InMemory

end Engine

end Logbook

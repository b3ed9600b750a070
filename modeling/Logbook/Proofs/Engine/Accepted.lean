import Logbook.Engine.Move

/-!
# What a run accepts

The records that a run of an engine adds to its log are known from the outcomes
that its producers see: an entry that is turned away adds none, and one that is
not adds the record of its number, also if its action then panics.
-/

namespace Logbook

/-- The move leaves the device to the engine. -/
def Move.Inside {α δ : Type} : Move α δ → Prop
  | .onDevice _ => False
  | _ => True

/-- The entry that a move offers to the log. -/
def Move.entry? {α δ : Type} : Move α δ → Option (Entry α)
  | .append action _ => some (.plain action)
  | .appendMember txn action => some (.member txn action)
  | .commit txn _ => some (.commit txn)
  | _ => none

namespace Engine

variable {α σ δ : Type}

/-- The record that logging an entry adds, as its outcome tells. -/
def logged (app : Application α σ) (engine : Engine σ δ) (entry : Entry α) (sync : Bool) :
    Option Record :=
  let record (lsn : Nat) : Option Record :=
    (entry.encode app).toOption.map fun payload => ⟨lsn, engine.lowestLive, payload⟩
  match (engine.log app entry sync).1 with
  | .ok lsn => record lsn
  | .panicked _ => record engine.sequencer.next
  | .failed _ => none

/-- The record that a move adds. -/
def gained (app : Application α σ) (engine : Engine σ δ) : Move α δ → Option Record
  | .append action sync => engine.logged app (.plain action) sync
  | .appendMember txn action => engine.logged app (.member txn action) false
  | .commit txn sync => engine.logged app (.commit txn) sync
  | _ => none

variable [Device δ]

/-- The records that some moves add, in order. -/
def accepted (app : Application α σ) (engine : Engine σ δ) : List (Move α δ) → List Record
  | [] => []
  | move :: moves =>
      (engine.gained app move).toList ++ (engine.move app move).accepted app moves

/-- The device does what a move asks of it, unless that is to write out of order. -/
def Faultless (engine : Engine σ δ) : Move α δ → Prop
  | .write => engine.writer.verdict = none →
      ∀ batch rest region, engine.writer.queue = batch :: rest → batch.region = some region →
        match Device.write engine.device region batch.last with
        | (.error error, _) => ∃ number last, error = .outOfOrder number last
        | (.ok _, device) => batch.sync = true → ∃ after, Device.sync device = (.ok (), after)
  | .finish => engine.writer.collecting = false → engine.writer.queue = [] →
      engine.writer.verdict = none → ∃ device, Device.sync engine.device = (.ok (), device)
  | .onDevice _ => False
  | _ => True

/-- The device does what a run asks of it, unless that is to write out of order. -/
def FaultlessRun (app : Application α σ) (engine : Engine σ δ) : List (Move α δ) → Prop
  | [] => True
  | move :: moves => engine.Faultless move ∧ (engine.move app move).FaultlessRun app moves

/-- Whether the device does all that a move asks of it. -/
def served (engine : Engine σ δ) : Move α δ → Bool
  | .write =>
      match engine.writer.verdict, engine.writer.queue with
      | none, batch :: _ => (persist engine.device batch).1.isOk
      | _, _ => true
  | .finish =>
      if engine.writer.collecting ∨ engine.writer.queue ≠ [] ∨ engine.writer.verdict ≠ none then
        true
      else (Device.sync engine.device).1.isOk
  | _ => true

/-- Whether the device does all that a run asks of it. -/
def servedRun (app : Application α σ) (engine : Engine σ δ) : List (Move α δ) → Bool
  | [] => true
  | move :: moves => engine.served move && (engine.move app move).servedRun app moves

/-- A device that does all that is asked of it is not to blame for anything. -/
theorem faultless_of_served {engine : Engine σ δ} {move : Move α δ} (inside : move.Inside)
    (served : engine.served move = true) : engine.Faultless move := by
  cases move with
  | append | appendMember | commit | beginTransaction | setLowestLive | closeBarrier
  | requestStop | collect => exact trivial
  | onDevice => exact absurd inside id
  | write =>
      intro running batch rest region queue_eq region_eq
      simp only [Engine.served, running, queue_eq, persist, region_eq] at served
      rcases written : Device.write engine.device region batch.last with ⟨error | count, device⟩
      · rw [written] at served
        cases served
      · intro sync
        simp only [written, sync, ↓reduceIte] at served
        rcases synced : Device.sync device with ⟨error | _, after⟩
        · rw [synced] at served
          cases served
        · exact ⟨after, rfl⟩
  | finish =>
      intro collecting queue_eq running
      have active : ¬ (engine.writer.collecting = true ∨ engine.writer.queue ≠ [] ∨
          engine.writer.verdict ≠ none) := by
        rw [collecting, queue_eq, running]
        simp
      rw [Engine.served, if_neg active] at served
      rcases synced : Device.sync engine.device with ⟨error | _, after⟩
      · rw [synced] at served
        cases served
      · exact ⟨after, rfl⟩

/-- Where the device does not do what is asked, the writer gives up, unless the log has failed
before and the writer was about to end with that. -/
theorem abandoned_of_unserved (app : Application α σ) {engine : Engine σ δ} {move : Move α δ}
    (unserved : engine.served move = false) :
    (∃ device lsn error, engine.move app move =
        { engine with device := device }.abandon lsn error) ∨
      ∃ failure, engine.chain.failure = some failure ∧
        (engine.move app move).writer.verdict = some (.error failure) := by
  cases move with
  | append | appendMember | commit | beginTransaction | setLowestLive | closeBarrier
  | requestStop | collect | onDevice => cases unserved
  | write =>
      cases running : engine.writer.verdict with
      | some outcome =>
          simp only [Engine.served, running] at unserved
          cases unserved
      | none =>
          cases queue_eq : engine.writer.queue with
          | nil =>
              simp only [Engine.served, running, queue_eq] at unserved
              cases unserved
          | cons batch rest =>
              simp only [Engine.served, running, queue_eq] at unserved
              rcases persisted : persist engine.device batch with ⟨error | _, device⟩
              · refine .inl ⟨device, batch.last, error, ?_⟩
                rw [Engine.move, Engine.write, running, queue_eq]
                simp only [persisted]
              · rw [persisted] at unserved
                cases unserved
  | finish =>
      rw [Engine.served] at unserved
      split at unserved
      · cases unserved
      · rename_i active
        rw [Engine.move, Engine.finish, if_neg active]
        cases failed : engine.chain.failure with
        | some failure => exact .inr ⟨failure, rfl, rfl⟩
        | none =>
            rcases synced : Device.sync engine.device with ⟨error | _, device⟩
            · exact .inl ⟨device, engine.durable, error, rfl⟩
            · rw [synced] at unserved
              cases unserved

theorem accepted_append (app : Application α σ) (engine : Engine σ δ)
    (first second : List (Move α δ)) :
    engine.accepted app (first ++ second) =
      engine.accepted app first ++ (engine.run app first).accepted app second := by
  induction first generalizing engine with
  | nil => rfl
  | cons move moves ih =>
      rw [List.cons_append, accepted, ih, accepted, List.append_assoc, run_cons]

theorem faultlessRun_append {app : Application α σ} {engine : Engine σ δ}
    {first second : List (Move α δ)} :
    engine.FaultlessRun app (first ++ second) ↔
      engine.FaultlessRun app first ∧ (engine.run app first).FaultlessRun app second := by
  induction first generalizing engine with
  | nil => simp [FaultlessRun]
  | cons move moves ih =>
      rw [List.cons_append, FaultlessRun, FaultlessRun, ih, and_assoc, run_cons]

/-! ### What never falls -/

theorem durable_le_write (engine : Engine σ δ) : engine.durable ≤ engine.write.durable := by
  unfold write
  split
  · split
    · exact Nat.le_refl _
    · exact Nat.le_max_left _ _
  · exact Nat.le_refl _

omit [Device δ] in
/-- Logging leaves the writer, the watermark and the device alone. -/
theorem log_frame (app : Application α σ) (engine : Engine σ δ) (entry : Entry α)
    (sync : Bool) : ∃ sequencer chain state, (engine.log app entry sync).2 =
      { engine with sequencer := sequencer, chain := chain, state := state } := by
  unfold log
  split
  · exact ⟨_, _, _, rfl⟩
  · split
    · exact ⟨_, _, _, rfl⟩
    · dsimp only
      split
      · exact ⟨_, _, _, rfl⟩
      · split
        · exact ⟨_, _, _, rfl⟩
        · split
          · exact ⟨_, _, _, rfl⟩
          · exact ⟨_, _, _, rfl⟩

omit [Device δ] in
theorem durable_log (app : Application α σ) (engine : Engine σ δ) (entry : Entry α)
    (sync : Bool) : (engine.log app entry sync).2.durable = engine.durable := by
  rcases log_frame app engine entry sync with ⟨_, _, _, logged⟩
  rw [logged]
  rfl

omit [Device δ] in
/-- Collecting leaves the application and the device alone. -/
theorem collect_frame (engine : Engine σ δ) : ∃ chain writer failure, engine.collect =
    { engine with
      chain := chain
      watermark := { engine.watermark with failure := failure }
      writer := writer } := by
  unfold collect
  split
  · exact ⟨_, _, _, rfl⟩
  · split
    · exact ⟨_, _, _, rfl⟩
    · split
      · exact ⟨_, _, _, rfl⟩
      · split
        · split
          · exact ⟨_, _, _, rfl⟩
          · unfold collectClosed
            split
            · exact ⟨_, _, _, rfl⟩
            · split <;> exact ⟨_, _, _, rfl⟩
        · split <;> exact ⟨_, _, _, rfl⟩

omit [Device δ] in
theorem durable_collect (engine : Engine σ δ) : engine.collect.durable = engine.durable := by
  rcases collect_frame engine with ⟨_, _, _, collected⟩
  rw [collected]
  rfl

theorem durable_finish (engine : Engine σ δ) : engine.finish.durable = engine.durable := by
  unfold finish
  split
  · rfl
  · split
    · rfl
    · split <;> rfl

theorem durable_le_move (app : Application α σ) (engine : Engine σ δ) (move : Move α δ) :
    engine.durable ≤ (engine.move app move).durable := by
  cases move with
  | append | appendMember | commit => exact Nat.le_of_eq (durable_log app engine _ _).symm
  | write => exact durable_le_write engine
  | collect => exact Nat.le_of_eq (durable_collect engine).symm
  | finish => exact Nat.le_of_eq (durable_finish engine).symm
  | closeBarrier =>
      rw [Engine.move, closeBarrier]
      split <;> exact Nat.le_refl _
  | beginTransaction | setLowestLive | requestStop | onDevice => exact Nat.le_refl _

/-- The watermark of a run never falls. -/
theorem durable_le_run (app : Application α σ) (engine : Engine σ δ) (moves : List (Move α δ)) :
    engine.durable ≤ (engine.run app moves).durable := by
  induction moves generalizing engine with
  | nil => exact Nat.le_refl _
  | cons move moves ih => exact Nat.le_trans (durable_le_move app engine move) (ih _)

end Engine

end Logbook

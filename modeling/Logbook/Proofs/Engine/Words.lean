import Logbook.Proofs.Engine.Halted

/-!
# Numbers stay within a word

A number has 64 bits on the wire and in the counter that hands it out, and the sums that an
engine forms of numbers are those of `Nat`. They do not leave the word as long as there is
room for one more window behind the numbers handed out, whatever the device does and however
the writer ends: no window starts past the next number, and none reaches further than it has
slots.
-/

namespace Logbook.Engine

variable {α σ δ : Type} {app : Application α σ} {first : Nat} {records : List Record}
  {engine : Engine σ δ}

/-! ### The capacity of a chain -/

theorem capacity_log (app : Application α σ) (engine : Engine σ δ) (entry : Entry α)
    (sync : Bool) : (engine.log app entry sync).2.chain.capacity = engine.chain.capacity := by
  unfold log
  split
  · rfl
  · split
    · rfl
    · have kept := engine.chain.capacity_append
      dsimp only
      split
      · exact kept _ _
      · split
        · exact kept _ _
        · split <;> exact kept _ _

theorem capacity_closeBarrier (engine : Engine σ δ) :
    engine.closeBarrier.2.chain.capacity = engine.chain.capacity := by
  unfold closeBarrier
  split
  · rfl
  · exact Chain.capacity_onSuffix _ _ _ _

theorem capacity_collectClosed (engine : Engine σ δ) :
    engine.collectClosed.chain.capacity = engine.chain.capacity := by
  unfold collectClosed
  split
  · rfl
  · split
    · rfl
    · rfl
    · exact Chain.capacity_next _ _

theorem capacity_collect (engine : Engine σ δ) :
    engine.collect.chain.capacity = engine.chain.capacity := by
  unfold collect
  split
  · rfl
  · split
    · rfl
    · split
      · rfl
      · rename_i window here
        have closes : (engine.chain.closeAt engine.writer.cursor
            (engine.highWater window)).2.capacity = engine.chain.capacity :=
          Chain.capacity_onSuffix _ _ _ _
        split
        · split
          · rename_i closed
            rw [closed] at closes
            exact closes
          · rename_i closed
            rw [closed] at closes
            exact (capacity_collectClosed _).trans closes
        · split <;> rfl

variable [Device δ]

theorem capacity_write (engine : Engine σ δ) :
    engine.write.chain.capacity = engine.chain.capacity := by
  unfold write
  split
  · split
    · rfl
    · exact Chain.capacity_next _ _
  · rfl

theorem capacity_finish (engine : Engine σ δ) :
    engine.finish.chain.capacity = engine.chain.capacity := by
  unfold finish
  split
  · rfl
  · split
    · rfl
    · split <;> rfl

theorem capacity_move (app : Application α σ) (engine : Engine σ δ) (move : Move α δ) :
    (engine.move app move).chain.capacity = engine.chain.capacity := by
  cases move with
  | append | appendMember | commit => exact capacity_log app engine _ _
  | beginTransaction | setLowestLive | requestStop | onDevice => rfl
  | closeBarrier => exact capacity_closeBarrier engine
  | collect => exact capacity_collect engine
  | write => exact capacity_write engine
  | finish => exact capacity_finish engine

/-! ### Sums of numbers -/

/-- The sums that an engine forms of numbers are below the word: the next number, and for each
window the number behind its last slot and the base of its successor. -/
structure InWords (engine : Engine σ δ) : Prop where
  next : engine.sequencer.next < Sequencer.wordSize
  slots : ∀ window ∈ engine.chain.windows, window.base + window.capacity < Sequencer.wordSize
  successorBase : ∀ window ∈ engine.chain.windows, window.successorBase < Sequencer.wordSize

omit [Device δ] in
theorem Sequenced.inWords (sequenced : Sequenced first records engine)
    (room : first + records.length + engine.chain.capacity.slots < Sequencer.wordSize) :
    InWords engine := by
  have ends : ∀ window ∈ engine.chain.windows,
      window.base + engine.chain.capacity.slots < Sequencer.wordSize := by
    intro window member
    rcases List.getElem?_of_mem member with ⟨place, here⟩
    have := sequenced.base_le here
    omega
  constructor
  · rw [sequenced.next]
    omega
  · intro window member
    rw [Window.capacity, (sequenced.sound.linked.sound member).length_slots]
    exact ends window member
  · intro window member
    exact Nat.lt_of_le_of_lt (sequenced.sound.linked.sound member).shaped.successorBase_le
      (ends window member)

omit [Device δ] in
/-- A failure settles windows, and leaves their numbers alone. -/
theorem InWords.abandon (inWords : InWords engine) (lsn : Nat) (error : StorageError) :
    InWords (engine.abandon lsn error) := by
  have same : ∀ window ∈ (engine.abandon lsn error).chain.windows,
      ∃ before ∈ engine.chain.windows, window.content = before.content := by
    intro window member
    simp only [Engine.abandon, fail, Chain.fail] at member
    rcases List.mem_append.mp member with written | unwritten
    · exact ⟨window, List.mem_of_mem_take written, rfl⟩
    · rcases List.mem_map.mp unwritten with ⟨before, later, rfl⟩
      exact ⟨before, List.mem_of_mem_drop later, rfl⟩
  constructor
  · exact inWords.next
  · intro window member
    rcases same window member with ⟨before, older, content⟩
    simp only [Window.content, Prod.mk.injEq] at content
    rw [Window.capacity, content.1, content.2.1]
    exact inWords.slots before older
  · intro window member
    rcases same window member with ⟨before, older, content⟩
    simp only [Window.content, Prod.mk.injEq] at content
    rw [Window.successorBase, Window.naturalEnd, Window.capacity, content.1, content.2.1,
      content.2.2]
    exact inWords.successorBase before older

omit [Device δ] in
theorem stalled_abandon (lsn : Nat) (error : StorageError) :
    Stalled (engine.abandon lsn error) :=
  ⟨Option.some_ne_none _, Option.some_ne_none _⟩

/-- Nothing comes to the windows of a log that has failed. -/
theorem InWords.run (inWords : InWords engine) (stalled : Stalled engine)
    (app : Application α σ) (moves : List (Move α δ)) : InWords (engine.run app moves) := by
  have spared := stalled.spared_run app moves
  exact ⟨spared.sequencer ▸ inWords.next, spared.chain ▸ inWords.slots,
    spared.chain ▸ inWords.successorBase⟩

theorem Tracked.inWords_run (tracked : Tracked first records engine) {moves : List (Move α δ)}
    (room : first + records.length + (engine.accepted app moves).length +
      engine.chain.capacity.slots < Sequencer.wordSize) : InWords (engine.run app moves) := by
  induction moves generalizing engine records with
  | nil => exact tracked.sequenced.inWords room
  | cons move moves ih =>
      rw [accepted, List.length_append] at room
      rw [run_cons]
      cases served : engine.served move with
      | true =>
          refine ih (tracked.move served (by omega)) ?_
          rw [capacity_move, List.length_append]
          omega
      | false =>
          rcases abandoned_of_unserved app served with
            ⟨device, lsn, error, abandoned⟩ | ⟨failure, failed, _⟩
          · have before : InWords { engine with device := device } :=
              { tracked.sequenced.inWords (by omega) with }
            rw [abandoned]
            exact (before.abandon lsn error).run (stalled_abandon lsn error) app moves
          · rw [tracked.sequenced.failure] at failed
            cases failed

/-- Whatever is asked of an engine from its opening on, on any device: the sums that it forms
of numbers stay within the word, as long as the numbers of one more window do. -/
theorem inWords_run {schedule : Recovery.Schedule} {config : Config} {options : RecoveryOptions}
    {device : δ} {state : σ} {report : RecoveryReport} {moves : List (Move α δ)}
    (opened : openUnder schedule app config options device state = .ok (report, engine))
    (room : report.nextLsn + (engine.accepted app moves).length + config.windowCapacity <
      Sequencer.wordSize) : InWords (engine.run app moves) := by
  have positive : 0 < config.windowCapacity := by
    unfold openUnder at opened
    split at opened
    · cases opened
    · rename_i valid
      exact Config.validate_eq_ok_iff.mp valid
  rcases recovered_of_open opened with ⟨_, rfl⟩
  have slots : ∀ state : σ, (resume config report device state).chain.capacity.slots =
      config.windowCapacity := fun _ => Nat.max_eq_left positive
  refine (Tracked.of_resume config report device _).inWords_run ?_
  rw [slots, List.length_nil]
  exact room

end Logbook.Engine

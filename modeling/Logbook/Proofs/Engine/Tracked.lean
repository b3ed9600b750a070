import Logbook.Proofs.Engine.Sequenced

/-!
# The windows of the writer

The writer takes the windows of a log in order, and closes each where the numbers that
were handed out end. As long as the log has not failed, the records of the window are all
there by then, so the writer neither waits for one of them nor meets a fault.
-/

namespace Logbook.Engine

open Windows

variable {α σ δ : Type} {app : Application α σ} {first : Nat} {records : List Record}
  {engine : Engine σ δ}

namespace Sequenced

theorem lsn_le_of_holds (sequenced : Sequenced first records engine) {record : Record}
    (held : Holds engine.chain.windows record) : record.lsn ≤ first + records.length :=
  Nat.le_of_lt (sequenced.lsn_lt ((sequenced.holds record).mp held))

/-- The end at which the writer closes a window is one that the window can have. -/
theorem highWater_spec (sequenced : Sequenced first records engine) {place : Nat}
    {window : Window} (here : engine.chain.window? place = some window) :
    window.base ≤ engine.highWater window + 1 ∧ engine.highWater window ≤ window.naturalEnd ∧
      engine.highWater window < first + records.length := by
  have := sequenced.base_le here
  have := sequenced.first_pos
  have := engine.chain.capacity.positive
  have := Window.naturalEnd_add_one
    (sequenced.sound.linked.sound (List.mem_of_getElem? here)).length_slots
  rw [highWater, current, Sequencer.current, sequenced.next]
  omega

/-- Any window can be closed where the writer would close it. -/
theorem closeAt_highWater (sequenced : Sequenced first records engine) {place : Nat}
    {window : Window} (here : engine.chain.window? place = some window) :
    ∃ fixed chain window' last,
      engine.chain.closeAt place (engine.highWater window) = (.ok fixed, chain) ∧
        Chain.Called first (first + records.length) engine.chain none chain ∧
        chain.window? place = some window' ∧ window'.fixedEnd = some last := by
  rcases sequenced.highWater_spec here with ⟨base_le, le_naturalEnd, last_lt⟩
  have bounded : ∀ other, Holds engine.chain.windows other →
      other.lsn ≤ first + records.length := fun _ => sequenced.lsn_le_of_holds
  obtain ⟨isOk, window', here', closed⟩ :=
    Chain.closeAt_spec sequenced.sound here base_le le_naturalEnd last_lt bounded
  rcases Chain.exists_eq_ok isOk with ⟨fixed, ok⟩
  rcases Option.ne_none_iff_exists'.mp closed with ⟨last, closed⟩
  exact ⟨fixed, _, window', last, Prod.ext ok rfl,
    Chain.called_closeAt sequenced.sound place _ last_lt bounded, here', closed⟩

theorem called_closeBarrier (sequenced : Sequenced first records engine) :
    Chain.Called first (first + records.length) engine.chain none
      (engine.chain.closeThrough engine.current).2 := by
  apply Chain.called_closeThrough sequenced.sound
  · have := sequenced.first_pos
    rw [current, Sequencer.current, sequenced.next]
    omega
  · exact fun _ => sequenced.lsn_le_of_holds

/-- The writer takes the window at its cursor as soon as it is closed. -/
theorem collectClosed_eq (sequenced : Sequenced first records engine) {window : Window}
    {last : Nat} (here : engine.chain.window? engine.writer.cursor = some window)
    (closed : window.fixedEnd = some last) :
    engine.collectClosed = engine.enqueue (engine.batchOf window
      ((records.drop (window.base - first)).take (last + 1 - window.base))) := by
  unfold collectClosed
  rw [here]
  simp only [sequenced.contiguous_eq here closed]

end Sequenced

/-- What collecting may come to as long as the log has not failed, with numbers from
`first` up to below `bound`. -/
inductive Collects (first bound : Nat) (engine : Engine σ δ) : Engine σ δ → Prop where
  | barred (barred : ¬ engine.writer.CanCollect engine.config) : Collects first bound engine engine
  | waiting {window : Window} (here : engine.chain.window? engine.writer.cursor = some window)
      (idle : window.hasWork = false)
      (more : ¬ (engine.writer.stopRequested = true ∧ engine.current < window.base)) :
      Collects first bound engine engine
  | stopped {window : Window} (here : engine.chain.window? engine.writer.cursor = some window)
      (idle : window.hasWork = false) (stop : engine.writer.stopRequested = true)
      (nothing : engine.current < window.base) :
      Collects first bound engine engine.stopCollecting
  | closed {chain : Chain} {window : Window} {at_end last : Nat}
      (able : engine.writer.CanCollect engine.config)
      (closes : chain = (engine.chain.closeAt engine.writer.cursor at_end).2)
      (called : Chain.Called first bound engine.chain none chain)
      (here : chain.window? engine.writer.cursor = some window)
      (closed : window.fixedEnd = some last) :
      Collects first bound engine { engine with chain := chain }.collectClosed

/-- The writer of a log knows its windows: the next one is there, and those that it has
collected are closed. -/
structure Tracked (first : Nat) (records : List Record) (engine : Engine σ δ) : Prop where
  sequenced : Sequenced first records engine
  places : ∀ batch ∈ engine.writer.queue, ∃ window last,
    engine.chain.window? batch.place = some window ∧ window.fixedEnd = some last
  cursor : ∃ window, engine.chain.window? engine.writer.cursor = some window

namespace Tracked

theorem places_of_called (tracked : Tracked first records engine) {bound : Nat}
    {gained : Option Record} {chain : Chain}
    (called : Chain.Called first bound engine.chain gained chain) (batch : Batch)
    (member : batch ∈ engine.writer.queue) : ∃ window last,
      chain.window? batch.place = some window ∧ window.fixedEnd = some last := by
  rcases tracked.places batch member with ⟨window, last, here, closed⟩
  rcases called.window?_of_closed here closed with ⟨window', here', closed'⟩
  exact ⟨window', last, here', closed'⟩

theorem cursor_of_called (tracked : Tracked first records engine) {bound : Nat}
    {gained : Option Record} {chain : Chain}
    (called : Chain.Called first bound engine.chain gained chain) :
    ∃ window, chain.window? engine.writer.cursor = some window := by
  rcases tracked.cursor with ⟨window, here⟩
  rcases called.carried.grown.getElem? here with ⟨window', here', _⟩
  exact ⟨window', here'⟩

/-- A call on the chain that adds nothing. -/
theorem of_called (tracked : Tracked first records engine) {chain : Chain}
    (called : Chain.Called first (first + records.length) engine.chain none chain) :
    Tracked first records { engine with chain := chain } where
  sequenced := tracked.sequenced.of_called called
  places := tracked.places_of_called called
  cursor := tracked.cursor_of_called called

theorem log (tracked : Tracked first records engine) (entry : Entry α) (sync : Bool)
    (room : ∀ record ∈ engine.logged app entry sync,
      first + records.length + 1 < Sequencer.wordSize) :
    Tracked first (records ++ (engine.logged app entry sync).toList)
      (engine.log app entry sync).2 := by
  rcases tracked.sequenced.log_cases app entry sync with
    ⟨error, refused⟩ | ⟨payload, encoded, logged⟩
  · rw [Engine.logged, refused, Option.toList_none, List.append_nil]
    exact ⟨{ tracked.sequenced with }, tracked.places, tracked.cursor⟩
  · have added := logged_of_log encoded logged
    have lsn_eq : (engine.nextRecord payload).lsn = engine.sequencer.next := rfl
    have called := tracked.sequenced.called_append lsn_eq sync
    rw [added, Option.toList_some, logged]
    exact ⟨{ tracked.sequenced.of_append lsn_eq called (room _ added) with },
      tracked.places_of_called called, tracked.cursor_of_called called⟩

theorem closeBarrier (tracked : Tracked first records engine) :
    Tracked first records engine.closeBarrier.2 := by
  rw [Engine.closeBarrier]
  split
  · exact tracked
  · exact tracked.of_called tracked.sequenced.called_closeBarrier

theorem collects (tracked : Tracked first records engine) :
    Collects first (first + records.length) engine engine.collect := by
  rcases tracked.cursor with ⟨window, here⟩
  unfold Engine.collect
  split
  · rename_i barred
    exact .barred barred
  · rename_i able
    rw [Decidable.not_not] at able
    rw [tracked.sequenced.failure]
    simp only [Option.isSome_none, Bool.false_eq_true, ↓reduceIte, here]
    split
    · obtain ⟨fixed, chain, window', last, closes, called, here', closed⟩ :=
        tracked.sequenced.closeAt_highWater here
      rw [closes]
      exact .closed able (congrArg Prod.snd closes).symm called here' closed
    · rename_i idle
      rw [Bool.not_eq_true] at idle
      split
      · rename_i last
        exact .stopped here idle last.1 last.2
      · rename_i more
        exact .waiting here idle more

/-- Queueing the window at the cursor, which is closed. -/
theorem collectClosed (tracked : Tracked first records engine) {window : Window} {last : Nat}
    (here : engine.chain.window? engine.writer.cursor = some window)
    (closed : window.fixedEnd = some last) : Tracked first records engine.collectClosed := by
  have called : Chain.Called first (first + records.length) engine.chain none
      (engine.chain.next engine.writer.cursor).2 :=
    Chain.called_next_of_closed tracked.sequenced.sound here closed
  obtain ⟨cursor_eq, successor, after, _⟩ :=
    Chain.next_of_closed tracked.sequenced.sound here closed
  have moved := tracked.of_called called
  rw [tracked.sequenced.collectClosed_eq here closed]
  simp only [enqueue, cursor_eq]
  refine ⟨{ moved.sequenced with }, fun batch member => ?_, successor, after⟩
  rcases List.mem_append.mp member with old | new
  · exact moved.places batch old
  · cases List.mem_singleton.mp new
    rcases called.window?_of_closed here closed with ⟨window', here', closed'⟩
    exact ⟨window', last, here', closed'⟩

theorem collect (tracked : Tracked first records engine) :
    Tracked first records engine.collect := by
  have collects := tracked.collects
  generalize engine.collect = after at collects ⊢
  cases collects with
  | barred | waiting => exact tracked
  | stopped => exact ⟨{ tracked.sequenced with }, tracked.places, tracked.cursor⟩
  | closed able closes called here closed =>
      exact (tracked.of_called called).collectClosed here closed

/-- The writer lets go of a window that it has collected. -/
theorem retire (tracked : Tracked first records engine) {batch : Batch}
    (member : batch ∈ engine.writer.queue) (held : Bool) :
    Tracked first records
      { engine with chain := (engine.chain.complete batch.place).retire batch.place held } := by
  have completed :=
    tracked.of_called (Chain.called_complete tracked.sequenced.sound batch.place)
  rcases completed.places batch member with ⟨window, last, here, closed⟩
  have moved := completed.of_called
    (Chain.called_next_of_closed completed.sequenced.sound here closed)
  have inside := (List.getElem?_eq_some_iff.mp here).1
  exact ⟨moved.sequenced.of_windows (Chain.sound_retire inside held moved.sequenced.sound)
    moved.sequenced.failure rfl, moved.places, moved.cursor⟩

end Tracked

end Logbook.Engine

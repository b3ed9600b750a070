import Logbook.Proofs.Chain.Written
import Logbook.Proofs.Engine.Accepted
import Logbook.Proofs.Region.RoundTrip

/-!
# Numbers and windows

As long as the log has not failed, the chain of an engine holds the records of
all numbers handed out, and no other; the numbers that windows end at were all
handed out. So a record with the next number always finds room, and a closed
window always has all its records.
-/

namespace Logbook.Engine

open Windows

variable {α σ δ : Type} {app : Application α σ} {first : Nat} {records : List Record}
  {engine : Engine σ δ}

/-- The chain holds the records from `first` up to the number handed out last. -/
structure Sequenced (first : Nat) (records : List Record) (engine : Engine σ δ) : Prop where
  sound : Chain.Sound first engine.chain
  failure : engine.chain.failure = none
  holds : ∀ record, Holds engine.chain.windows record ↔ record ∈ records
  consecutive : Record.Consecutive first records
  next : engine.sequencer.next = first + records.length
  first_pos : 0 < first
  fixedEnd_lt : ∀ window ∈ engine.chain.windows, ∀ last, window.fixedEnd = some last →
    last < first + records.length

namespace Sequenced

theorem lsn_lt (sequenced : Sequenced first records engine) {record : Record}
    (member : record ∈ records) : record.lsn < first + records.length := by
  rcases List.getElem?_of_mem member with ⟨offset, found⟩
  have := (List.getElem?_eq_some_iff.mp found).1
  rw [sequenced.consecutive.lsn_of_getElem? found]
  omega

theorem base_le (sequenced : Sequenced first records engine) {place : Nat} {window : Window}
    (here : engine.chain.window? place = some window) :
    window.base ≤ first + records.length := by
  cases place with
  | zero =>
      have linked := sequenced.sound.linked
      unfold Chain.window? at here
      cases windows : engine.chain.windows with
      | nil =>
          rw [windows] at here
          cases here
      | cons window' rest =>
          rw [windows] at here linked
          cases here
          rw [linked.first_base]
          exact Nat.le_add_right _ _
  | succ place =>
      have inside := (List.getElem?_eq_some_iff.mp here).1
      have place_lt := Nat.lt_of_succ_lt inside
      have before : engine.chain.windows[place]? = some engine.chain.windows[place] :=
        List.getElem?_eq_getElem _
      rcases sequenced.sound.linked.successor before here with ⟨last, closed, starts⟩
      rw [starts]
      exact sequenced.fixedEnd_lt _ (List.mem_of_getElem? before) last closed

/-- A closed window gives out all records in its range. -/
theorem contiguous_eq (sequenced : Sequenced first records engine) {place last : Nat}
    {window : Window} (here : engine.chain.window? place = some window)
    (closed : window.fixedEnd = some last) :
    window.contiguous engine.chain.failure =
      .ok (some ((records.drop (window.base - first)).take (last + 1 - window.base))) := by
  have linked := sequenced.sound.linked
  have member := List.mem_of_getElem? here
  have sound := linked.sound member
  have first_le := linked.base_le member
  have last_lt := sequenced.fixedEnd_lt window member last closed
  have base_le := (sound.fixedEnd_bounds last closed).1
  have consecutive : Record.Consecutive window.base
      ((records.drop (window.base - first)).take (last + 1 - window.base)) := by
    have dropped := sequenced.consecutive.drop
      (show window.base - first ≤ records.length by omega)
    rw [Nat.add_sub_cancel' first_le] at dropped
    exact dropped.take _
  have filled : (window.keptSlots last).all Slot.isFilled = true := by
    apply (sound.all_isFilled_iff closed).mpr
    intro lsn base_le le_last
    have inside : lsn - first < records.length := by omega
    have lsn_eq := sequenced.consecutive.lsn_of_getElem? (List.getElem?_eq_getElem inside)
    rw [Nat.add_sub_cancel' (Nat.le_trans first_le base_le)] at lsn_eq
    refine ⟨records[lsn - first], linked.holds_of_range here
      ((sequenced.holds _).mpr (List.getElem_mem inside)) (by omega) ?_, lsn_eq⟩
    rw [Window.successorBase, closed, Option.getD_some]
    omega
  have lsns := Window.map_lsn_filterMap_record? filled fun offset record sync found => by
    rw [Window.keptSlots, List.getElem?_take] at found
    split at found
    · exact sound.lsn_of_filled offset record sync found
    · cases found
  rw [sound.length_keptSlots closed] at lsns
  have length : ((records.drop (window.base - first)).take (last + 1 - window.base)).length =
      last + 1 - window.base := by
    rw [List.length_take, List.length_drop]
    omega
  have same : (window.keptSlots last).filterMap Slot.record? =
      (records.drop (window.base - first)).take (last + 1 - window.base) := by
    refine sequenced.consecutive.eq_of_map_lsn_eq (fun record kept => ?_) (fun record kept => ?_) ?_
    · exact (sequenced.holds record).mp
        ⟨window, member, (sound.holds_iff_keptSlots closed).mp kept⟩
    · exact List.mem_of_mem_drop (List.mem_of_mem_take kept)
    · rw [lsns, consecutive, length]
  simp only [Window.contiguous, closed, filled, ↓reduceIte, same]

/-- A call on the chain that adds nothing. -/
theorem of_called (sequenced : Sequenced first records engine) {chain : Chain}
    (called : Chain.Called first (first + records.length) engine.chain none chain) :
    Sequenced first records { engine with chain := chain } where
  sound := called.sound sequenced.sound
  failure := called.failure.trans sequenced.failure
  holds record := by
    rw [called.carried.holds, sequenced.holds]
    simp
  consecutive := sequenced.consecutive
  next := sequenced.next
  first_pos := sequenced.first_pos
  fixedEnd_lt := called.carried.grown.fixedEnd_lt sequenced.fixedEnd_lt

/-- A chain that has the same windows. -/
theorem of_windows (sequenced : Sequenced first records engine) {chain : Chain}
    (sound : Chain.Sound first chain) (running : chain.failure = none)
    (windows : chain.windows = engine.chain.windows) :
    Sequenced first records { engine with chain := chain } where
  sound := sound
  failure := running
  holds record := by
    rw [windows]
    exact sequenced.holds record
  consecutive := sequenced.consecutive
  next := sequenced.next
  first_pos := sequenced.first_pos
  fixedEnd_lt := by
    rw [windows]
    exact sequenced.fixedEnd_lt

/-- The record of the next number finds room. -/
theorem append_isOk (sequenced : Sequenced first records engine) {record : Record}
    (lsn_eq : record.lsn = engine.sequencer.next) (sync : Bool) :
    (engine.chain.append record sync).1.isOk = true := by
  refine Chain.append_isOk sequenced.sound sequenced.failure ?_ ?_ sync
  · have tail_lt := sequenced.sound.tail_lt
    have here : engine.chain.window? engine.chain.tail =
        some engine.chain.windows[engine.chain.tail] := List.getElem?_eq_getElem _
    rw [Chain.baseAt, here, lsn_eq, sequenced.next]
    exact sequenced.base_le here
  · rintro ⟨other, held, same⟩
    have := sequenced.lsn_lt ((sequenced.holds other).mp held)
    rw [lsn_eq, sequenced.next] at same
    omega

theorem called_append (sequenced : Sequenced first records engine) {record : Record}
    (lsn_eq : record.lsn = engine.sequencer.next) (sync : Bool) :
    Chain.Called first (first + records.length) engine.chain (some record)
      (engine.chain.append record sync).2 := by
  have called := Chain.called_append sequenced.sound record sync
  rw [sequenced.append_isOk lsn_eq sync, cond_true, lsn_eq, sequenced.next] at called
  exact called

/-- A record of the next number, with the number used up. -/
theorem of_append (sequenced : Sequenced first records engine) {record : Record} {chain : Chain}
    (lsn_eq : record.lsn = engine.sequencer.next)
    (called : Chain.Called first (first + records.length) engine.chain (some record) chain)
    (room : first + records.length + 1 < Sequencer.wordSize) :
    Sequenced first (records ++ [record])
      { engine with sequencer := engine.sequencer.allocate.2, chain := chain } where
  sound := called.sound sequenced.sound
  failure := called.failure.trans sequenced.failure
  holds other := by
    rw [called.carried.holds, sequenced.holds, List.mem_append, List.mem_singleton,
      Option.some.injEq, or_comm, eq_comm]
  consecutive := by
    refine Record.consecutive_append.mpr ⟨sequenced.consecutive, ?_⟩
    rw [Record.consecutive_cons]
    exact ⟨lsn_eq.trans sequenced.next, Record.consecutive_nil _⟩
  next := by
    rw [Sequencer.allocate, List.length_append, List.length_singleton, sequenced.next,
      Nat.mod_eq_of_lt room, Nat.add_assoc]
  first_pos := sequenced.first_pos
  fixedEnd_lt window member last closed := by
    have := called.carried.grown.fixedEnd_lt sequenced.fixedEnd_lt window member last closed
    rw [List.length_append, List.length_singleton]
    omega

end Sequenced

/-- How the action of a record that has just been logged fares. -/
def recorded (app : Application α σ) (engine : Engine σ δ) (entry : Entry α) : Outcome Nat × σ :=
  match entry.action? with
  | none => (.ok engine.sequencer.next, engine.state)
  | some action =>
      match app.record action engine.sequencer.next engine.state with
      | .ok state => (.ok engine.sequencer.next, state)
      | .error panic => (.panicked panic, engine.state)

/-- The record of an entry that is logged next. -/
def nextRecord (engine : Engine σ δ) (payload : Bytes) : Record :=
  ⟨engine.sequencer.next, engine.lowestLive, payload⟩

theorem recorded_cases (app : Application α σ) (engine : Engine σ δ) (entry : Entry α) :
    (engine.recorded app entry).1 = .ok engine.sequencer.next ∨
      ∃ panic, (engine.recorded app entry).1 = .panicked panic := by
  unfold recorded
  split
  · exact .inl rfl
  · split
    · exact .inl rfl
    · exact .inr ⟨_, rfl⟩

/-- An entry that has an encoding is logged under the next number. -/
theorem Sequenced.log_of_encoded (sequenced : Sequenced first records engine)
    {entry : Entry α} {payload : Bytes} (admitted : engine.refusal = none)
    (encoded : entry.encode app = .ok payload) (sync : Bool) :
    engine.log app entry sync = ((engine.recorded app entry).1,
      { engine with
        sequencer := engine.sequencer.allocate.2
        chain := (engine.chain.append (engine.nextRecord payload) sync).2
        state := (engine.recorded app entry).2 }) := by
  obtain ⟨place, placed⟩ := Chain.exists_eq_ok
    (sequenced.append_isOk (show (engine.nextRecord payload).lsn = _ from rfl) sync)
  simp only [nextRecord] at placed
  unfold log
  simp only [admitted, encoded, Sequencer.allocate, placed, recorded, nextRecord]
  cases entry.action? with
  | none => rfl
  | some action =>
      dsimp only
      cases app.record action engine.sequencer.next engine.state <;> rfl

/-- An entry is turned away, or it is logged under the next number. -/
theorem Sequenced.log_cases (sequenced : Sequenced first records engine)
    (app : Application α σ) (entry : Entry α) (sync : Bool) :
    (∃ error, engine.log app entry sync =
        (.failed error, { engine with state := entry.dispose app engine.state })) ∨
      ∃ payload, entry.encode app = .ok payload ∧
        engine.log app entry sync = ((engine.recorded app entry).1,
          { engine with
            sequencer := engine.sequencer.allocate.2
            chain := (engine.chain.append (engine.nextRecord payload) sync).2
            state := (engine.recorded app entry).2 }) := by
  cases refusal : engine.refusal with
  | some error =>
      refine .inl ⟨error, ?_⟩
      rw [log, refusal]
      rfl
  | none =>
      cases encoded : entry.encode app with
      | error error =>
          refine .inl ⟨.codec error, ?_⟩
          simp only [log, refusal, encoded]
          rfl
      | ok payload => exact .inr ⟨payload, rfl, sequenced.log_of_encoded refusal encoded sync⟩

theorem logged_of_log {entry : Entry α} {sync : Bool} {payload : Bytes} {after : Engine σ δ}
    (encoded : entry.encode app = .ok payload)
    (logged : engine.log app entry sync = ((engine.recorded app entry).1, after)) :
    engine.logged app entry sync = some (engine.nextRecord payload) := by
  unfold Engine.logged
  rw [logged, encoded]
  rcases recorded_cases app engine entry with ok | ⟨panic, panicked⟩
  · rw [ok]
    rfl
  · rw [panicked]
    rfl

end Logbook.Engine

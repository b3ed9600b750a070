import Logbook.Proofs.Chain.Called

/-!
# The custody of records

A chain loses no record and doubles none. Whatever is called on it and on its
windows, in whatever order, each record that it accepted lies in one window, the
one with its number in range, and in the slot of its number, and no number is
accepted twice. So a closed window has all its records exactly if each of its
numbers was accepted, and then gives them out in order.
-/

namespace Logbook.Chain.History

open Windows

variable {first : Nat} {history : History}

/-- The chain holds the records it accepted and no other, and accepted no number
twice. -/
structure Kept (first : Nat) (history : History) : Prop where
  sound : Sound first history.chain
  failure : history.chain.failure = none
  holds : ∀ record, Holds history.chain.windows record ↔ record ∈ history.accepted
  once : (history.accepted.map (·.lsn)).Nodup

theorem kept_start (first capacity poolLimit : Nat) :
    Kept first (start (.create first capacity poolLimit)) where
  sound := sound_create first capacity poolLimit
  failure := rfl
  holds record := by simp [start, not_holds_create]
  once := List.nodup_nil

/-- A call is one of those that `Called` is about. -/
theorem called_call (sound : Sound first history.chain) (call : Call) :
    ∃ bound, Called first bound history.chain (history.chain.call call).1
      (history.chain.call call).2 := by
  cases call with
  | append record sync => exact ⟨record.lsn, called_append sound record sync⟩
  | appendAt place record sync => exact ⟨record.lsn, called_appendAt sound place record sync⟩
  | closeAt place last =>
      rcases exists_bound sound.linked with ⟨bound, bounded⟩
      exact ⟨max bound (last + 1), called_closeAt sound place last (by omega)
        fun other held => Nat.le_trans (bounded other held) (Nat.le_max_left _ _)⟩
  | next place =>
      cases suffix : history.chain.windows.drop place with
      | nil => exact ⟨0, called_next sound place (by simp [suffix])⟩
      | cons window rest =>
          refine ⟨window.naturalEnd + 1, called_next sound place ?_⟩
          intro last suffix' _
          rw [suffix] at suffix'
          cases suffix'
          exact Nat.lt_succ_self _
  | closeThrough lsn =>
      rcases exists_bound sound.linked with ⟨bound, bounded⟩
      exact ⟨max bound (lsn + 1), called_closeThrough sound lsn (by omega)
        fun other held => Nat.le_trans (bounded other held) (Nat.le_max_left _ _)⟩

theorem kept_step (kept : Kept first history) (call : Call) :
    Kept first (history.step call) := by
  rcases called_call kept.sound call with ⟨bound, called⟩
  refine ⟨called.sound kept.sound, called.failure.trans kept.failure, fun record => ?_, ?_⟩
  · simp only [step, List.mem_append, Option.mem_toList]
    rw [called.carried.holds, kept.holds, or_comm]
  · simp only [step]
    cases gained : (history.chain.call call).1 with
    | none => simpa using kept.once
    | some record =>
        rw [Option.toList_some, List.map_append, List.map_singleton, List.nodup_append]
        refine ⟨kept.once, by simp, ?_⟩
        intro lsn taken other new
        rcases List.mem_map.mp taken with ⟨held, accepted, rfl⟩
        rintro rfl
        exact called.carried.fresh record gained
          ⟨held, (kept.holds held).mpr accepted, List.mem_singleton.mp new⟩

theorem kept_run (kept : Kept first history) (calls : List Call) :
    Kept first (history.run calls) := by
  induction calls generalizing history with
  | nil => exact kept
  | cons call calls ih => exact ih (kept_step kept call)

namespace Kept

/-- Each accepted record lies in its slot, in a window that has its number. -/
theorem exists_slot (kept : Kept first history) {record : Record}
    (accepted : record ∈ history.accepted) :
    ∃ (place : Nat) (window : Window), history.chain.window? place = some window ∧
      window.Holds record ∧ window.base ≤ record.lsn ∧
      record.lsn ≤ window.fixedEnd.getD window.naturalEnd ∧
      ∃ sync, window.slots[record.lsn - window.base]? = some (.filled record sync) := by
  rcases (kept.holds record).mpr accepted with ⟨window, member, holds⟩
  rcases List.getElem?_of_mem member with ⟨place, here⟩
  have sound := kept.sound.linked.sound member
  rcases sound.slot_of_holds holds with ⟨base_le, found⟩
  exact ⟨place, window, here, holds, base_le, Nat.lt_succ_iff.mp (sound.lsn_lt_successorBase holds),
    found⟩

/-- Records of one number lie at one place, in one slot. -/
theorem slot_unique (kept : Kept first history) {place place' offset offset' : Nat}
    {window window' : Window} {record record' : Record} {sync sync' : Bool}
    (here : history.chain.window? place = some window)
    (there : history.chain.window? place' = some window')
    (found : window.slots[offset]? = some (.filled record sync))
    (found' : window'.slots[offset']? = some (.filled record' sync'))
    (same : record'.lsn = record.lsn) : place' = place ∧ offset' = offset ∧ record' = record := by
  have holds : window.Holds record := Window.holds_iff.mpr ⟨offset, sync, found⟩
  have holds' : window'.Holds record' := Window.holds_iff.mpr ⟨offset', sync', found'⟩
  have place_eq := kept.sound.linked.place_unique there here holds' holds same
  subst place'
  have window_eq : window = window' := Option.some.inj (here.symm.trans there)
  subst window'
  have sound := kept.sound.linked.sound (List.mem_of_getElem? here)
  have lsn := sound.lsn_of_filled offset record sync found
  have lsn' := sound.lsn_of_filled offset' record' sync' found'
  have offset_eq : offset' = offset := by omega
  subst offset'
  rw [found] at found'
  cases found'
  exact ⟨rfl, rfl, rfl⟩

/-- A window holds the accepted records in its range. -/
theorem holds_iff (kept : Kept first history) {place : Nat} {window : Window}
    (here : history.chain.window? place = some window) {record : Record} :
    window.Holds record ↔
      record ∈ history.accepted ∧ window.base ≤ record.lsn ∧ record.lsn < window.successorBase := by
  have member := List.mem_of_getElem? here
  have sound := kept.sound.linked.sound member
  constructor
  · intro holds
    exact ⟨(kept.holds record).mp ⟨window, member, holds⟩, (sound.slot_of_holds holds).1,
      sound.lsn_lt_successorBase holds⟩
  · rintro ⟨accepted, base_le, lt_end⟩
    exact kept.sound.linked.holds_of_range here ((kept.holds record).mpr accepted) base_le lt_end

theorem contiguousAt_eq (kept : Kept first history) {place last : Nat} {window : Window}
    (here : history.chain.window? place = some window) (closed : window.fixedEnd = some last) :
    history.chain.contiguousAt place =
      if (window.keptSlots last).all Slot.isFilled then
        .ok (some ((window.keptSlots last).filterMap Slot.record?))
      else .ok none := by
  simp only [contiguousAt, Window.contiguous, here, closed, kept.failure]

end Kept

/-- What the holder of a chain may rely on. -/
structure Faithful (history : History) : Prop where
  /-- A window with a successor is closed, and its successor starts after its end. -/
  successor : ∀ place window next, history.chain.window? place = some window →
    history.chain.window? (place + 1) = some next →
    ∃ last, window.fixedEnd = some last ∧ next.base = last + 1
  /-- An accepted record lies in the slot of its number, in a window that has the
  number in range, and no other slot holds a record of that number. -/
  held : ∀ record ∈ history.accepted, ∃ place window,
    history.chain.window? place = some window ∧
    window.base ≤ record.lsn ∧ record.lsn ≤ window.fixedEnd.getD window.naturalEnd ∧
    (∃ sync, window.slots[record.lsn - window.base]? = some (.filled record sync)) ∧
    ∀ place' window' offset record' sync', history.chain.window? place' = some window' →
      window'.slots[offset]? = some (.filled record' sync') → record'.lsn = record.lsn →
      place' = place ∧ offset = record.lsn - window.base ∧ record' = record
  /-- No slot past the end of a closed window is filled. -/
  inside : ∀ place window last offset record sync, history.chain.window? place = some window →
    window.fixedEnd = some last → window.slots[offset]? = some (.filled record sync) →
    window.base + offset ≤ last
  /-- No number is accepted twice. -/
  once : (history.accepted.map (·.lsn)).Nodup
  /-- A closed window misses no record exactly if all its numbers were accepted. -/
  contiguous_iff : ∀ place window last, history.chain.window? place = some window →
    window.fixedEnd = some last →
    ((∃ records, history.chain.contiguousAt place = .ok (some records)) ↔
      ∀ lsn, window.base ≤ lsn → lsn ≤ last → ∃ record ∈ history.accepted, record.lsn = lsn)
  /-- What a closed window gives out are the accepted records in its range, in order. -/
  contiguous_eq : ∀ place window last records, history.chain.window? place = some window →
    window.fixedEnd = some last → history.chain.contiguousAt place = .ok (some records) →
    (∀ record, record ∈ records ↔
      record ∈ history.accepted ∧ window.base ≤ record.lsn ∧ record.lsn ≤ last) ∧
    records.map (·.lsn) = List.range' window.base (last + 1 - window.base)


theorem Kept.faithful (kept : Kept first history) : Faithful history where
  successor place window next here after := kept.sound.linked.successor here after
  held record accepted := by
    rcases kept.exists_slot accepted with ⟨place, window, here, _, base_le, le_end, sync, found⟩
    exact ⟨place, window, here, base_le, le_end, ⟨sync, found⟩,
      fun place' window' offset record' sync' there found' same =>
        kept.slot_unique here there found found' same⟩
  inside place window last offset record sync here closed found := by
    have sound := kept.sound.linked.sound (List.mem_of_getElem? here)
    rw [← sound.lsn_of_filled offset record sync found]
    exact sound.lsn_le_fixedEnd record last (Window.holds_iff.mpr ⟨offset, sync, found⟩) closed
  once := kept.once
  contiguous_iff place window last here closed := by
    have sound := kept.sound.linked.sound (List.mem_of_getElem? here)
    rw [kept.contiguousAt_eq here closed]
    constructor
    · rintro ⟨records, given⟩ lsn base_le le_last
      split at given
      · rename_i filled
        obtain ⟨record, holds, lsn_eq⟩ :=
          (sound.all_isFilled_iff closed).mp filled lsn base_le le_last
        exact ⟨record, ((kept.holds_iff here).mp holds).1, lsn_eq⟩
      · cases given
    · intro accepted
      have filled : (window.keptSlots last).all Slot.isFilled = true := by
        apply (sound.all_isFilled_iff closed).mpr
        intro lsn base_le le_last
        rcases accepted lsn base_le le_last with ⟨record, member, rfl⟩
        refine ⟨record, (kept.holds_iff here).mpr ⟨member, base_le, ?_⟩, rfl⟩
        rw [Window.successorBase, closed, Option.getD_some]
        exact Nat.lt_succ_of_le le_last
      rw [if_pos filled]
      exact ⟨_, rfl⟩
  contiguous_eq place window last records here closed given := by
    have sound := kept.sound.linked.sound (List.mem_of_getElem? here)
    rw [kept.contiguousAt_eq here closed] at given
    split at given
    · rename_i filled
      cases given
      constructor
      · intro record
        rw [sound.holds_iff_keptSlots closed, kept.holds_iff here, Window.successorBase, closed,
          Option.getD_some, Nat.lt_succ_iff]
      · rw [← sound.length_keptSlots closed]
        refine Window.map_lsn_filterMap_record? filled ?_
        intro offset record sync found
        rw [Window.keptSlots, List.getElem?_take] at found
        split at found
        · exact sound.lsn_of_filled offset record sync found
        · cases found
    · cases given

/-- Whatever is called on a new chain and its windows, in whatever order. -/
theorem faithful_run (first capacity poolLimit : Nat) (calls : List Call) :
    Faithful ((start (.create first capacity poolLimit)).run calls) :=
  (kept_run (kept_start first capacity poolLimit) calls).faithful

end Logbook.Chain.History

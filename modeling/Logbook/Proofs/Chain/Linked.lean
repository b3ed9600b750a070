import Logbook.Chain.Call

/-!
# Linked windows

The windows of a chain follow one another without a gap: a window that has a
successor is closed, and the successor starts right after its end. Each record
lies in the slot of its number, inside the bounds of its window, so windows
share no number. A slot that was taken by a record which then went on is
accounted for by that record further down the chain.

`Linked` says this of the windows from some base on, by recursion on the list,
which is how the walks along a chain go.
-/

namespace Logbook

namespace Window

/-- The window holds a record in one of its slots. -/
def Holds (window : Window) (record : Record) : Prop :=
  ∃ sync, Slot.filled record sync ∈ window.slots

/-- What a window promises on its own: it has as many slots as it should, an end
that it can have, and records in their own slots and not past the end. -/
structure Sound (capacity : Capacity) (window : Window) : Prop where
  length_slots : window.slots.length = capacity.slots
  fixedEnd_bounds : ∀ last, window.fixedEnd = some last →
    window.base ≤ last + 1 ∧ last ≤ window.naturalEnd
  lsn_of_filled : ∀ offset record sync, window.slots[offset]? = some (.filled record sync) →
    record.lsn = window.base + offset
  lsn_le_fixedEnd : ∀ record last, window.Holds record → window.fixedEnd = some last →
    record.lsn ≤ last

/-- What it promises at any moment, also while it is being closed and records past its end
wait to go on. -/
structure Shaped (capacity : Capacity) (window : Window) : Prop where
  length_slots : window.slots.length = capacity.slots
  fixedEnd_bounds : ∀ last, window.fixedEnd = some last →
    window.base ≤ last + 1 ∧ last ≤ window.naturalEnd
  lsn_of_filled : ∀ offset record sync, window.slots[offset]? = some (.filled record sync) →
    record.lsn = window.base + offset

theorem Sound.shaped {capacity : Capacity} {window : Window} (sound : window.Sound capacity) :
    window.Shaped capacity :=
  ⟨sound.length_slots, sound.fixedEnd_bounds, sound.lsn_of_filled⟩

theorem naturalEnd_add_one {capacity : Capacity} {window : Window}
    (length_slots : window.slots.length = capacity.slots) :
    window.naturalEnd + 1 = window.base + capacity.slots := by
  have := capacity.positive
  simp only [naturalEnd, Window.capacity]
  omega

theorem closeNaturally_of_fixedEnd {window : Window} {last : Nat}
    (closed : window.fixedEnd = some last) : window.closeNaturally = window := by
  cases window
  cases closed
  rfl

namespace Shaped

variable {capacity : Capacity} {window : Window}

theorem base_le_successorBase (shaped : window.Shaped capacity) :
    window.base ≤ window.successorBase := by
  cases closed : window.fixedEnd with
  | none =>
      have := capacity.positive
      have := naturalEnd_add_one shaped.length_slots
      simp only [successorBase, closed, Option.getD_none]
      omega
  | some last =>
      have := (shaped.fixedEnd_bounds last closed).1
      simp only [successorBase, closed, Option.getD_some]
      omega

theorem successorBase_le (shaped : window.Shaped capacity) :
    window.successorBase ≤ window.base + capacity.slots := by
  have natural := naturalEnd_add_one shaped.length_slots
  cases closed : window.fixedEnd with
  | none =>
      simp only [successorBase, closed, Option.getD_none]
      omega
  | some last =>
      have := (shaped.fixedEnd_bounds last closed).2
      simp only [successorBase, closed, Option.getD_some]
      omega

/-- The window may be closed at its natural end, if it is not closed yet. -/
theorem closeNaturally (shaped : window.Shaped capacity) :
    window.closeNaturally.Shaped capacity where
  length_slots := shaped.length_slots
  fixedEnd_bounds last closed := by
    cases before : window.fixedEnd with
    | none =>
        have := capacity.positive
        have := naturalEnd_add_one shaped.length_slots
        simp only [Window.closeNaturally, before, Option.getD_none, Option.some.injEq] at closed
        subst last
        simp only [Window.closeNaturally, naturalEnd, Window.capacity] at *
        omega
    | some fixed =>
        rw [closeNaturally_of_fixedEnd before] at closed ⊢
        exact shaped.fixedEnd_bounds last closed
  lsn_of_filled := shaped.lsn_of_filled

end Shaped

namespace Sound

variable {capacity : Capacity} {window : Window}

theorem slot_of_holds (sound : window.Sound capacity) {record : Record}
    (holds : window.Holds record) :
    window.base ≤ record.lsn ∧
      ∃ sync, window.slots[record.lsn - window.base]? = some (.filled record sync) := by
  rcases holds with ⟨sync, member⟩
  rcases List.getElem?_of_mem member with ⟨offset, found⟩
  have lsn := sound.lsn_of_filled offset record sync found
  refine ⟨by omega, sync, ?_⟩
  rw [show record.lsn - window.base = offset by omega]
  exact found

theorem lsn_lt_of_holds (sound : window.Sound capacity) {record : Record}
    (holds : window.Holds record) : record.lsn < window.base + capacity.slots := by
  rcases sound.slot_of_holds holds with ⟨base_le, sync, found⟩
  have := (List.getElem?_eq_some_iff.mp found).1
  have := sound.length_slots
  omega

theorem lsn_lt_successorBase (sound : window.Sound capacity) {record : Record}
    (holds : window.Holds record) : record.lsn < window.successorBase := by
  cases closed : window.fixedEnd with
  | none =>
      have := sound.lsn_lt_of_holds holds
      have := naturalEnd_add_one sound.length_slots
      simp only [successorBase, closed, Option.getD_none]
      omega
  | some last =>
      have := sound.lsn_le_fixedEnd record last holds closed
      simp only [successorBase, closed, Option.getD_some]
      omega

theorem base_le_successorBase (sound : window.Sound capacity) :
    window.base ≤ window.successorBase :=
  sound.shaped.base_le_successorBase

theorem successorBase_le (sound : window.Sound capacity) :
    window.successorBase ≤ window.base + capacity.slots :=
  sound.shaped.successorBase_le

/-- The window may be closed at its natural end, if it is not closed yet. -/
theorem closeNaturally (sound : window.Sound capacity) :
    window.closeNaturally.Sound capacity where
  length_slots := sound.length_slots
  fixedEnd_bounds := sound.shaped.closeNaturally.fixedEnd_bounds
  lsn_of_filled := sound.lsn_of_filled
  lsn_le_fixedEnd record last holds closed := by
    have := sound.lsn_lt_successorBase holds
    simp only [Window.closeNaturally, Option.some.injEq] at closed
    subst last
    simp only [successorBase] at this
    omega

end Sound

end Window

/-! ### The records of a closed window -/

namespace Window

theorem mem_filterMap_record?_iff {slots : List Slot} {record : Record} :
    record ∈ slots.filterMap Slot.record? ↔ ∃ sync, Slot.filled record sync ∈ slots := by
  rw [List.mem_filterMap]
  constructor
  · rintro ⟨slot, member, found⟩
    cases slot with
    | empty | moved => cases found
    | filled held sync =>
        cases found
        exact ⟨sync, member⟩
  · rintro ⟨sync, member⟩
    exact ⟨_, member, rfl⟩

/-- Filled slots that are numbered from `base` on hold records in order. -/
theorem map_lsn_filterMap_record? {slots : List Slot} {base : Nat}
    (filled : slots.all Slot.isFilled = true)
    (numbered : ∀ offset record sync, slots[offset]? = some (.filled record sync) →
      record.lsn = base + offset) :
    (slots.filterMap Slot.record?).map (·.lsn) = List.range' base slots.length := by
  induction slots generalizing base with
  | nil => rfl
  | cons slot slots ih =>
      rw [List.all_cons, Bool.and_eq_true] at filled
      cases slot with
      | empty | moved => exact absurd filled.1 Bool.false_ne_true
      | filled record sync =>
          have numbered_rest : ∀ offset record sync,
              slots[offset]? = some (.filled record sync) → record.lsn = base + 1 + offset := by
            intro offset record sync found
            rw [numbered (offset + 1) record sync (by simpa using found)]
            omega
          have first : record.lsn = base := numbered 0 record sync rfl
          simp [Slot.record?, first, ih filled.2 numbered_rest, List.range'_succ]

namespace Sound

variable {capacity : Capacity} {window : Window} {last : Nat}

theorem length_keptSlots (sound : window.Sound capacity) (closed : window.fixedEnd = some last) :
    (window.keptSlots last).length = last + 1 - window.base := by
  have := (sound.fixedEnd_bounds last closed).2
  have := naturalEnd_add_one sound.length_slots
  have := sound.length_slots
  simp only [keptSlots, List.length_take]
  omega

theorem holds_iff_keptSlots (sound : window.Sound capacity)
    (closed : window.fixedEnd = some last) {record : Record} :
    record ∈ (window.keptSlots last).filterMap Slot.record? ↔ window.Holds record := by
  rw [mem_filterMap_record?_iff]
  constructor
  · rintro ⟨sync, member⟩
    exact ⟨sync, List.mem_of_mem_take member⟩
  · intro holds
    rcases sound.slot_of_holds holds with ⟨base_le, sync, found⟩
    have le_last := sound.lsn_le_fixedEnd record last holds closed
    refine ⟨sync, List.mem_of_getElem? (i := record.lsn - window.base) ?_⟩
    rw [keptSlots, List.getElem?_take, if_pos (by omega)]
    exact found

/-- A closed window misses no record exactly if it holds one of each number. -/
theorem all_isFilled_iff (sound : window.Sound capacity)
    (closed : window.fixedEnd = some last) :
    (window.keptSlots last).all Slot.isFilled = true ↔
      ∀ lsn, window.base ≤ lsn → lsn ≤ last →
        ∃ record, window.Holds record ∧ record.lsn = lsn := by
  have length := sound.length_keptSlots closed
  rw [List.all_eq_true]
  constructor
  · intro filled lsn base_le le_last
    have inside : lsn - window.base < (window.keptSlots last).length := by omega
    have found := List.getElem?_eq_getElem inside
    have isFilled := filled _ (List.getElem_mem inside)
    generalize (window.keptSlots last)[lsn - window.base] = slot at found isFilled
    cases slot with
    | empty | moved => cases isFilled
    | filled record sync =>
        rw [keptSlots, List.getElem?_take, if_pos (by omega)] at found
        refine ⟨record, ⟨sync, List.mem_of_getElem? found⟩, ?_⟩
        rw [sound.lsn_of_filled _ record sync found]
        omega
  · intro held slot member
    rcases List.getElem?_of_mem member with ⟨offset, found⟩
    have inside := (List.getElem?_eq_some_iff.mp found).1
    rw [keptSlots, List.getElem?_take, if_pos (by omega)] at found
    rcases held (window.base + offset) (by omega) (by omega) with ⟨record, holds, lsn_eq⟩
    rcases sound.slot_of_holds holds with ⟨_, sync, found'⟩
    rw [lsn_eq, Nat.add_sub_cancel_left, found] at found'
    cases found'
    rfl

end Sound

end Window

namespace Windows

/-- One of the windows holds a record. -/
def Holds (windows : List Window) (record : Record) : Prop :=
  ∃ window ∈ windows, window.Holds record

@[simp]
theorem holds_nil (record : Record) : ¬ Holds [] record := by
  simp [Holds]

@[simp]
theorem holds_cons {window : Window} {rest : List Window} {record : Record} :
    Holds (window :: rest) record ↔ window.Holds record ∨ Holds rest record := by
  simp [Holds]

theorem holds_append {before after : List Window} {record : Record} :
    Holds (before ++ after) record ↔ Holds before record ∨ Holds after record := by
  simp [Holds, or_and_right, exists_or]

/-- Some window from here on holds a record of this number. -/
def HoldsLsn (windows : List Window) (lsn : Nat) : Prop :=
  ∃ record, Holds windows record ∧ record.lsn = lsn

/-- Every slot of the first window that is not empty belongs to a record that one
of the windows holds. -/
def Accounted (window : Window) (rest : List Window) : Prop :=
  ∀ offset slot, window.slots[offset]? = some slot → slot ≠ .empty →
    HoldsLsn (window :: rest) (window.base + offset)

/-- The windows follow one another from `base` on. -/
def Linked (capacity : Capacity) : (base : Nat) → List Window → Prop
  | _, [] => True
  | base, window :: rest =>
      window.base = base ∧ window.Sound capacity ∧ (window.fixedEnd = none → rest = [])
        ∧ Accounted window rest ∧ Linked capacity window.successorBase rest

/-- Windows account for slots that were accounted for before. -/
theorem Accounted.mono {window window' : Window} {rest rest' : List Window}
    (accounted : Accounted window rest) (same_base : window'.base = window.base)
    (slots : ∀ (offset : Nat) (slot : Slot), window'.slots[offset]? = some slot →
      slot ≠ .empty → ∃ before, window.slots[offset]? = some before ∧ before ≠ .empty)
    (holds : ∀ other, Holds (window :: rest) other → Holds (window' :: rest') other) :
    Accounted window' rest' := by
  intro offset slot found occupied
  rcases slots offset slot found occupied with ⟨before, found, occupied⟩
  rcases accounted offset before found occupied with ⟨other, held, lsn_eq⟩
  rw [same_base]
  exact ⟨other, holds other held, lsn_eq⟩

section Linked

variable {capacity : Capacity} {base : Nat} {windows : List Window}

theorem Linked.first_base {window : Window} {rest : List Window}
    (linked : Linked capacity base (window :: rest)) : window.base = base :=
  linked.1

theorem Linked.first_sound {window : Window} {rest : List Window}
    (linked : Linked capacity base (window :: rest)) : window.Sound capacity :=
  linked.2.1

theorem Linked.last_of_opened {window : Window} {rest : List Window}
    (linked : Linked capacity base (window :: rest)) (opened : window.fixedEnd = none) :
    rest = [] :=
  linked.2.2.1 opened

theorem Linked.rest {window : Window} {rest : List Window}
    (linked : Linked capacity base (window :: rest)) :
    Linked capacity window.successorBase rest :=
  linked.2.2.2.2

theorem Linked.base_le_of_holds (linked : Linked capacity base windows) {record : Record}
    (holds : Holds windows record) : base ≤ record.lsn := by
  induction windows generalizing base with
  | nil => exact absurd holds (holds_nil record)
  | cons window rest ih =>
      rcases linked with ⟨rfl, sound, _, _, rest_linked⟩
      rcases holds_cons.mp holds with here | later
      · exact (sound.slot_of_holds here).1
      · exact Nat.le_trans sound.base_le_successorBase (ih rest_linked later)

theorem Linked.base_le (linked : Linked capacity base windows) {window : Window}
    (member : window ∈ windows) : base ≤ window.base := by
  induction windows generalizing base with
  | nil => cases member
  | cons first rest ih =>
      rcases linked with ⟨rfl, sound, _, _, rest_linked⟩
      rcases List.mem_cons.mp member with rfl | later
      · exact Nat.le_refl _
      · exact Nat.le_trans sound.base_le_successorBase (ih rest_linked later)

theorem Linked.sound (linked : Linked capacity base windows) {window : Window}
    (member : window ∈ windows) : window.Sound capacity := by
  induction windows generalizing base with
  | nil => cases member
  | cons first rest ih =>
      rcases linked with ⟨_, sound, _, _, rest_linked⟩
      rcases List.mem_cons.mp member with rfl | later
      · exact sound
      · exact ih rest_linked later

/-- Of two windows the earlier one is closed, and ends before the later one. -/
theorem Linked.fixedEnd_lt_base (linked : Linked capacity base windows) {i j : Nat}
    {earlier later : Window} (at_i : windows[i]? = some earlier)
    (at_j : windows[j]? = some later) (before : i < j) :
    ∃ last, earlier.fixedEnd = some last ∧ last < later.base := by
  induction windows generalizing base i j with
  | nil => simp at at_i
  | cons first rest ih =>
      rcases linked with ⟨_, _, closed, _, rest_linked⟩
      rcases Nat.exists_eq_succ_of_ne_zero (Nat.ne_zero_of_lt before) with ⟨j, rfl⟩
      rw [List.getElem?_cons_succ] at at_j
      cases i with
      | zero =>
          rw [List.getElem?_cons_zero, Option.some.injEq] at at_i
          subst earlier
          cases fixed : first.fixedEnd with
          | none =>
              rw [closed fixed] at at_j
              simp at at_j
          | some last =>
              have follows := rest_linked.base_le (List.mem_of_getElem? at_j)
              simp only [Window.successorBase, fixed, Option.getD_some] at follows
              exact ⟨last, rfl, follows⟩
      | succ i => exact ih rest_linked at_i at_j (Nat.lt_of_succ_lt_succ before)

/-- Every window but the last is closed, and the next one starts after its end. -/
theorem Linked.successor (linked : Linked capacity base windows) {place : Nat}
    {window next : Window} (here : windows[place]? = some window)
    (after : windows[place + 1]? = some next) :
    ∃ last, window.fixedEnd = some last ∧ next.base = last + 1 := by
  induction windows generalizing base place with
  | nil => simp at here
  | cons first rest ih =>
      rcases linked with ⟨_, _, closed, _, rest_linked⟩
      rw [List.getElem?_cons_succ] at after
      cases place with
      | zero =>
          rw [List.getElem?_cons_zero, Option.some.injEq] at here
          subst first
          cases rest with
          | nil => simp at after
          | cons second rest =>
              rw [List.getElem?_cons_zero, Option.some.injEq] at after
              subst second
              rcases rest_linked with ⟨starts, _⟩
              cases fixed : window.fixedEnd with
              | none => cases closed fixed
              | some last =>
                  refine ⟨last, rfl, ?_⟩
                  rw [starts, Window.successorBase, fixed, Option.getD_some]
      | succ place => exact ih rest_linked here after

end Linked

end Windows

end Logbook

import Logbook.Proofs.Chain.Walk

/-!
# How many windows are made

Windows that follow one another need no more than that for their number to stay in bounds: a
walk to some number makes new windows behind the last one, each as long as a window can be, so
it takes one for each stretch of that length from the base of the last window to the number,
and one more where the last window ended early. Records that a closing window sends on all
find room in one new window.

`Spaced` keeps of `Linked` what is true in the middle of a call too, when slots have been
spent on records that have not arrived and records past a new end are still in their slots.
-/

namespace Logbook

namespace Window

variable {capacity : Capacity} {window : Window}

theorem place_base (window : Window) (record : Record) (sync : Bool) :
    (window.place record sync).2.base = window.base := by
  have placed := window.placed record sync
  generalize window.place record sync = outcome at placed
  cases placed with
  | below | past => rfl
  | taken | beyond | kept => simp

theorem place_fixedEnd (window : Window) (record : Record) (sync : Bool) :
    (window.place record sync).2.fixedEnd = window.fixedEnd := by
  have placed := window.placed record sync
  generalize window.place record sync = outcome at placed
  cases placed with
  | below | past => rfl
  | taken | beyond | kept => simp

/-- A record that lies past the slots of a window does not come to it. -/
theorem place_of_outside {record : Record} {sync : Bool}
    (outside : ¬ record.lsn < window.base + window.slots.length) :
    window.place record sync = (.past, window) := by
  have absent : window.slots[record.lsn - window.base]? = none :=
    List.getElem?_eq_none (by omega)
  rw [place, if_neg (by omega)]
  simp only [absent]

namespace Shaped

theorem noteSync (shaped : window.Shaped capacity) (lsn : Nat) (sync : Bool) :
    (window.noteSync lsn sync).Shaped capacity := by
  cases sync with
  | false => exact shaped
  | true => exact ⟨shaped.length_slots, shaped.fixedEnd_bounds, shaped.lsn_of_filled⟩

/-- Whatever becomes of a record, the window keeps its shape. -/
theorem place (shaped : window.Shaped capacity) (record : Record) (sync : Bool) :
    (window.place record sync).2.Shaped capacity := by
  have placed := window.placed record sync
  generalize window.place record sync = outcome at placed
  cases placed with
  | below | past => exact shaped
  | taken => exact shaped.noteSync _ _
  | beyond => exact shaped.occupy (by simp [Slot.record?])
  | kept offset lsn_eq =>
      refine shaped.occupy ?_
      rintro _ ⟨⟩
      exact lsn_eq

/-- Windows of one base and one end that are both as long as they should be have the same
successor. -/
theorem successorBase_eq {window' : Window} (shaped : window.Shaped capacity)
    (shaped' : window'.Shaped capacity) (base : window'.base = window.base)
    (fixedEnd : window'.fixedEnd = window.fixedEnd) :
    window'.successorBase = window.successorBase := by
  simp only [successorBase, naturalEnd, Window.capacity, base, fixedEnd, shaped.length_slots,
    shaped'.length_slots]

end Shaped

end Window

namespace Windows

variable {capacity : Capacity} {base : Nat} {record : Record} {sync : Bool}

theorem shaped_fresh (capacity : Capacity) (base : Nat) :
    (capacity.fresh base).Shaped capacity :=
  (sound_fresh capacity base).shaped

/-- The windows follow one another from `base` on, whatever is in their slots. -/
def Spaced (capacity : Capacity) : (base : Nat) → List Window → Prop
  | _, [] => True
  | base, window :: rest =>
      window.base = base ∧ window.Shaped capacity ∧ (window.fixedEnd = none → rest = [])
        ∧ Spaced capacity window.successorBase rest

theorem Linked.spaced {windows : List Window} (linked : Linked capacity base windows) :
    Spaced capacity base windows := by
  induction windows generalizing base with
  | nil => trivial
  | cons window rest ih =>
      exact ⟨linked.first_base, linked.first_sound.shaped, linked.last_of_opened, ih linked.rest⟩

namespace Spaced

variable {window : Window} {front back : List Window}

theorem first_base (spaced : Spaced capacity base (window :: back)) : window.base = base :=
  spaced.1

theorem shaped (spaced : Spaced capacity base (window :: back)) : window.Shaped capacity :=
  spaced.2.1

theorem last_of_opened (spaced : Spaced capacity base (window :: back))
    (opened : window.fixedEnd = none) : back = [] :=
  spaced.2.2.1 opened

theorem rest (spaced : Spaced capacity base (window :: back)) :
    Spaced capacity window.successorBase back :=
  spaced.2.2.2

theorem from_first (spaced : Spaced capacity base (window :: back)) :
    Spaced capacity window.base (window :: back) :=
  ⟨rfl, spaced.2⟩

theorem of_append (spaced : Spaced capacity base (front ++ window :: back)) :
    Spaced capacity window.base (window :: back) := by
  induction front generalizing base with
  | nil => exact spaced.from_first
  | cons first front ih => exact ih spaced.rest

/-- What comes after some windows may be exchanged for what starts at the same base. -/
theorem append {window' : Window} {back' : List Window}
    (spaced : Spaced capacity base (front ++ window :: back))
    (spaced' : Spaced capacity window.base (window' :: back')) :
    Spaced capacity base (front ++ window' :: back') := by
  induction front generalizing base with
  | nil =>
      rcases spaced with ⟨rfl, _⟩
      exact spaced'
  | cons first front ih =>
      refine ⟨spaced.first_base, spaced.shaped, fun opened => ?_, ih spaced.rest⟩
      exact absurd (spaced.last_of_opened opened) (by simp)

/-- A window may change inside. -/
theorem first_changed {window' : Window} (spaced : Spaced capacity base (window :: back))
    (shaped' : window'.Shaped capacity) (same_base : window'.base = window.base)
    (same_end : window'.fixedEnd = window.fixedEnd) :
    Spaced capacity base (window' :: back) := by
  refine ⟨same_base.trans spaced.first_base, shaped', fun opened => ?_, ?_⟩
  · exact spaced.last_of_opened (same_end.symm.trans opened)
  · rw [spaced.shaped.successorBase_eq shaped' same_base same_end]
    exact spaced.rest

/-- The last window may be closed. -/
theorem last_closed {last : Nat} (spaced : Spaced capacity base [window])
    (base_le : window.base ≤ last + 1) (le_naturalEnd : last ≤ window.naturalEnd) :
    Spaced capacity base [{ window with fixedEnd := some last }] := by
  refine ⟨spaced.first_base, ⟨spaced.shaped.length_slots, ?_, spaced.shaped.lsn_of_filled⟩,
    nofun, trivial⟩
  rintro _ ⟨⟩
  exact ⟨base_le, le_naturalEnd⟩

/-- A successor may be made. -/
theorem followed (spaced : Spaced capacity base [window]) :
    Spaced capacity base [window.closeNaturally, capacity.fresh window.successorBase] :=
  ⟨spaced.first_base, spaced.shaped.closeNaturally, nofun, rfl, shaped_fresh _ _, fun _ => rfl,
    trivial⟩

end Spaced

/-! ### Counting windows -/

/-- The base of the last window; without any, the base that the first one would have. -/
def lastBase (base : Nat) (windows : List Window) : Nat :=
  (windows.getLast?.map (·.base)).getD base

@[simp]
theorem lastBase_nil : lastBase base [] = base :=
  rfl

@[simp]
theorem lastBase_cons (window : Window) (rest : List Window) :
    lastBase base (window :: rest) = lastBase window.base rest := by
  rw [lastBase, lastBase, List.getLast?_cons, Option.map_some, Option.getD_some]
  cases rest.getLast? <;> rfl

@[simp]
theorem lastBase_append_cons (front : List Window) (window : Window) (rest : List Window) :
    lastBase base (front ++ window :: rest) = lastBase window.base rest := by
  induction front generalizing base with
  | nil => exact lastBase_cons window rest
  | cons first front ih => rw [List.cons_append, lastBase_cons, ih]

theorem lastBase_mono {base' : Nat} (le : base ≤ base') (windows : List Window) :
    lastBase base windows ≤ lastBase base' windows := by
  rw [lastBase, lastBase]
  cases windows.getLast? with
  | none => exact le
  | some window => exact Nat.le_refl _

/-- The number of windows from `base` on that it takes to have a slot for a number. -/
def stretch (capacity : Capacity) (base lsn : Nat) : Nat := 1 + (lsn - base) / capacity.slots

theorem stretch_mono {base' lsn : Nat} (le : base ≤ base') :
    stretch capacity base' lsn ≤ stretch capacity base lsn :=
  Nat.add_le_add_left (Nat.div_le_div_right (Nat.sub_le_sub_left le lsn)) 1

theorem stretch_of_inside {lsn : Nat} (inside : lsn < base + capacity.slots) :
    stretch capacity base lsn = 1 := by
  rw [stretch, Nat.div_eq_of_lt (by have := capacity.positive; omega)]

theorem stretch_of_outside {lsn : Nat} (outside : ¬ lsn < base + capacity.slots) :
    stretch capacity base lsn = stretch capacity (base + capacity.slots) lsn + 1 := by
  have positive := capacity.positive
  rw [stretch, stretch, Nat.div_eq, if_pos ⟨positive, by omega⟩, Nat.sub_sub, Nat.add_assoc]

theorem length_make (capacity : Capacity) (record : Record) (sync : Bool) (base : Nat) :
    (make capacity record sync base).2.length = stretch capacity base record.lsn := by
  fun_induction make capacity record sync base with
  | case1 base inside => exact (stretch_of_inside inside).symm
  | case2 base outside passed windows made ih =>
      rw [made] at ih
      rw [stretch_of_outside outside, ← ih, List.length_cons]

theorem length_makeClosed (capacity : Capacity) (lsn base : Nat) :
    (makeClosed capacity lsn base).length = stretch capacity base lsn := by
  fun_induction makeClosed capacity lsn base with
  | case1 base before => exact (stretch_of_inside (Nat.lt_add_right _ before)).symm
  | case2 base before inside => exact (stretch_of_inside inside).symm
  | case3 base before outside ih => rw [stretch_of_outside outside, ← ih, List.length_cons]

/-- How many windows there are after a window and those behind it were walked. -/
theorem length_walked_le {windows windows' : List Window} {window window' : Window} {lsn : Nat}
    (shaped : window.Shaped capacity) (walked : windows'.length ≤
      windows.length + stretch capacity (lastBase window.successorBase windows) lsn) :
    (window' :: windows').length ≤
      (window :: windows).length + stretch capacity (lastBase window.base windows) lsn := by
  have fewer : stretch capacity (lastBase window.successorBase windows) lsn ≤
      stretch capacity (lastBase window.base windows) lsn :=
    stretch_mono (lastBase_mono shaped.base_le_successorBase windows)
  simp only [List.length_cons]
  omega

theorem length_offer_le {windows : List Window} (spaced : Spaced capacity base windows) :
    (offer capacity record sync base windows).2.length ≤
      windows.length + stretch capacity (lastBase base windows) record.lsn := by
  induction windows generalizing base with
  | nil =>
      rw [offer, length_make, lastBase_nil]
      exact Nat.le_add_left _ _
  | cons window rest ih =>
      have placed := window.placed record sync
      unfold offer
      rw [lastBase_cons]
      generalize window.place record sync = outcome at placed
      cases placed with
      | below | taken | kept => exact Nat.le_add_right _ _
      | past => exact length_walked_le spaced.shaped (ih spaced.rest)
      | beyond offset last lsn_eq found closed =>
          have next := spaced.rest
          have walked := ih next
          refine length_walked_le spaced.shaped ?_
          rw [Window.successorBase, closed, Option.getD_some] at walked ⊢
          exact walked

/-- A new window has a slot for a number that it covers. -/
theorem place_fresh_of_inside (base_le : base ≤ record.lsn)
    (inside : record.lsn < base + capacity.slots) :
    (capacity.fresh base).place record sync =
      (.kept, ((capacity.fresh base).place record sync).2) := by
  have base_eq : (capacity.fresh base).base = base := rfl
  have length := (shaped_fresh capacity base).length_slots
  have placed := (capacity.fresh base).placed record sync
  generalize (capacity.fresh base).place record sync = outcome at placed
  cases placed with
  | below lsn_lt => omega
  | past le_lsn => omega
  | taken offset slot lsn_eq found occupied => exact absurd (eq_empty_of_fresh found) occupied
  | beyond offset last lsn_eq found closed => cases closed
  | kept => rfl

theorem place_fresh_of_outside (outside : ¬ record.lsn < base + capacity.slots) :
    (capacity.fresh base).place record sync = (.past, capacity.fresh base) := by
  refine Window.place_of_outside ?_
  rw [(shaped_fresh capacity base).length_slots]
  exact outside

/-- A new window might as well be made on the way. -/
theorem offer_fresh (base_le : base ≤ record.lsn) :
    offer capacity record sync base [capacity.fresh base] =
      offer capacity record sync base [] := by
  have next : (capacity.fresh base).successorBase = base + capacity.slots :=
    naturalEnd_fresh capacity base
  simp only [offer]
  rw [make]
  by_cases inside : record.lsn < base + capacity.slots
  · rw [if_pos inside, place_fresh_of_inside base_le inside]
  · rw [if_neg inside, place_fresh_of_outside inside]
    simp only [next]
    rfl

theorem length_offer_fresh_le :
    (offer capacity record sync base [capacity.fresh base]).2.length ≤
      stretch capacity base record.lsn := by
  by_cases base_le : base ≤ record.lsn
  · rw [offer_fresh base_le, offer]
    exact Nat.le_of_eq (length_make capacity record sync base)
  · have below : record.lsn < (capacity.fresh base).base := Nat.not_le.mp base_le
    rw [offer, Window.place, if_pos below]
    exact Nat.le_add_right 1 _

/-- At most one window, which is open. -/
def AtMostOne (capacity : Capacity) (base : Nat) (windows : List Window) : Prop :=
  windows = [] ∨ ∃ window, windows = [window] ∧ window.base = base ∧ window.fixedEnd = none ∧
    window.Shaped capacity

theorem AtMostOne.length_le {windows : List Window} (one : AtMostOne capacity base windows) :
    windows.length ≤ 1 := by
  rcases one with rfl | ⟨window, rfl, _⟩
  · exact Nat.zero_le 1
  · exact Nat.le_refl 1

/-- A record that one window has a slot for needs no second one. -/
theorem AtMostOne.offer {windows : List Window} (one : AtMostOne capacity base windows)
    (base_le : base ≤ record.lsn) (inside : record.lsn < base + capacity.slots) :
    AtMostOne capacity base (offer capacity record sync base windows).2 := by
  rcases one with rfl | ⟨window, rfl, rfl, opened, shaped⟩
  · rw [Windows.offer, make, if_pos inside]
    refine .inr ⟨_, rfl, ?_, ?_, (shaped_fresh capacity base).place record sync⟩
    · exact Window.place_base _ record sync
    · exact Window.place_fixedEnd _ record sync
  · have same_base := window.place_base record sync
    have same_end := window.place_fixedEnd record sync
    have shaped' := shaped.place record sync
    have placed := window.placed record sync
    unfold Windows.offer
    generalize window.place record sync = outcome at same_base same_end shaped' placed
    cases placed with
    | below lsn_lt => exact absurd lsn_lt (Nat.not_lt.mpr base_le)
    | past le_lsn =>
        rw [shaped.length_slots] at le_lsn
        exact absurd inside (Nat.not_lt.mpr le_lsn)
    | beyond offset last lsn_eq found closed => cases opened.symm.trans closed
    | taken | kept => exact .inr ⟨_, rfl, same_base, same_end.trans opened, shaped'⟩

theorem AtMostOne.relocate {slots : List Slot} {windows : List Window}
    (one : AtMostOne capacity base windows)
    (inside : ∀ record sync, Slot.filled record sync ∈ slots →
      base ≤ record.lsn ∧ record.lsn < base + capacity.slots) :
    AtMostOne capacity base (relocate capacity base slots windows).2.2 := by
  induction slots generalizing windows with
  | nil => exact one
  | cons slot slots ih =>
      have inside_rest : ∀ record sync, Slot.filled record sync ∈ slots →
          base ≤ record.lsn ∧ record.lsn < base + capacity.slots :=
        fun record sync member => inside record sync (List.mem_cons_of_mem _ member)
      cases slot with
      | empty | moved => exact ih one inside_rest
      | filled record sync =>
          obtain ⟨base_le, lsn_lt⟩ := inside record sync List.mem_cons_self
          have offered : AtMostOne capacity base
              (Windows.offer capacity record sync base windows).2 := one.offer base_le lsn_lt
          unfold Windows.relocate
          generalize Windows.offer capacity record sync base windows = outcome at offered
          rcases outcome with ⟨fault | passed, after⟩
          · exact offered
          · exact ih offered inside_rest

/-- The slots of an open window past an end that it can have hold numbers that all fit into
one window after that end. -/
theorem lsn_of_mem_beyond {window : Window} {last : Nat} (shaped : window.Shaped capacity)
    (base_le : window.base ≤ last + 1) {record : Record} {sync : Bool}
    (member : Slot.filled record sync ∈ window.slots.drop (window.keptSlots last).length) :
    last + 1 ≤ record.lsn ∧ record.lsn < last + 1 + capacity.slots := by
  obtain ⟨offset, found⟩ := List.getElem?_of_mem member
  rw [List.getElem?_drop, Window.keptSlots, List.length_take] at found
  have lsn_eq := shaped.lsn_of_filled _ record sync found
  have inside := (List.getElem?_eq_some_iff.mp found).1
  have natural := Window.naturalEnd_add_one shaped.length_slots
  have length := shaped.length_slots
  omega

theorem length_closeFirst_le {window : Window} {rest : List Window} {last : Nat}
    (spaced : Spaced capacity base (window :: rest)) :
    (closeFirst capacity window rest last).2.length ≤ (window :: rest).length + 1 := by
  unfold closeFirst
  split
  · exact Nat.le_succ _
  · rename_i inside
    split
    · exact Nat.le_succ _
    · rename_i opened
      obtain rfl := spaced.last_of_opened opened
      have one : AtMostOne capacity (last + 1) [] := .inl rfl
      have relocated := (one.relocate fun record sync member =>
        lsn_of_mem_beyond spaced.shaped (by omega) member).length_le
      exact Nat.succ_le_succ relocated

theorem length_closeThrough_le {windows : List Window} {lsn : Nat}
    (spaced : Spaced capacity base windows) :
    (closeThrough capacity lsn base windows).2.length ≤
      windows.length + stretch capacity (lastBase base windows) lsn := by
  induction windows generalizing base with
  | nil =>
      rw [closeThrough, length_makeClosed, lastBase_nil]
      exact Nat.le_add_left _ _
  | cons window rest ih =>
      have one : 1 ≤ stretch capacity (lastBase base (window :: rest)) lsn := Nat.le_add_right 1 _
      unfold closeThrough
      split
      · exact Nat.le_add_right _ _
      · split
        · have closed : (closeFirst capacity window rest lsn).2.length ≤
              (window :: rest).length + 1 := length_closeFirst_le spaced
          exact Nat.le_trans closed (Nat.add_le_add_left one _)
        · split
          · exact Nat.le_add_right _ _
          · rw [lastBase_cons]
            exact length_walked_le spaced.shaped (ih spaced.rest)

end Windows

end Logbook

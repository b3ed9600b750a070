import Logbook.Proofs.Chain.Walk

/-!
# What closing a window does

An open window is the last one, so the records past the end that it gets go to
windows made for them, and there is always room. A window that is closed already
stays as it is. Closing windows up to some number closes those on the way at
their natural ends.
-/

namespace Logbook

namespace Windows

variable {capacity : Capacity} {base : Nat}

/-- Records of ascending numbers that no window holds yet all find room. -/
theorem relocate_spec {slots : List Slot} {windows : List Window} {lsn bound : Nat}
    (linked : Linked capacity base windows) (base_le : base ≤ lsn)
    (older : ∀ other, Holds windows other → other.lsn < lsn)
    (numbered : ∀ offset record sync, slots[offset]? = some (.filled record sync) →
      record.lsn = lsn + offset)
    (bounded : ∀ record sync, Slot.filled record sync ∈ slots → record.lsn ≤ bound) :
    ∃ after, relocate capacity base slots windows = (.ok (), slots.map Slot.vacate, after) ∧
      Linked capacity base after ∧ Grown bound windows after ∧
      ∀ other, Holds after other ↔
        (∃ sync, Slot.filled other sync ∈ slots) ∨ Holds windows other := by
  induction slots generalizing windows lsn with
  | nil => exact ⟨windows, rfl, linked, .refl _ _, by simp⟩
  | cons slot slots ih =>
      have numbered_rest : ∀ offset record sync,
          slots[offset]? = some (.filled record sync) → record.lsn = lsn + 1 + offset := by
        intro offset record sync found
        rw [numbered (offset + 1) record sync (by simpa using found)]
        omega
      have bounded_rest : ∀ record sync, Slot.filled record sync ∈ slots → record.lsn ≤ bound :=
        fun record sync member => bounded record sync (List.mem_cons_of_mem _ member)
      cases slot with
      | empty | moved =>
          obtain ⟨after, moved, after_linked, grown, holds⟩ := ih linked (by omega)
            (fun other held => Nat.lt_succ_of_lt (older other held)) numbered_rest bounded_rest
          refine ⟨after, ?_, after_linked, grown, fun other => ?_⟩
          · simp [relocate, moved, Slot.vacate]
          · simpa using holds other
      | filled record sync =>
          have lsn_eq : record.lsn = lsn := numbered 0 record sync rfl
          have free : ¬ HoldsLsn windows record.lsn := by
            rintro ⟨other, held, same⟩
            have := older other held
            omega
          rcases offer_of_free linked (lsn_eq ▸ base_le : base ≤ record.lsn) free sync with
            ⟨passed, middle, offer_eq, offered⟩
          have older_middle : ∀ other, Holds middle other → other.lsn < lsn + 1 := by
            intro other held
            rcases (offered.holds other).mp held with ⟨_, rfl⟩ | held
            · omega
            · exact Nat.lt_succ_of_lt (older other held)
          rcases ih offered.linked (Nat.le_succ_of_le base_le) older_middle numbered_rest
            bounded_rest with ⟨after, moved, after_linked, grown, holds⟩
          refine ⟨after, ?_, after_linked,
            (offered.grown.mono (bounded record sync List.mem_cons_self)).trans grown,
            fun other => ?_⟩
          · simp [relocate, offer_eq, moved, Slot.vacate]
          · rw [holds, offered.holds]
            simp only [List.mem_cons, Slot.filled.injEq, exists_or, true_and]
            constructor
            · rintro (later | rfl | before)
              · exact .inl (.inr later)
              · exact .inl (.inl ⟨sync, rfl, rfl⟩)
              · exact .inr before
            · rintro ((⟨_, rfl, _⟩ | later) | before)
              · exact .inr (.inl rfl)
              · exact .inl later
              · exact .inr (.inr before)

theorem vacate_ne_filled {slot : Slot} {record : Record} {sync : Bool} :
    slot.vacate ≠ .filled record sync := by
  cases slot <;> simp [Slot.vacate]

end Windows

namespace Window

/-- The window has been closed at `last`: the slots past it are vacated. -/
structure ClosedAt (last : Nat) (window closed : Window) : Prop where
  base : closed.base = window.base
  fixedEnd : closed.fixedEnd = some last
  length : closed.slots.length = window.slots.length
  slot_iff : ∀ (offset : Nat) (slot : Slot), closed.slots[offset]? = some slot ↔
    ∃ before, window.slots[offset]? = some before ∧
      slot = if offset < last + 1 - window.base then before else before.vacate

/-- Vacating the slots past the end closes a window. -/
theorem closedAt (window : Window) (last : Nat) :
    window.ClosedAt last { window with
      slots := window.keptSlots last
        ++ (window.slots.drop (window.keptSlots last).length).map Slot.vacate
      fixedEnd := some last } where
  base := rfl
  fixedEnd := rfl
  length := by
    simp only [Window.keptSlots, List.length_append, List.length_map, List.length_drop,
      List.length_take]
    omega
  slot_iff offset slot := by
    simp only [Window.keptSlots, List.getElem?_append, List.length_take, List.getElem?_take,
      List.getElem?_map, List.getElem?_drop]
    by_cases kept : offset < min (last + 1 - window.base) window.slots.length
    · have inside : offset < last + 1 - window.base := by omega
      simp [kept, inside, eq_comm]
    · have place : min (last + 1 - window.base) window.slots.length
          + (offset - min (last + 1 - window.base) window.slots.length) = offset := by omega
      rw [if_neg kept, place]
      cases found : window.slots[offset]? with
      | none => simp
      | some before =>
          have := (List.getElem?_eq_some_iff.mp found).1
          have outside : ¬ offset < last + 1 - window.base := by omega
          simp [outside, eq_comm]

namespace ClosedAt

variable {capacity : Capacity} {last : Nat} {window closed : Window}

/-- A slot that is filled was filled before, and is not past the end. -/
theorem filled_iff (at_last : window.ClosedAt last closed) {offset : Nat} {record : Record}
    {sync : Bool} :
    closed.slots[offset]? = some (.filled record sync) ↔
      window.slots[offset]? = some (.filled record sync) ∧ offset < last + 1 - window.base := by
  rw [at_last.slot_iff]
  constructor
  · rintro ⟨before, found, same⟩
    split at same
    · rename_i inside
      rw [same]
      exact ⟨found, inside⟩
    · exact absurd same.symm Windows.vacate_ne_filled
  · rintro ⟨found, inside⟩
    exact ⟨_, found, by rw [if_pos inside]⟩

/-- A slot that is not empty was not empty before. -/
theorem occupied (at_last : window.ClosedAt last closed) {offset : Nat} {slot : Slot}
    (found : closed.slots[offset]? = some slot) (occupied : slot ≠ .empty) :
    ∃ before, window.slots[offset]? = some before ∧ before ≠ .empty := by
  rcases (at_last.slot_iff _ _).mp found with ⟨before, found, same⟩
  refine ⟨before, found, ?_⟩
  rintro rfl
  apply occupied
  rw [same]
  split
  · rfl
  · rfl

/-- The window keeps the records up to its end. -/
theorem holds_iff (at_last : window.ClosedAt last closed) (sound : window.Sound capacity)
    (record : Record) : closed.Holds record ↔ window.Holds record ∧ record.lsn ≤ last := by
  constructor
  · intro held
    rcases Window.holds_iff.mp held with ⟨offset, sync, found⟩
    rcases at_last.filled_iff.mp found with ⟨found, inside⟩
    have lsn_eq := sound.lsn_of_filled offset record sync found
    exact ⟨Window.holds_iff.mpr ⟨offset, sync, found⟩, by omega⟩
  · rintro ⟨held, le_last⟩
    rcases sound.slot_of_holds held with ⟨base_le, sync, found⟩
    exact Window.holds_iff.mpr ⟨_, sync, at_last.filled_iff.mpr ⟨found, by omega⟩⟩

theorem sound (at_last : window.ClosedAt last closed) (sound : window.Sound capacity)
    (base_le : window.base ≤ last + 1) (le_naturalEnd : last ≤ window.naturalEnd) :
    closed.Sound capacity where
  length_slots := at_last.length.trans sound.length_slots
  fixedEnd_bounds fixed here := by
    rw [at_last.fixedEnd, Option.some.injEq] at here
    rw [← here, naturalEnd, Window.capacity, at_last.length, at_last.base]
    exact ⟨base_le, le_naturalEnd⟩
  lsn_of_filled offset record sync found := by
    rw [at_last.base]
    exact sound.lsn_of_filled offset record sync (at_last.filled_iff.mp found).1
  lsn_le_fixedEnd record fixed held here := by
    rw [at_last.fixedEnd, Option.some.injEq] at here
    rw [← here]
    exact ((at_last.holds_iff sound record).mp held).2

end ClosedAt

end Window

namespace Windows

variable {capacity : Capacity} {base : Nat}

/-- The last window, closed at an end that it can have, together with windows that
took the records past it. -/
theorem Carried.of_closed {window closed : Window} {after : List Window} {last bound : Nat}
    (linked : Linked capacity base [window]) (opened : window.fixedEnd = none)
    (base_le : window.base ≤ last + 1) (le_naturalEnd : last ≤ window.naturalEnd)
    (last_lt : last < bound) (at_last : window.ClosedAt last closed)
    (after_linked : Linked capacity (last + 1) after) (grown : Grown bound [] after)
    (holds : ∀ other, Holds after other ↔ window.Holds other ∧ last < other.lsn) :
    Carried capacity base bound [window] none (closed :: after) := by
  rcases linked with ⟨rfl, sound, _, accounted, _⟩
  have holds_all : ∀ other, Holds (closed :: after) other ↔ Holds [window] other := by
    intro other
    rw [holds_cons, holds_cons, at_last.holds_iff sound, holds, or_iff_left (holds_nil other),
      ← and_or_left]
    exact and_iff_left (Nat.lt_or_ge last other.lsn).symm
  have accounted_closed : Accounted closed after :=
    accounted.mono at_last.base (fun _ _ found occupied => at_last.occupied found occupied)
      fun other held => (holds_all other).mpr held
  have next_linked : Linked capacity closed.successorBase after := by
    rw [Window.successorBase, at_last.fixedEnd]
    exact after_linked
  constructor
  · exact ⟨at_last.base, at_last.sound sound base_le le_naturalEnd,
      by simp [at_last.fixedEnd], accounted_closed, next_linked⟩
  · exact .cons ⟨at_last.base, .inr ⟨opened, last, at_last.fixedEnd, last_lt⟩⟩ grown
  · simpa using holds_all
  · simp

/-- Closing an open window, which has no successor yet. -/
theorem carried_closeOpen {window : Window} {last bound : Nat}
    (linked : Linked capacity base [window]) (opened : window.fixedEnd = none)
    (base_le : window.base ≤ last + 1) (le_naturalEnd : last ≤ window.naturalEnd)
    (last_lt : last < bound) (bounded : ∀ other, window.Holds other → other.lsn ≤ bound) :
    (closeFirst capacity window [] last).1 = .ok true ∧
      Carried capacity base bound [window] none (closeFirst capacity window [] last).2 := by
  have sound := linked.first_sound
  have natural := Window.naturalEnd_add_one sound.length_slots
  have length : (window.keptSlots last).length = last + 1 - window.base := by
    have := sound.length_slots
    simp only [Window.keptSlots, List.length_take]
    omega
  obtain ⟨after, relocated, after_linked, grown, holds⟩ :=
    relocate_spec (show Linked capacity (last + 1) [] from trivial) (Nat.le_refl _) (by simp)
      (fun offset record sync
          (found : (window.slots.drop (window.keptSlots last).length)[offset]? = _) => by
        rw [List.getElem?_drop, length] at found
        rw [sound.lsn_of_filled _ record sync found]
        omega)
      (fun record sync member => bounded record ⟨sync, List.mem_of_mem_drop member⟩)
  have result : closeFirst capacity window [] last = (.ok true,
      { window with
        slots := window.keptSlots last
          ++ (window.slots.drop (window.keptSlots last).length).map Slot.vacate
        fixedEnd := some last } :: after) := by
    unfold closeFirst
    rw [if_neg (by omega), opened]
    simp only [relocated]
    rfl
  rw [result]
  refine ⟨rfl, .of_closed linked opened base_le le_naturalEnd last_lt (window.closedAt last)
    after_linked grown fun other => ?_⟩
  rw [holds, or_iff_left (holds_nil other)]
  constructor
  · rintro ⟨sync, member⟩
    rcases List.getElem?_of_mem member with ⟨offset, found⟩
    rw [List.getElem?_drop, length] at found
    have := sound.lsn_of_filled _ other sync found
    exact ⟨⟨sync, List.mem_of_mem_drop member⟩, by omega⟩
  · rintro ⟨held, last_lt⟩
    rcases sound.slot_of_holds held with ⟨_, sync, found⟩
    refine ⟨sync, List.mem_iff_getElem?.mpr ⟨other.lsn - (last + 1), ?_⟩⟩
    rw [List.getElem?_drop, length, ← found]
    congr 1
    omega

/-- Closing a window, whether it may be closed there or not. -/
theorem carried_closeFirst {window : Window} {rest : List Window} {last bound : Nat}
    (linked : Linked capacity base (window :: rest)) (last_lt : last < bound)
    (bounded : ∀ other, window.Holds other → other.lsn ≤ bound) :
    Carried capacity base bound (window :: rest) none
      (closeFirst capacity window rest last).2 := by
  by_cases outside : last < window.base - 1 ∨ window.naturalEnd < last
  · have refused : closeFirst capacity window rest last =
        (.error (.endOutOfRange window.base window.naturalEnd last), window :: rest) := by
      rw [closeFirst, if_pos outside]
    rw [refused]
    exact .refl linked _
  · cases fixed : window.fixedEnd with
    | some at_end =>
        have kept : closeFirst capacity window rest last =
            (.ok (at_end = last : Bool), window :: rest) := by
          rw [closeFirst, if_neg outside, fixed]
        rw [kept]
        exact .refl linked _
    | none =>
        obtain rfl := linked.last_of_opened fixed
        exact (carried_closeOpen linked fixed (by omega) (by omega) last_lt bounded).2

/-! ### Closing windows up to a number -/

/-- A window whose end lies before what follows is closed and left behind. -/
theorem Carried.past_closed {window : Window} {rest rest' : List Window} {bound : Nat}
    (linked : Linked capacity base (window :: rest))
    (below : window.fixedEnd = none → window.naturalEnd < bound)
    (carried : Carried capacity window.successorBase bound rest none rest') :
    Carried capacity base bound (window :: rest) none (window.closeNaturally :: rest') := by
  rcases linked with ⟨rfl, sound, _, accounted, _⟩
  have holds_all : ∀ other, Holds (window.closeNaturally :: rest') other ↔
      Holds (window :: rest) other := by
    intro other
    rw [holds_cons, holds_cons, carried.holds]
    simp [Window.Holds]
  have accounted' : Accounted window.closeNaturally rest' :=
    accounted.mono rfl (fun _ slot found occupied => ⟨slot, found, occupied⟩)
      fun other held => (holds_all other).mpr held
  have later : window.Later bound window.closeNaturally := by
    cases fixed : window.fixedEnd with
    | none => exact Window.later_closeNaturally (below fixed)
    | some last =>
        rw [Window.closeNaturally_of_fixedEnd fixed]
        exact Window.later_of_fixedEnd_eq rfl rfl
  constructor
  · exact ⟨rfl, sound.closeNaturally, by simp [Window.closeNaturally], accounted',
      carried.linked⟩
  · exact .cons later carried.grown
  · simpa using holds_all
  · simp

/-- Closing a new window vacates nothing. -/
theorem closedAt_fresh (capacity : Capacity) (base last : Nat) :
    (capacity.fresh base).ClosedAt last { capacity.fresh base with fixedEnd := some last } where
  base := rfl
  fixedEnd := rfl
  length := rfl
  slot_iff offset slot := by
    constructor
    · intro found
      change (capacity.fresh base).slots[offset]? = some slot at found
      cases eq_empty_of_fresh found
      exact ⟨.empty, found, (ite_self _).symm⟩
    · rintro ⟨before, found, rfl⟩
      cases eq_empty_of_fresh found
      exact found.trans (congrArg some (ite_self _).symm)

/-- What comes of a new window comes of none, since it holds nothing yet. -/
theorem Carried.of_fresh {windows : List Window} {bound : Nat}
    (carried : Carried capacity base bound [capacity.fresh base] none windows) :
    Carried capacity base bound [] none windows where
  linked := carried.linked
  grown := carried.grown.of_fresh
  holds other := by
    rw [carried.holds, holds_cons, or_iff_right (not_holds_fresh other)]
  fresh := nofun

/-- Windows made for a close hold nothing. -/
theorem carried_makeClosed {lsn bound : Nat} (lsn_lt : lsn < bound) :
    Carried capacity base bound [] none (makeClosed capacity lsn base) := by
  have natural := naturalEnd_fresh capacity
  fun_induction makeClosed capacity lsn base with
  | case1 base before => exact .of_fresh (.refl linked_fresh bound)
  | case2 base before inside =>
      have base_le : base ≤ lsn + 1 := by omega
      have le_naturalEnd : lsn ≤ (capacity.fresh base).naturalEnd := by
        have := natural base
        omega
      have none_past : ∀ other, Holds [] other ↔
          (capacity.fresh base).Holds other ∧ lsn < other.lsn := by
        simp [not_holds_fresh]
      exact .of_fresh (.of_closed linked_fresh rfl base_le le_naturalEnd lsn_lt
        (closedAt_fresh capacity base lsn) trivial (.made (by simp)) none_past)
  | case3 base before outside ih =>
      have below : (capacity.fresh base).naturalEnd < bound := by
        have := natural base
        omega
      have next : (capacity.fresh base).successorBase = base + capacity.slots := natural base
      exact .of_fresh (.past_closed linked_fresh (fun _ => below) (next ▸ ih))

/-- Closing the windows up to a number. -/
theorem carried_closeThrough {windows : List Window} {lsn bound : Nat}
    (linked : Linked capacity base windows) (lsn_lt : lsn < bound)
    (bounded : ∀ other, Holds windows other → other.lsn ≤ bound) :
    Carried capacity base bound windows none (closeThrough capacity lsn base windows).2 := by
  induction windows generalizing base with
  | nil => exact carried_makeClosed lsn_lt
  | cons window rest ih =>
      unfold closeThrough
      split
      · exact .refl linked bound
      · rename_i base_le
        split
        · exact carried_closeFirst linked lsn_lt fun other held =>
            bounded other (holds_cons.mpr (.inl held))
        · rename_i not_here
          split
          · exact .refl linked bound
          · refine .past_closed linked (fun opened => ?_) (ih linked.rest fun other held =>
              bounded other (holds_cons.mpr (.inr held)))
            have outside : window.naturalEnd < lsn :=
              Nat.lt_of_not_le fun inside => not_here ⟨inside, opened⟩
            exact Nat.lt_trans outside lsn_lt

/-- Closing the windows up to a number meets no fault. -/
theorem isOk_closeThrough {windows : List Window} {lsn bound : Nat}
    (linked : Linked capacity base windows) (lsn_lt : lsn < bound)
    (bounded : ∀ other, Holds windows other → other.lsn ≤ bound) :
    (closeThrough capacity lsn base windows).1.isOk = true := by
  induction windows generalizing base with
  | nil => rfl
  | cons window rest ih =>
      unfold closeThrough
      split
      · rfl
      · rename_i base_le
        split
        · rename_i here
          obtain rfl := linked.last_of_opened here.2
          have closed := (carried_closeOpen linked here.2 (by omega) here.1 lsn_lt fun other held =>
            bounded other (holds_cons.mpr (.inl held))).1
          rw [isOk_map, closed]
          rfl
        · split
          · rfl
          · exact ih linked.rest fun other held => bounded other (holds_cons.mpr (.inr held))

end Windows

end Logbook

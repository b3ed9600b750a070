import Logbook.Proofs.Chain.Linked

/-!
# What a walk along the windows does

A record that is offered to linked windows ends up in exactly one of them, unless
its number was taken before; the other records stay where they are. Bases and
fixed ends stay as well: a walk only fixes ends of open windows and makes new
windows behind the last one. Closing a window sends the records past its end on
in the same way.
-/

namespace Logbook

namespace Window

theorem holds_iff {window : Window} {record : Record} :
    window.Holds record ↔
      ∃ (offset : Nat) (sync : Bool), window.slots[offset]? = some (.filled record sync) := by
  simp only [Holds, List.mem_iff_getElem?]
  exact exists_comm

/-- What may become of a record that is offered to a window, and when. -/
inductive Placed (window : Window) (record : Record) (sync : Bool) :
    Placement × Window → Prop where
  | below (lsn_lt : record.lsn < window.base) :
      Placed window record sync (.refused (.belowBase record.lsn window.base), window)
  | past (le_lsn : window.base + window.slots.length ≤ record.lsn) :
      Placed window record sync (.past, window)
  | taken (offset : Nat) (slot : Slot) (lsn_eq : record.lsn = window.base + offset)
      (found : window.slots[offset]? = some slot) (occupied : slot ≠ .empty) :
      Placed window record sync
        (.refused (.filledTwice record.lsn), window.noteSync record.lsn sync)
  | beyond (offset last : Nat) (lsn_eq : record.lsn = window.base + offset)
      (found : window.slots[offset]? = some .empty) (closed : window.fixedEnd = some last)
      (last_lt : last < record.lsn) :
      Placed window record sync
        (.beyond last, (window.noteSync record.lsn sync).occupy offset .moved)
  | kept (offset : Nat) (lsn_eq : record.lsn = window.base + offset)
      (found : window.slots[offset]? = some .empty)
      (inside : ∀ last, window.fixedEnd = some last → record.lsn ≤ last) :
      Placed window record sync
        (.kept, (window.noteSync record.lsn sync).occupy offset (.filled record sync))

theorem placed (window : Window) (record : Record) (sync : Bool) :
    window.Placed record sync (window.place record sync) := by
  unfold place
  split
  · rename_i lsn_lt
    exact .below lsn_lt
  · rename_i base_le
    have lsn_eq : record.lsn = window.base + (record.lsn - window.base) := by omega
    dsimp only
    split
    · rename_i absent
      have := List.getElem?_eq_none_iff.mp absent
      exact .past (by omega)
    · rename_i found
      split
      · rename_i last filtered
        rcases Option.filter_eq_some_iff.mp filtered with ⟨closed, last_lt⟩
        exact .beyond _ last lsn_eq found closed (of_decide_eq_true last_lt)
      · rename_i filtered
        refine .kept _ lsn_eq found ?_
        intro last closed
        have := Option.filter_eq_none_iff.mp filtered last closed
        simpa using this
    · rename_i slot occupied found
      exact .taken _ slot lsn_eq found occupied

theorem holds_occupy {window : Window} {offset : Nat} {slot : Slot} {lsn : Nat} {sync : Bool}
    (found : window.slots[offset]? = some .empty) (record : Record) :
    ((window.noteSync lsn sync).occupy offset slot).Holds record ↔
      slot.record? = some record ∨ window.Holds record := by
  have inside := (List.getElem?_eq_some_iff.mp found).1
  simp only [holds_iff, occupy_slots, noteSync_slots, List.getElem?_set]
  constructor
  · rintro ⟨place, flag, at_place⟩
    by_cases same : offset = place
    · subst same
      rw [if_pos rfl, if_pos inside, Option.some.injEq] at at_place
      subst slot
      exact .inl rfl
    · rw [if_neg same] at at_place
      exact .inr ⟨place, flag, at_place⟩
  · rintro (new | ⟨place, flag, at_place⟩)
    · cases slot with
      | empty | moved => cases new
      | filled inner flag =>
          cases new
          exact ⟨offset, flag, by rw [if_pos rfl, if_pos inside]⟩
    · refine ⟨place, flag, ?_⟩
      rw [if_neg]
      · exact at_place
      · rintro rfl
        rw [found] at at_place
        cases at_place

/-- A window keeps its shape when a slot gets what belongs there. -/
theorem Shaped.occupy {capacity : Capacity} {window : Window} (shaped : window.Shaped capacity)
    {offset : Nat} {slot : Slot} {lsn : Nat} {sync : Bool}
    (fits : ∀ record, slot.record? = some record → record.lsn = window.base + offset) :
    ((window.noteSync lsn sync).occupy offset slot).Shaped capacity where
  length_slots := by simpa using shaped.length_slots
  fixedEnd_bounds last closed := by
    simpa [naturalEnd, Window.capacity] using shaped.fixedEnd_bounds last (by simpa using closed)
  lsn_of_filled place record flag at_place := by
    simp only [occupy_slots, noteSync_slots, List.getElem?_set] at at_place
    simp only [occupy_base, noteSync_base]
    split at at_place
    · rename_i same
      subst same
      split at at_place
      · rw [Option.some.injEq] at at_place
        subst slot
        exact fits record rfl
      · cases at_place
    · exact shaped.lsn_of_filled place record flag at_place

/-- A window stays sound when an empty slot gets what belongs there. -/
theorem Sound.occupy {capacity : Capacity} {window : Window} (sound : window.Sound capacity)
    {offset : Nat} {slot : Slot} {lsn : Nat} {sync : Bool}
    (found : window.slots[offset]? = some .empty)
    (fits : ∀ record, slot.record? = some record → record.lsn = window.base + offset ∧
      ∀ last, window.fixedEnd = some last → record.lsn ≤ last) :
    ((window.noteSync lsn sync).occupy offset slot).Sound capacity :=
  have shaped : ((window.noteSync lsn sync).occupy offset slot).Shaped capacity :=
    sound.shaped.occupy fun record held => (fits record held).1
  { length_slots := shaped.length_slots
    fixedEnd_bounds := shaped.fixedEnd_bounds
    lsn_of_filled := shaped.lsn_of_filled
    lsn_le_fixedEnd := by
      intro record last holds closed
      simp only [occupy_fixedEnd, noteSync_fixedEnd] at closed
      rcases (holds_occupy found record).mp holds with new | old
      · exact (fits record new).2 last closed
      · exact sound.lsn_le_fixedEnd record last old closed }

/-- The window as a walk may leave it: its base and a fixed end stay, and an end
that the walk fixes is below the bound. -/
def Later (bound : Nat) (before after : Window) : Prop :=
  after.base = before.base ∧
    (after.fixedEnd = before.fixedEnd ∨
      before.fixedEnd = none ∧ ∃ last, after.fixedEnd = some last ∧ last < bound)

theorem later_of_fixedEnd_eq {bound : Nat} {before after : Window}
    (base : after.base = before.base) (fixedEnd : after.fixedEnd = before.fixedEnd) :
    before.Later bound after :=
  ⟨base, .inl fixedEnd⟩

theorem Later.mono {bound bound' : Nat} {before after : Window}
    (later : before.Later bound after) (le : bound ≤ bound') : before.Later bound' after := by
  refine ⟨later.1, later.2.imp_right ?_⟩
  rintro ⟨opened, last, closed, below⟩
  exact ⟨opened, last, closed, Nat.lt_of_lt_of_le below le⟩

theorem Later.trans {bound : Nat} {before middle after : Window}
    (first : before.Later bound middle) (second : middle.Later bound after) :
    before.Later bound after := by
  constructor
  · exact second.1.trans first.1
  · rcases first.2 with same | ⟨opened, last, closed, below⟩
    · rw [← same]
      exact second.2
    · rcases second.2 with same | ⟨opened', _⟩
      · exact .inr ⟨opened, last, same.trans closed, below⟩
      · rw [closed] at opened'
        cases opened'

theorem Later.fixedEnd_lt {bound : Nat} {before after : Window}
    (later : before.Later bound after)
    (bounded : ∀ last, before.fixedEnd = some last → last < bound) (last : Nat)
    (closed : after.fixedEnd = some last) : last < bound := by
  rcases later.2 with same | ⟨_, fixed, fixed_eq, below⟩
  · exact bounded last (same ▸ closed)
  · rw [fixed_eq, Option.some.injEq] at closed
    exact closed ▸ below

theorem later_closeNaturally {window : Window} {bound : Nat}
    (below : window.naturalEnd < bound) : window.Later bound window.closeNaturally := by
  constructor
  · exact rfl
  · cases closed : window.fixedEnd with
    | none => exact .inr ⟨rfl, window.naturalEnd, by simp [closeNaturally, closed], below⟩
    | some last => exact .inl (by simp [closeNaturally, closed])

end Window

namespace Windows

/-- The windows as a walk may leave them: each as `Window.Later` allows, and new
ones behind them with ends below the bound. -/
inductive Grown (bound : Nat) : List Window → List Window → Prop where
  | made {windows : List Window}
      (bounded : ∀ window ∈ windows, ∀ last, window.fixedEnd = some last → last < bound) :
      Grown bound [] windows
  | cons {before after : Window} {rest rest' : List Window}
      (later : before.Later bound after) (grown : Grown bound rest rest') :
      Grown bound (before :: rest) (after :: rest')

theorem Grown.mono {bound bound' : Nat} {before after : List Window}
    (grown : Grown bound before after) (le : bound ≤ bound') : Grown bound' before after := by
  induction grown with
  | made bounded =>
      exact .made fun window member last closed =>
        Nat.lt_of_lt_of_le (bounded window member last closed) le
  | cons later _ ih => exact .cons (later.mono le) ih

theorem Grown.trans {bound : Nat} {before middle after : List Window}
    (first : Grown bound before middle) (second : Grown bound middle after) :
    Grown bound before after := by
  induction first generalizing after with
  | @made windows bounded =>
      refine .made ?_
      intro window member last closed
      induction second with
      | made bounded' => exact bounded' window member last closed
      | @cons former latter rest rest' later _ ih =>
          rcases List.mem_cons.mp member with rfl | member
          · exact later.fixedEnd_lt (bounded former List.mem_cons_self) last closed
          · exact ih (fun window member => bounded window (List.mem_cons_of_mem _ member)) member
  | cons later _ ih =>
      rcases second with _ | ⟨later', grown⟩
      exact .cons (later.trans later') (ih grown)

theorem Grown.refl (bound : Nat) (windows : List Window) : Grown bound windows windows := by
  induction windows with
  | nil => exact .made (by simp)
  | cons window rest ih => exact .cons (Window.later_of_fixedEnd_eq rfl rfl) ih

variable {capacity : Capacity} {base : Nat} {record : Record} {sync : Bool}

/-! ### Offering a record -/

/-- What an offer of a record leaves: linked windows that hold the record besides
what they held, if its number was not taken, and what they held otherwise. -/
structure Offered (capacity : Capacity) (base : Nat) (record : Record)
    (before : List Window) (accepted : Bool) (after : List Window) : Prop where
  linked : Linked capacity base after
  grown : Grown record.lsn before after
  holds : ∀ other, Holds after other ↔ accepted ∧ other = record ∨ Holds before other
  accepted_iff : accepted ↔ ¬ HoldsLsn before record.lsn

theorem not_holds_fresh (other : Record) : ¬ (capacity.fresh base).Holds other := by
  simp [Window.Holds, Capacity.fresh, Window.fresh]

theorem sound_fresh (capacity : Capacity) (base : Nat) :
    (capacity.fresh base).Sound capacity where
  length_slots := by simp [Capacity.fresh, Window.fresh]
  fixedEnd_bounds last closed := by cases closed
  lsn_of_filled offset other flag found := by
    exact absurd ⟨flag, List.mem_of_getElem? found⟩ (not_holds_fresh other)
  lsn_le_fixedEnd other last holds := absurd holds (not_holds_fresh other)

/-- The record goes past the first window, whether through one of its slots or
not, and is offered to the others. -/
theorem Offered.past_first {window window' : Window} {rest rest' : List Window}
    {accepted : Bool} (linked : Linked capacity base (window :: rest))
    (sound : window'.Sound capacity) (later : window.Later record.lsn window')
    (closed : window'.fixedEnd ≠ none)
    (holds : ∀ other, window'.Holds other ↔ window.Holds other)
    (absent : ∀ other, window.Holds other → other.lsn ≠ record.lsn)
    (slots : ∀ offset slot, window'.slots[offset]? = some slot → slot ≠ .empty →
      window.slots[offset]? = some slot ∨ window.base + offset = record.lsn)
    (offered : Offered capacity window'.successorBase record rest accepted rest') :
    Offered capacity base record (window :: rest) accepted (window' :: rest') := by
  rcases linked with ⟨rfl, _, _, accounted, _⟩
  have holds_all : ∀ other, Holds (window' :: rest') other ↔
      accepted ∧ other = record ∨ Holds (window :: rest) other := by
    intro other
    rw [holds_cons, holds_cons, holds, offered.holds]
    exact or_left_comm
  have taken_iff : HoldsLsn (window :: rest) record.lsn ↔ HoldsLsn rest record.lsn := by
    constructor
    · rintro ⟨other, held, lsn_eq⟩
      rcases holds_cons.mp held with here | beyond
      · exact absurd lsn_eq (absent other here)
      · exact ⟨other, beyond, lsn_eq⟩
    · rintro ⟨other, held, lsn_eq⟩
      exact ⟨other, holds_cons.mpr (.inr held), lsn_eq⟩
  have number_held : HoldsLsn (window' :: rest') record.lsn := by
    cases accepted with
    | true => exact ⟨record, (holds_all record).mpr (.inl ⟨rfl, rfl⟩), rfl⟩
    | false =>
        have taken : HoldsLsn rest record.lsn :=
          Classical.not_not.mp fun free => absurd (offered.accepted_iff.mpr free) (by simp)
        rcases taken_iff.mpr taken with ⟨other, held, lsn_eq⟩
        exact ⟨other, (holds_all other).mpr (.inr held), lsn_eq⟩
  have accounted' : Accounted window' rest' := by
    intro offset slot found occupied
    rw [later.1]
    rcases slots offset slot found occupied with before | lsn_eq
    · rcases accounted offset slot before occupied with ⟨other, held, lsn_eq⟩
      exact ⟨other, (holds_all other).mpr (.inr held), lsn_eq⟩
    · rw [lsn_eq]
      exact number_held
  exact {
    linked := ⟨later.1, sound, fun opened => absurd opened closed, accounted', offered.linked⟩
    grown := .cons later offered.grown
    holds := holds_all
    accepted_iff := by rw [offered.accepted_iff, taken_iff] }

/-- The first window keeps the record. -/
theorem Offered.kept_first {window : Window} {rest : List Window} {offset : Nat}
    (linked : Linked capacity base (window :: rest))
    (lsn_eq : record.lsn = window.base + offset)
    (found : window.slots[offset]? = some .empty)
    (inside : ∀ last, window.fixedEnd = some last → record.lsn ≤ last) :
    Offered capacity base record (window :: rest) true
      ((window.noteSync record.lsn sync).occupy offset (.filled record sync) :: rest) := by
  rcases linked with ⟨rfl, sound, closed, accounted, rest_linked⟩
  have holds_all : ∀ other,
      Holds ((window.noteSync record.lsn sync).occupy offset (.filled record sync) :: rest) other ↔
        true ∧ other = record ∨ Holds (window :: rest) other := by
    intro other
    rw [holds_cons, holds_cons, Window.holds_occupy found]
    simp only [Slot.record?, Option.some.injEq, true_and, or_assoc, eq_comm]
  have sound' : ((window.noteSync record.lsn sync).occupy offset
      (.filled record sync)).Sound capacity := by
    apply sound.occupy found
    rintro other ⟨⟩
    exact ⟨lsn_eq, inside⟩
  have accounted' : Accounted
      ((window.noteSync record.lsn sync).occupy offset (.filled record sync)) rest := by
    intro place slot at_place occupied
    simp only [Window.occupy_slots, Window.noteSync_slots, List.getElem?_set] at at_place
    simp only [Window.occupy_base, Window.noteSync_base]
    split at at_place
    · rename_i same
      subst same
      exact ⟨record, (holds_all record).mpr (.inl ⟨rfl, rfl⟩), lsn_eq⟩
    · rcases accounted place slot at_place occupied with ⟨other, held, other_lsn⟩
      exact ⟨other, (holds_all other).mpr (.inr held), other_lsn⟩
  constructor
  · exact ⟨by simp, sound', by simpa using closed, accounted',
      by simpa [Window.successorBase, Window.naturalEnd, Window.capacity] using rest_linked⟩
  · exact .cons (Window.later_of_fixedEnd_eq (by simp) (by simp)) (.refl _ _)
  · simpa using holds_all
  · simp only [true_iff]
    rintro ⟨other, held, other_lsn⟩
    rcases holds_cons.mp held with here | beyond
    · rcases sound.slot_of_holds here with ⟨_, flag, at_place⟩
      rw [other_lsn, lsn_eq, Nat.add_sub_cancel_left, found] at at_place
      cases at_place
    · have base_le := rest_linked.base_le_of_holds beyond
      cases fixed : window.fixedEnd with
      | none =>
          rw [closed fixed] at beyond
          exact holds_nil other beyond
      | some last =>
          have := inside last fixed
          simp only [Window.successorBase, fixed, Option.getD_some] at base_le
          omega

/-- A new window reaches up to the base of the next one. -/
theorem naturalEnd_fresh (capacity : Capacity) (base : Nat) :
    (capacity.fresh base).naturalEnd + 1 = base + capacity.slots :=
  Window.naturalEnd_add_one (sound_fresh capacity base).length_slots

theorem eq_empty_of_fresh {offset : Nat} {slot : Slot}
    (found : (capacity.fresh base).slots[offset]? = some slot) : slot = .empty :=
  List.eq_of_mem_replicate (List.mem_of_getElem? found)

theorem linked_fresh : Linked capacity base [capacity.fresh base] :=
  ⟨rfl, sound_fresh capacity base, fun _ => rfl,
    fun _ _ found occupied => absurd (eq_empty_of_fresh found) occupied, trivial⟩

theorem not_holds_singleton_fresh (other : Record) : ¬ Holds [capacity.fresh base] other := by
  simp [not_holds_fresh]

/-- A window that holds nothing and has no end might as well be new. -/
theorem Grown.of_fresh {bound : Nat} {windows : List Window}
    (grown : Grown bound [capacity.fresh base] windows) : Grown bound [] windows := by
  rcases grown with _ | @⟨_, first, _, rest, later, ⟨bounded⟩⟩
  refine .made ?_
  intro window member last closed
  rcases List.mem_cons.mp member with rfl | member
  · rcases later.2 with same | ⟨_, fixed, fixed_eq, below⟩
    · rw [same] at closed
      cases closed
    · rw [fixed_eq, Option.some.injEq] at closed
      omega
  · exact bounded window member last closed

/-- A window that lies before a record may be left behind. -/
theorem Offered.past_closed {window : Window} {rest rest' : List Window} {accepted : Bool}
    (linked : Linked capacity base (window :: rest))
    (le_lsn : window.base + window.slots.length ≤ record.lsn)
    (offered : Offered capacity window.successorBase record rest accepted rest') :
    Offered capacity base record (window :: rest) accepted (window.closeNaturally :: rest') := by
  have sound := linked.first_sound
  have natural := Window.naturalEnd_add_one sound.length_slots
  have length := sound.length_slots
  refine .past_first linked sound.closeNaturally (Window.later_closeNaturally (by omega))
    (by simp [Window.closeNaturally]) (fun _ => Iff.rfl) (fun other held => ?_)
    (fun offset slot found _ => .inl found) offered
  have := sound.lsn_lt_of_holds held
  omega

/-- A record may spend a slot of a window that ends before it. -/
theorem Offered.past_spent {window : Window} {rest rest' : List Window} {accepted : Bool}
    {offset last : Nat} (linked : Linked capacity base (window :: rest))
    (lsn_eq : record.lsn = window.base + offset)
    (found : window.slots[offset]? = some .empty) (fixed : window.fixedEnd = some last)
    (offered : Offered capacity (last + 1) record rest accepted rest') :
    Offered capacity base record (window :: rest) accepted
      ((window.noteSync record.lsn sync).occupy offset .moved :: rest') := by
  have sound := linked.first_sound
  refine .past_first linked (sound.occupy found (by simp [Slot.record?]))
    (Window.later_of_fixedEnd_eq (by simp) (by simp)) (by simp [fixed])
    (fun other => ?_) (fun other held other_lsn => ?_) (fun place slot at_place _ => ?_) ?_
  · rw [Window.holds_occupy found]
    simp [Slot.record?]
  · rcases sound.slot_of_holds held with ⟨_, flag, at_place⟩
    rw [other_lsn, lsn_eq, Nat.add_sub_cancel_left, found] at at_place
    cases at_place
  · simp only [Window.occupy_slots, Window.noteSync_slots, List.getElem?_set] at at_place
    split at at_place
    · rename_i same
      exact .inr (same ▸ lsn_eq.symm)
    · exact .inl at_place
  · simpa [Window.successorBase, fixed] using offered

/-- The first window turns the record away, because its number is taken. -/
theorem Offered.taken_first {window : Window} {rest : List Window} {offset : Nat} {slot : Slot}
    (linked : Linked capacity base (window :: rest))
    (lsn_eq : record.lsn = window.base + offset)
    (found : window.slots[offset]? = some slot) (occupied : slot ≠ .empty) :
    Offered capacity base record (window :: rest) false
      (window.noteSync record.lsn sync :: rest) := by
  have same_slots := window.noteSync_slots record.lsn sync
  have same_base := window.noteSync_base record.lsn sync
  have same_end := window.noteSync_fixedEnd record.lsn sync
  generalize window.noteSync record.lsn sync = after at *
  have holds : ∀ other, after.Holds other ↔ window.Holds other := by
    simp [Window.Holds, same_slots]
  rcases linked with ⟨rfl, sound, closed, accounted, rest_linked⟩
  have sound' : after.Sound capacity := by
    constructor
    · simpa [same_slots] using sound.length_slots
    · simpa [same_end, same_base, same_slots, Window.naturalEnd, Window.capacity] using
        sound.fixedEnd_bounds
    · simpa [same_slots, same_base] using sound.lsn_of_filled
    · simpa [holds, same_end] using sound.lsn_le_fixedEnd
  have accounted' : Accounted after rest := by
    simpa [Accounted, HoldsLsn, same_slots, same_base, holds] using accounted
  constructor
  · exact ⟨same_base, sound', by simpa [same_end] using closed, accounted',
      by simpa [Window.successorBase, Window.naturalEnd, Window.capacity, same_end, same_base,
        same_slots] using rest_linked⟩
  · exact .cons (Window.later_of_fixedEnd_eq same_base same_end) (.refl _ _)
  · simp [holds]
  · simp only [Bool.false_eq_true, false_iff, Classical.not_not]
    rw [lsn_eq]
    exact accounted offset slot found occupied

/-- An offer to one new window is an offer to none, since it holds nothing yet. -/
theorem Offered.of_fresh {windows : List Window}
    (offered : Offered capacity base record [capacity.fresh base] true windows) :
    Offered capacity base record [] true windows := by
  refine ⟨offered.linked, offered.grown.of_fresh, fun other => ?_, by simp [HoldsLsn]⟩
  rw [offered.holds, or_iff_left (not_holds_singleton_fresh other),
    or_iff_left (holds_nil other)]

/-- Windows that are made for a record hold it and nothing else. -/
theorem offered_make (base_le : base ≤ record.lsn) :
    Offered capacity base record [] true (make capacity record sync base).2 := by
  have length : ∀ base, (capacity.fresh base).slots.length = capacity.slots :=
    fun base => (sound_fresh capacity base).length_slots
  fun_induction make capacity record sync base with
  | case1 base inside =>
      have placed := (capacity.fresh base).placed record sync
      generalize (capacity.fresh base).place record sync = outcome at placed
      cases placed with
      | below lsn_lt => exact absurd lsn_lt (Nat.not_lt.mpr base_le)
      | past le_lsn =>
          rw [length] at le_lsn
          exact absurd inside (Nat.not_lt.mpr le_lsn)
      | taken offset slot lsn_eq found occupied =>
          exact absurd (eq_empty_of_fresh found) occupied
      | beyond offset last lsn_eq found fixed last_lt => cases fixed
      | kept offset lsn_eq found fits =>
          exact (Offered.kept_first linked_fresh lsn_eq found fits).of_fresh
  | case2 base outside passed windows made ih =>
      have le_lsn : (capacity.fresh base).base + (capacity.fresh base).slots.length ≤
          record.lsn := by
        rw [length]
        exact Nat.not_lt.mp outside
      have next : (capacity.fresh base).successorBase = base + capacity.slots :=
        naturalEnd_fresh capacity base
      have offered := ih (Nat.not_lt.mp outside)
      rw [made] at offered
      exact (Offered.past_closed linked_fresh le_lsn (next ▸ offered)).of_fresh

theorem isOk_map {ε α β : Type} (f : α → β) (result : Except ε α) :
    (result.map f).isOk = result.isOk := by
  cases result <;> rfl

/-- Offering a record to linked windows. -/
theorem offered_offer {windows : List Window} (linked : Linked capacity base windows)
    (base_le : base ≤ record.lsn) (sync : Bool) :
    Offered capacity base record windows (offer capacity record sync base windows).1.isOk
      (offer capacity record sync base windows).2 := by
  induction windows generalizing base with
  | nil => exact offered_make base_le
  | cons window rest ih =>
      have placed := window.placed record sync
      have sound := linked.first_sound
      have rest_linked := linked.rest
      unfold offer
      generalize window.place record sync = outcome at placed
      cases placed with
      | below lsn_lt =>
          rw [linked.first_base] at lsn_lt
          exact absurd lsn_lt (Nat.not_lt.mpr base_le)
      | past le_lsn =>
          have next_le := sound.successorBase_le
          rw [← sound.length_slots] at next_le
          have offered := ih rest_linked (Nat.le_trans next_le le_lsn)
          dsimp only
          rw [isOk_map]
          exact .past_closed linked le_lsn offered
      | taken offset slot lsn_eq found occupied => exact .taken_first linked lsn_eq found occupied
      | beyond offset last lsn_eq found fixed last_lt =>
          simp only [Window.successorBase, fixed, Option.getD_some] at rest_linked
          have offered := ih rest_linked last_lt
          dsimp only
          rw [isOk_map]
          exact .past_spent linked lsn_eq found fixed offered
      | kept offset lsn_eq found inside => exact .kept_first linked lsn_eq found inside

/-- A record whose number is not taken is accepted. -/
theorem offer_of_free {windows : List Window} (linked : Linked capacity base windows)
    (base_le : base ≤ record.lsn) (free : ¬ HoldsLsn windows record.lsn) (sync : Bool) :
    ∃ passed after, offer capacity record sync base windows = (.ok passed, after) ∧
      Offered capacity base record windows true after := by
  have offered := offered_offer linked base_le sync
  have accepted := offered.accepted_iff.mpr free
  rw [accepted] at offered
  generalize offer capacity record sync base windows = outcome at offered accepted
  rcases outcome with ⟨error | passed, after⟩
  · cases accepted
  · exact ⟨passed, after, rfl, offered⟩

/-! ### Working on windows -/

/-- What any call leaves: linked windows that hold what they held and the record
that the call accepted, if any, whose number was not taken. -/
structure Carried (capacity : Capacity) (base bound : Nat) (before : List Window)
    (gained : Option Record) (after : List Window) : Prop where
  linked : Linked capacity base after
  grown : Grown bound before after
  holds : ∀ other, Holds after other ↔ gained = some other ∨ Holds before other
  fresh : ∀ record, gained = some record → ¬ HoldsLsn before record.lsn

theorem Carried.refl {windows : List Window} (linked : Linked capacity base windows)
    (bound : Nat) : Carried capacity base bound windows none windows :=
  ⟨linked, .refl _ _, by simp, by simp⟩

theorem Offered.carried {before after : List Window} {accepted : Bool}
    (offered : Offered capacity base record before accepted after) :
    Carried capacity base record.lsn before (bif accepted then some record else none) after := by
  refine ⟨offered.linked, offered.grown, fun other => ?_, fun other gained => ?_⟩
  · rw [offered.holds]
    cases accepted <;> simp [eq_comm]
  · cases accepted with
    | true =>
        cases gained
        exact offered.accepted_iff.mp rfl
    | false => cases gained

/-- Offering a record to a window and those after it. -/
theorem carried_offer {window : Window} {rest : List Window}
    (linked : Linked capacity base (window :: rest)) :
    Carried capacity base record.lsn (window :: rest)
      (bif (offer capacity record sync base (window :: rest)).1.isOk then some record else none)
      (offer capacity record sync base (window :: rest)).2 := by
  by_cases base_le : base ≤ record.lsn
  · exact (offered_offer linked base_le sync).carried
  · have below : record.lsn < window.base := by
      rw [linked.first_base]
      exact Nat.not_le.mp base_le
    have refused : offer capacity record sync base (window :: rest) =
        (.error (.belowBase record.lsn window.base), window :: rest) := by
      rw [offer, Window.place, if_pos below]
    rw [refused]
    exact .refl linked _

/-- Offering a record to one window only. -/
theorem carried_offerFirst {window : Window} {rest : List Window}
    (linked : Linked capacity base (window :: rest)) :
    Carried capacity base record.lsn (window :: rest)
      (bif (offerFirst capacity record sync window rest).1.toOption.getD false then some record
        else none)
      (offerFirst capacity record sync window rest).2 := by
  have offered : Carried capacity base record.lsn (window :: rest)
      (bif (offer capacity record sync base (window :: rest)).1.isOk then some record else none)
      (offer capacity record sync base (window :: rest)).2 := carried_offer linked
  have placed := window.placed record sync
  unfold offer at offered
  unfold offerFirst
  generalize window.place record sync = outcome at placed offered ⊢
  cases placed with
  | below | taken | kept => exact offered
  | past => exact .refl linked _
  | beyond offset last =>
      dsimp only at offered ⊢
      generalize offer capacity record sync (last + 1) rest = result at offered ⊢
      rcases result with ⟨_ | _, rest'⟩
      · exact offered
      · exact offered

end Windows

end Logbook

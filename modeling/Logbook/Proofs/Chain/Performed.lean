import Logbook.Proofs.Chain.Attended

/-!
# Where errands lead

Worked off turn by turn, an errand comes to an end, and leaves the windows that the walk along
them leaves in one go. Where windows are left this goes by induction on them, behind the last
one by induction on the numbers up to the one that the errand is after: each window that is
made on the way is as long as a window can be.
-/

namespace Logbook.Chain

open Windows

variable {α β : Type} {first last lsn : Nat} {chain : Chain} {front back : List Window}
  {window : Window} {record : Record} {sync : Bool} {passed : List Nat}

namespace Course

/-- Some turns lead from one course to another. -/
def Reaches (course after : Course) : Prop := ∃ turns, course.after turns = after

theorem Reaches.refl (course : Course) : course.Reaches course := ⟨0, rfl⟩

theorem Reaches.trans {course middle after : Course} (early : course.Reaches middle)
    (late : middle.Reaches after) : course.Reaches after := by
  obtain ⟨turns, rfl⟩ := early
  obtain ⟨more, rfl⟩ := late
  exact ⟨turns + more, after_add course turns more⟩

theorem Reaches.of_turn {course after : Course} (reaches : course.turn.Reaches after) :
    course.Reaches after := by
  obtain ⟨turns, rfl⟩ := reaches
  exact ⟨turns + 1, rfl⟩

/-- The course once an errand has ended with a result. -/
def resolved (result : Except WindowFault α) (chain : Chain) (later : List Errand) : Course :=
  match result with
  | .ok _ => ⟨chain, later, none⟩
  | .error fault => ⟨chain, [], some fault⟩

theorem resolved_map (f : α → β) (result : Except WindowFault α) :
    resolved (result.map f) = resolved result := by
  cases result <;> rfl

end Course

/-- Working off some errands ends with a result and leaves the chain with some windows,
whatever is to be done later. -/
def Performs (chain : Chain) (errands : List Errand) (result : Except WindowFault α)
    (windows : List Window) : Prop :=
  ∀ later, ∃ done : Chain, done.capacity = chain.capacity ∧ done.windows = windows ∧
    (⟨chain, errands ++ later, none⟩ : Course).Reaches (.resolved result done later)

namespace Performs

variable {errand : Errand} {errands : List Errand} {result : Except WindowFault α}
  {windows : List Window}

theorem nil (value : α) (same : chain.windows = windows) :
    chain.Performs [] (.ok value) windows :=
  fun _ => ⟨chain, rfl, same, .refl _⟩

theorem map (performs : chain.Performs errands result windows) (f : α → β) :
    chain.Performs errands (result.map f) windows := by
  intro later
  rw [Course.resolved_map]
  exact performs later

/-- An errand of which something is left is performed by what is left. -/
theorem of_attend {left : List Errand} {after : Chain}
    (split : chain.windows = front ++ window :: back) (here : errand.place = front.length)
    (attended : chain.attend window errand = (.ok left, after))
    (capacity : after.capacity = chain.capacity) (performs : after.Performs left result windows) :
    chain.Performs [errand] result windows := by
  intro later
  obtain ⟨done, same, done_windows, reaches⟩ := performs later
  refine ⟨done, same.trans capacity, done_windows, .of_turn ?_⟩
  rw [List.singleton_append, Course.turn]
  dsimp only
  rw [here, window?_length split]
  dsimp only
  rw [attended]
  exact reaches

theorem of_fault {after : Chain} {fault : WindowFault}
    (split : chain.windows = front ++ window :: back) (here : errand.place = front.length)
    (attended : chain.attend window errand = (.error fault, after))
    (capacity : after.capacity = chain.capacity) (same : after.windows = windows) :
    chain.Performs [errand] (.error fault : Except WindowFault α) windows := by
  intro later
  refine ⟨after, capacity, same, .of_turn ?_⟩
  rw [List.singleton_append, Course.turn]
  dsimp only
  rw [here, window?_length split]
  dsimp only
  rw [attended]
  exact .refl _

/-- Errands are performed one after the other. -/
theorem cons {value : β} {middle : List Window}
    (performs : chain.Performs [errand] (.ok value : Except WindowFault β) middle)
    (others : ∀ done : Chain, done.capacity = chain.capacity → done.windows = middle →
      done.Performs errands result windows) :
    chain.Performs (errand :: errands) result windows := by
  intro later
  obtain ⟨done, capacity, done_windows, reaches⟩ := performs (errands ++ later)
  obtain ⟨done', capacity', done_windows', reaches'⟩ := others done capacity done_windows later
  exact ⟨done', capacity'.trans capacity, done_windows', reaches.trans reaches'⟩

/-- A fault ends them all. -/
theorem cons_fault {fault : WindowFault}
    (performs : chain.Performs [errand] (.error fault : Except WindowFault α) windows) :
    chain.Performs (errand :: errands) (.error fault : Except WindowFault α) windows :=
  fun later => performs (errands ++ later)

/-- What some turns keep, performing an errand keeps. -/
theorem spaced (performs : chain.Performs [errand] result windows)
    (before : Spaced chain.capacity first chain.windows) (apt : errand.Apt chain) :
    Spaced chain.capacity first windows := by
  have sound : (⟨chain, [errand], none⟩ : Course).Sound first := by
    refine ⟨before, fun other member => ?_, fun _ => rfl⟩
    rw [List.mem_singleton.mp member]
    exact apt
  obtain ⟨done, _, done_windows, turns, reached⟩ := performs []
  have spread := (sound.after turns).2
  rw [List.append_nil] at reached
  rw [reached] at spread
  rw [← done_windows]
  cases result <;> exact spread.spaced

end Performs

/-! ### A record on its way -/

theorem next_fst (chain : Chain) (place : Nat) : (chain.next place).1 = place + 1 := by
  unfold next
  split <;> rfl

theorem attend_carry_refused {window' : Window} {fault : WindowFault}
    (placed : window.place record sync = (.refused fault, window')) (place : Nat) :
    chain.attend window (.carry record sync place passed) =
      (.error fault, chain.put place window') := by
  simp only [attend, placed]

theorem attend_carry_kept {window' : Window}
    (placed : window.place record sync = (.kept, window')) (place : Nat) :
    chain.attend window (.carry record sync place passed) = (.ok [], chain.put place window') := by
  simp only [attend, placed]

theorem attend_carry_on {placement : Placement} {window' : Window}
    (placed : window.place record sync = (placement, window'))
    (on : placement = .past ∨ ∃ last, placement = .beyond last) (place : Nat) :
    chain.attend window (.carry record sync place passed) =
      (.ok [.carry record sync (place + 1) (place :: passed)],
        ((chain.put place window').next place).2) := by
  rcases on with rfl | ⟨last, rfl⟩
  · simp only [attend, placed, next_fst]
  · simp only [attend, placed, next_fst]

/-- A record that comes to a new last window. -/
theorem performs_carry_fresh {capacity : Capacity} {base : Nat} (value : α)
    (same : chain.capacity = capacity) (split : chain.windows = front ++ [capacity.fresh base])
    (base_le : base ≤ record.lsn) :
    chain.Performs [.carry record sync front.length passed] (.ok value)
      (front ++ (make capacity record sync base).2) := by
  -- A window that is made is as long as it can be, so the next one is nearer to the record.
  fun_induction make capacity record sync base generalizing chain front passed with
  | case1 base inside =>
      have kept : (capacity.fresh base).place record sync = _ :=
        place_fresh_of_inside base_le inside
      exact .of_attend split rfl (attend_carry_kept kept _) rfl (.nil value (windows_put split _))
  | case2 base outside made windows made_eq ih =>
      have past : (capacity.fresh base).place record sync = (.past, capacity.fresh base) :=
        place_fresh_of_outside outside
      have successor : (capacity.fresh base).successorBase = base + capacity.slots :=
        naturalEnd_fresh capacity base
      have next := next_of_last (windows_put split (capacity.fresh base))
      have same_put : (chain.put front.length (capacity.fresh base)).capacity = capacity := same
      rw [same_put, successor] at next
      refine .of_attend split rfl (attend_carry_on past (.inl rfl) _) (capacity_next _ _) ?_
      rw [next]
      have performs := @ih ((chain.put front.length (capacity.fresh base)).withWindows
          (front ++ [(capacity.fresh base).closeNaturally, capacity.fresh (base + capacity.slots)]))
        (front ++ [(capacity.fresh base).closeNaturally]) (front.length :: passed) same
        (by simp [withWindows]) (Nat.not_lt.mp outside)
      simpa [made_eq] using performs

/-- A record that comes to a window with these windows behind it goes where an offer to them
all takes it. -/
def CarriesOn (capacity : Capacity) (record : Record) (sync : Bool) (back : List Window) : Prop :=
  ∀ (chain : Chain) (front : List Window) (window : Window) (passed : List Nat),
    chain.capacity = capacity → chain.windows = front ++ window :: back →
    Spaced capacity window.base (window :: back) →
    chain.Performs [.carry record sync front.length passed]
      (offer capacity record sync window.base (window :: back)).1
      (front ++ (offer capacity record sync window.base (window :: back)).2)

/-- A record goes on from a window. -/
theorem performs_carry_next {capacity : Capacity}
    (later : ∀ second rest, back = second :: rest → CarriesOn capacity record sync rest)
    (same : chain.capacity = capacity) (split : chain.windows = front ++ window :: back)
    (spaced : Spaced capacity window.base (window :: back))
    (next_le : window.successorBase ≤ record.lsn) :
    (chain.next front.length).2.Performs [.carry record sync (front.length + 1) passed]
      (offer capacity record sync window.successorBase back).1
      (front ++ window.closeNaturally ::
        (offer capacity record sync window.successorBase back).2) := by
  cases back with
  | nil =>
      -- The successor is made, and only windows that are made come after it.
      rw [next_of_last split, same, offer]
      have performs := @performs_carry_fresh Nat (chain.withWindows
          (front ++ [window.closeNaturally, capacity.fresh window.successorBase]))
        (front ++ [window.closeNaturally]) record sync passed capacity window.successorBase
        (make capacity record sync window.successorBase).1 same (by simp [withWindows]) next_le
      simpa using performs
  | cons second rest =>
      have second_base := spaced.rest.first_base
      cases closed : window.fixedEnd with
      | none => cases spaced.last_of_opened closed
      | some last =>
          rw [next_of_inner split, Window.closeNaturally_of_fixedEnd closed, ← second_base]
          have performs := later second rest rfl chain (front ++ [window]) second passed same
            (by simp [split]) (second_base ▸ spaced.rest)
          simpa using performs

/-- One turn of a record at a window. -/
theorem carriesOn_of_later {capacity : Capacity}
    (later : ∀ second rest, back = second :: rest → CarriesOn capacity record sync rest) :
    CarriesOn capacity record sync back := by
  intro chain front window passed same split spaced
  have shaped := spaced.shaped
  have shaped' := shaped.place record sync
  have same_put : ∀ window', (chain.put front.length window').capacity = capacity := fun _ => same
  have placed := window.placed record sync
  unfold offer
  generalize outcome_eq : window.place record sync = outcome at placed shaped' ⊢
  cases placed with
  | below | taken =>
      exact .of_fault split rfl (attend_carry_refused outcome_eq _) rfl (windows_put split _)
  | kept =>
      exact .of_attend split rfl (attend_carry_kept outcome_eq _) rfl
        (.nil 0 (windows_put split _))
  | past le_lsn =>
      have next_le := shaped.successorBase_le
      rw [← shaped.length_slots] at next_le
      refine .of_attend split rfl (attend_carry_on outcome_eq (.inl rfl) _) (capacity_next _ _) ?_
      exact (performs_carry_next later (same_put _) (windows_put split window) spaced
        (Nat.le_trans next_le le_lsn)).map (· + 1)
  | beyond offset last lsn_eq found closed last_lt =>
      have closed' :
          ((window.noteSync record.lsn sync).occupy offset .moved).fixedEnd = some last := by
        simpa using closed
      have successor :
          ((window.noteSync record.lsn sync).occupy offset .moved).successorBase = last + 1 := by
        rw [Window.successorBase, closed', Option.getD_some]
      have spaced' := (spaced.first_changed shaped' (by simp) (by simp)).from_first
      have performs : (Chain.next _ _).2.Performs [.carry record sync (front.length + 1)
          (front.length :: passed)] _ _ :=
        (performs_carry_next later (same_put _) (windows_put split _) spaced'
          (successor.symm ▸ last_lt)).map fun _ => 0
      rw [Window.closeNaturally_of_fixedEnd closed', successor] at performs
      exact .of_attend split rfl (attend_carry_on outcome_eq (.inr ⟨last, rfl⟩) _)
        (capacity_next _ _) performs

theorem carriesOn (capacity : Capacity) (record : Record) (sync : Bool) (back : List Window) :
    CarriesOn capacity record sync back := by
  induction back with
  | nil => exact carriesOn_of_later nofun
  | cons second rest ih =>
      refine carriesOn_of_later ?_
      rintro _ _ ⟨⟩
      exact ih

/-! ### Windows that close -/

theorem attend_vacate_of_filled {offset : Nat}
    (found : window.slots[offset]? = some (.filled record sync)) (place : Nat) :
    chain.attend window (.vacate place offset) = (.ok [.carry record sync (place + 1) []],
      ((chain.put place (window.vacate offset)).next place).2) := by
  simp only [attend, found, next_fst]

theorem attend_vacate_of_unfilled {offset : Nat} {slot : Slot}
    (found : window.slots[offset]? = some slot) (unfilled : slot.isFilled = false) (place : Nat) :
    chain.attend window (.vacate place offset) = (.ok [], chain) := by
  cases slot with
  | filled record sync => cases unfilled
  | empty | moved => simp only [attend, found]

/-- A slot whose record goes on. -/
theorem performs_vacate {capacity : Capacity} {offset : Nat} (same : chain.capacity = capacity)
    (split : chain.windows = front ++ window :: back)
    (spaced : Spaced capacity window.base (window :: back)) (closed : window.fixedEnd = some last)
    (found : window.slots[offset]? = some (.filled record sync)) (last_lt : last < record.lsn) :
    chain.Performs [.vacate front.length offset] (offer capacity record sync (last + 1) back).1
      (front ++ window.vacate offset :: (offer capacity record sync (last + 1) back).2) := by
  have closed' : (window.vacate offset).fixedEnd = some last := closed
  have successor : (window.vacate offset).successorBase = last + 1 := by
    rw [Window.successorBase, closed', Option.getD_some]
  have same_put : (chain.put front.length (window.vacate offset)).capacity = capacity := same
  have performs : (Chain.next _ _).2.Performs [.carry record sync (front.length + 1) []] _ _ :=
    performs_carry_next (fun _ rest _ => carriesOn capacity record sync rest) same_put
      (windows_put split _) (spaced.first_changed (spaced.shaped.vacate offset) rfl rfl)
      (successor.symm ▸ last_lt)
  rw [Window.closeNaturally_of_fixedEnd closed', successor] at performs
  exact .of_attend split rfl (attend_vacate_of_filled found _) (capacity_next _ _) performs

/-- The slots of a closed window from one on. -/
theorem performs_vacates {capacity : Capacity} {done todo : List Slot}
    (same : chain.capacity = capacity) (split : chain.windows = front ++ window :: back)
    (spaced : Spaced capacity first chain.windows) (closed : window.fixedEnd = some last)
    (slots : window.slots = done ++ todo)
    (past : ∀ record sync, .filled record sync ∈ todo → last < record.lsn) :
    chain.Performs ((List.range' done.length todo.length).map (.vacate front.length))
      (relocate capacity (last + 1) todo back).1
      (front ++ { window with slots := done ++ (relocate capacity (last + 1) todo back).2.1 } ::
        (relocate capacity (last + 1) todo back).2.2) := by
  -- What is behind the window changes with each record that goes on, a fault included.
  induction todo generalizing chain window done back with
  | nil =>
      refine .nil () (split.trans ?_)
      rw [relocate, ← slots]
  | cons slot todo ih =>
      have found : window.slots[done.length]? = some slot := by simp [slots]
      have next_slots : window.slots = done ++ [slot] ++ todo := by simp [slots]
      have inside : front.length < chain.windows.length := by simp [split]
      rw [List.length_cons, List.range'_succ, List.map_cons]
      cases slot with
      | empty | moved =>
          refine .cons (.of_attend split rfl (attend_vacate_of_unfilled found rfl _) rfl
            (.nil () rfl)) fun after same_after windows => ?_
          have performs := ih (same_after.trans same) (windows.trans split) (windows ▸ spaced)
            closed next_slots fun record sync member =>
              past record sync (List.mem_cons_of_mem _ member)
          simpa [relocate] using performs
      | filled record sync =>
          have alone := performs_vacate same split (split ▸ spaced).of_append closed found
            (past record sync List.mem_cons_self)
          have spaced_after := alone.spaced (same.symm ▸ spaced) (Errand.apt_of_new inside rfl)
          have vacated : window.vacate done.length =
              { window with slots := done ++ .moved :: todo } := by
            simp [Window.vacate, slots]
          rw [relocate]
          generalize offer capacity record sync (last + 1) back = outcome at alone spaced_after ⊢
          rw [vacated] at alone
          rw [same, vacated] at spaced_after
          rcases outcome with ⟨fault | passed, back'⟩
          · exact .cons_fault alone
          · refine .cons alone fun after same_after windows => ?_
            have next_slots : done ++ .moved :: todo = done ++ [.moved] ++ todo := by simp
            have performs := ih (same_after.trans same) windows (windows ▸ spaced_after) closed
              next_slots fun record sync member => past record sync (List.mem_cons_of_mem _ member)
            simpa using performs

/-- The slots up to an end that the window can have, and those past it. -/
theorem kept_and_beyond {capacity : Capacity} (shaped : window.Shaped capacity)
    (inside : last ≤ window.naturalEnd) :
    window.slots = window.keptSlots last ++ window.slots.drop (window.keptSlots last).length ∧
      window.beyond last = List.range' (window.keptSlots last).length
        (window.slots.drop (window.keptSlots last).length).length := by
  have natural := Window.naturalEnd_add_one shaped.length_slots
  have length := shaped.length_slots
  have kept : (window.keptSlots last).length = last + 1 - window.base := by
    rw [Window.keptSlots, List.length_take]
    omega
  rw [kept]
  refine ⟨(List.take_append_drop _ window.slots).symm, ?_⟩
  rw [Window.beyond, List.length_drop]
  rfl

theorem attend_close_refused (outside : last < window.base - 1 ∨ window.naturalEnd < last)
    (place : Nat) : chain.attend window (.close place last) =
      (.error (.endOutOfRange window.base window.naturalEnd last), chain) := by
  simp only [attend, if_pos outside]

theorem attend_close_closed {fixed : Nat}
    (within : ¬ (last < window.base - 1 ∨ window.naturalEnd < last))
    (closed : window.fixedEnd = some fixed) (place : Nat) :
    chain.attend window (.close place last) = (.ok [], chain) := by
  simp only [attend, if_neg within, closed]

theorem attend_close_opened (within : ¬ (last < window.base - 1 ∨ window.naturalEnd < last))
    (opened : window.fixedEnd = none) (place : Nat) :
    chain.attend window (.close place last) =
      (.ok ((window.beyond last).map (.vacate place)),
        chain.put place { window with fixedEnd := some last }) := by
  simp only [attend, if_neg within, opened]

/-- A window that is to be closed. -/
theorem performs_close {capacity : Capacity} (same : chain.capacity = capacity)
    (split : chain.windows = front ++ window :: back)
    (spaced : Spaced capacity first chain.windows) (last : Nat) :
    chain.Performs [.close front.length last] (closeFirst capacity window back last).1
      (front ++ (closeFirst capacity window back last).2) := by
  unfold closeFirst
  split
  · rename_i outside
    exact .of_fault split rfl (attend_close_refused outside _) rfl split
  · rename_i within
    split
    · rename_i closed
      exact .of_attend split rfl (attend_close_closed within closed _) rfl (.nil _ split)
    · rename_i opened
      have here := (split ▸ spaced).of_append
      obtain rfl := here.last_of_opened opened
      have put := windows_put split { window with fixedEnd := some last }
      have closed : Spaced capacity window.base [{ window with fixedEnd := some last }] :=
        here.last_closed (by omega) (by omega)
      have spaced_put := (split ▸ spaced).append closed
      have same_put : (chain.put front.length { window with fixedEnd := some last }).capacity =
          capacity := same
      obtain ⟨slots, beyond⟩ := kept_and_beyond here.shaped (by omega : last ≤ window.naturalEnd)
      refine .of_attend split rfl (attend_close_opened within opened _) rfl ?_
      rw [beyond]
      exact .map (performs_vacates same_put put (put ▸ spaced_put) rfl slots
        fun record sync member => (lsn_of_mem_beyond here.shaped (by omega) member).1) fun _ => true

/-! ### A sweep -/

theorem attend_sweep_before (before : lsn < window.base) (place : Nat) :
    chain.attend window (.sweep lsn place passed) = (.ok [], chain) := by
  simp only [attend, if_pos before]

theorem attend_sweep_opened (before : ¬ lsn < window.base)
    (opened : lsn ≤ window.naturalEnd ∧ window.fixedEnd = none) (place : Nat) :
    chain.attend window (.sweep lsn place passed) = (.ok [.close place lsn], chain) := by
  simp only [attend, if_neg before, if_pos opened]

theorem attend_sweep_closed (before : ¬ lsn < window.base)
    (opened : ¬ (lsn ≤ window.naturalEnd ∧ window.fixedEnd = none))
    (closed : lsn ≤ window.naturalEnd ∧ lsn ≤ window.fixedEnd.getD 0) (place : Nat) :
    chain.attend window (.sweep lsn place passed) = (.ok [], chain) := by
  simp only [attend, if_neg before, if_neg opened, if_pos closed]

theorem attend_sweep_past (before : ¬ lsn < window.base)
    (opened : ¬ (lsn ≤ window.naturalEnd ∧ window.fixedEnd = none))
    (closed : ¬ (lsn ≤ window.naturalEnd ∧ lsn ≤ window.fixedEnd.getD 0)) (place : Nat) :
    chain.attend window (.sweep lsn place passed) =
      (.ok [.sweep lsn (place + 1) (place :: passed)], (chain.next place).2) := by
  simp only [attend, if_neg before, if_neg opened, if_neg closed, next_fst]

/-- Empty slots have nothing to send on. -/
theorem relocate_of_empty {slots : List Slot} (capacity : Capacity) (base : Nat)
    (empty : ∀ slot ∈ slots, slot = .empty) (windows : List Window) :
    relocate capacity base slots windows = (.ok (), slots, windows) := by
  induction slots with
  | nil => rfl
  | cons slot slots ih =>
      obtain ⟨rfl, later⟩ := List.forall_mem_cons.mp empty
      simp only [relocate, ih later]

/-- A new window that is closed has no record to send on. -/
theorem closeFirst_fresh {capacity : Capacity} {base : Nat} (base_le : base ≤ lsn)
    (inside : lsn < base + capacity.slots) :
    closeFirst capacity (capacity.fresh base) [] lsn =
      (.ok true, [{ capacity.fresh base with fixedEnd := some lsn }]) := by
  have natural := naturalEnd_fresh capacity base
  have base_eq : (capacity.fresh base).base = base := rfl
  have empty : ∀ slot ∈ (capacity.fresh base).slots.drop
      ((capacity.fresh base).keptSlots lsn).length, slot = Slot.empty :=
    fun slot member => List.eq_of_mem_replicate (List.mem_of_mem_drop member)
  obtain ⟨slots, _⟩ := kept_and_beyond (shaped_fresh capacity base)
    (by omega : lsn ≤ (capacity.fresh base).naturalEnd)
  have opened : (capacity.fresh base).fixedEnd = none := rfl
  rw [closeFirst, if_neg (by omega), opened]
  dsimp only
  rw [relocate_of_empty _ _ empty, ← slots]
  rfl

/-- A sweep that comes to a new last window. -/
theorem performs_sweep_fresh {capacity : Capacity} {base : Nat}
    (same : chain.capacity = capacity) (split : chain.windows = front ++ [capacity.fresh base])
    (spaced : Spaced capacity first chain.windows) :
    chain.Performs [.sweep lsn front.length passed] (.ok ())
      (front ++ makeClosed capacity lsn base) := by
  -- As for a record: a window that is made brings the sweep nearer to its number.
  have natural := naturalEnd_fresh capacity base
  fun_induction makeClosed capacity lsn base generalizing chain front passed with
  | case1 base before =>
      exact .of_attend split rfl (attend_sweep_before before _) rfl (.nil () split)
  | case2 base before inside =>
      have opened : lsn ≤ (capacity.fresh base).naturalEnd ∧
          (capacity.fresh base).fixedEnd = none := ⟨by omega, rfl⟩
      have performs := performs_close same split spaced lsn
      rw [closeFirst_fresh (Nat.not_lt.mp before) inside] at performs
      exact .of_attend split rfl (attend_sweep_opened before opened _) rfl
        (performs.map fun _ => ())
  | case3 base before outside ih =>
      have successor : (capacity.fresh base).successorBase = base + capacity.slots := natural
      have spaced_next := (spread_next (same.symm ▸ spaced) split).spaced
      have next := next_of_last split
      rw [same, successor] at next
      refine .of_attend split rfl (attend_sweep_past before (by omega) (by omega) _)
        (capacity_next _ _) ?_
      rw [next] at spaced_next ⊢
      have performs := @ih (chain.withWindows
          (front ++ [(capacity.fresh base).closeNaturally, capacity.fresh (base + capacity.slots)]))
        (front ++ [(capacity.fresh base).closeNaturally]) (front.length :: passed) same
        (by simp [withWindows]) (same ▸ spaced_next) (naturalEnd_fresh capacity _)
      simpa using performs

/-- One turn of a sweep at a window. -/
theorem performs_sweep_of_next {capacity : Capacity} (same : chain.capacity = capacity)
    (split : chain.windows = front ++ window :: back)
    (spaced : Spaced capacity first chain.windows)
    (next : (chain.next front.length).2.Performs [.sweep lsn (front.length + 1)
        (front.length :: passed)] (Windows.closeThrough capacity lsn window.successorBase back).1
      (front ++ window.closeNaturally ::
        (Windows.closeThrough capacity lsn window.successorBase back).2)) :
    chain.Performs [.sweep lsn front.length passed]
      (Windows.closeThrough capacity lsn window.base (window :: back)).1
      (front ++ (Windows.closeThrough capacity lsn window.base (window :: back)).2) := by
  unfold Windows.closeThrough
  split
  · rename_i before
    exact .of_attend split rfl (attend_sweep_before before _) rfl (.nil () split)
  · rename_i before
    split
    · rename_i opened
      exact .of_attend split rfl (attend_sweep_opened before opened _) rfl
        ((performs_close same split spaced lsn).map fun _ => ())
    · rename_i opened
      split
      · rename_i closed
        exact .of_attend split rfl (attend_sweep_closed before opened closed _) rfl (.nil () split)
      · rename_i closed
        exact .of_attend split rfl (attend_sweep_past before opened closed _)
          (capacity_next _ _) next

/-- A sweep that comes to a window goes where the walk along it and those behind it goes. -/
theorem performs_sweep {capacity : Capacity} (same : chain.capacity = capacity)
    (split : chain.windows = front ++ window :: back)
    (spaced : Spaced capacity first chain.windows) :
    chain.Performs [.sweep lsn front.length passed]
      (Windows.closeThrough capacity lsn window.base (window :: back)).1
      (front ++ (Windows.closeThrough capacity lsn window.base (window :: back)).2) := by
  induction back generalizing chain front window passed with
  | nil =>
      have spaced_next := (spread_next (same.symm ▸ spaced) split).spaced
      refine performs_sweep_of_next same split spaced ?_
      rw [next_of_last split, same] at spaced_next ⊢
      have performs := @performs_sweep_fresh first lsn (chain.withWindows
          (front ++ [window.closeNaturally, capacity.fresh window.successorBase]))
        (front ++ [window.closeNaturally]) (front.length :: passed) capacity window.successorBase
        same (by simp [withWindows]) spaced_next
      simpa [Windows.closeThrough] using performs
  | cons second rest ih =>
      refine performs_sweep_of_next same split spaced ?_
      have here := (split ▸ spaced).of_append
      have second_base := here.rest.first_base
      have split' : chain.windows = front ++ [window] ++ second :: rest := by simp [split]
      cases closed : window.fixedEnd with
      | none => cases here.last_of_opened closed
      | some last =>
          rw [next_of_inner split, Window.closeNaturally_of_fixedEnd closed, ← second_base]
          have performs := @ih chain (front ++ [window]) second (front.length :: passed) same split'
            spaced
          simpa using performs

end Logbook.Chain

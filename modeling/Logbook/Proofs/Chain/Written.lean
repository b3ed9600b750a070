import Logbook.Proofs.Chain.Called

/-!
# What the engine does to its chain

A producer whose number is new always finds room. The writer closes the window
that it collects, moves on to its successor, and later lets go of it: none of that
touches a record.
-/

namespace Logbook

/-- What a window is apart from its bookkeeping. -/
def Window.content (window : Window) : Nat × List Slot × Option Nat :=
  (window.base, window.slots, window.fixedEnd)

theorem Window.Sound.of_content {capacity : Capacity} {before after : Window}
    (sound : before.Sound capacity) (same : after.content = before.content) :
    after.Sound capacity := by
  rcases before with ⟨base, slots, fixedEnd, _⟩
  rcases after with ⟨base', slots', fixedEnd', _⟩
  simp only [Window.content, Prod.mk.injEq] at same
  rcases same with ⟨rfl, rfl, rfl⟩
  exact ⟨sound.length_slots, sound.fixedEnd_bounds, sound.lsn_of_filled, sound.lsn_le_fixedEnd⟩

namespace Windows

variable {capacity : Capacity} {base bound : Nat}

theorem Grown.getElem? {before after : List Window} (grown : Grown bound before after)
    {place : Nat} {window : Window} (found : before[place]? = some window) :
    ∃ window', after[place]? = some window' ∧ window.Later bound window' := by
  induction grown generalizing place with
  | made => cases found
  | @cons former latter rest rest' later _ ih =>
      cases place with
      | zero =>
          cases found
          exact ⟨latter, rfl, later⟩
      | succ place => exact ih found

theorem Grown.fixedEnd_lt {before after : List Window} (grown : Grown bound before after)
    (bounded : ∀ window ∈ before, ∀ last, window.fixedEnd = some last → last < bound) :
    ∀ window ∈ after, ∀ last, window.fixedEnd = some last → last < bound := by
  induction grown with
  | made ends => exact ends
  | @cons former latter rest rest' later _ ih =>
      rw [List.forall_mem_cons] at bounded ⊢
      exact ⟨later.fixedEnd_lt bounded.1, ih bounded.2⟩

/-- Bookkeeping does not matter to what windows hold. -/
theorem Carried.of_content {before after : List Window} (linked : Linked capacity base before)
    (same : after.map Window.content = before.map Window.content) :
    Carried capacity base bound before none after := by
  induction before generalizing base after with
  | nil =>
      cases List.map_eq_nil_iff.mp same
      exact .refl linked bound
  | cons window rest ih =>
      rcases List.map_eq_cons_iff.mp same with ⟨window', rest', rfl, same_window, same_rest⟩
      rcases linked with ⟨rfl, sound, closed, accounted, rest_linked⟩
      have carried := ih rest_linked same_rest
      have sound' := Window.Sound.of_content sound same_window
      simp only [Window.content, Prod.mk.injEq] at same_window
      rcases same_window with ⟨same_base, same_slots, same_end⟩
      have holds_all : ∀ other, Holds (window' :: rest') other ↔ Holds (window :: rest) other := by
        intro other
        rw [holds_cons, holds_cons, carried.holds]
        simp [Window.Holds, same_slots]
      have successor : window'.successorBase = window.successorBase := by
        simp only [Window.successorBase, Window.naturalEnd, Window.capacity, same_base, same_slots,
          same_end]
      have closed' : window'.fixedEnd = none → rest' = [] := by
        intro opened
        rw [same_end] at opened
        cases closed opened
        exact List.map_eq_nil_iff.mp same_rest
      have accounted' : Accounted window' rest' :=
        accounted.mono same_base
          (fun _ slot found occupied => ⟨slot, same_slots ▸ found, occupied⟩)
          fun other held => (holds_all other).mpr held
      constructor
      · exact ⟨same_base, sound', closed', accounted', successor ▸ carried.linked⟩
      · exact .cons (Window.later_of_fixedEnd_eq same_base same_end) carried.grown
      · simpa using holds_all
      · simp

end Windows

namespace Chain

open Windows

theorem exists_eq_ok {ε β : Type} {result : Except ε β} (isOk : result.isOk = true) :
    ∃ value, result = .ok value := by
  cases result with
  | error error => cases isOk
  | ok value => exact ⟨value, rfl⟩

theorem isOk_mapError {ε ε' β : Type} (f : ε → ε') (result : Except ε β) :
    (result.mapError f).isOk = result.isOk := by
  cases result <;> rfl

variable {first bound : Nat} {chain : Chain}

/-- A record with a new number, from the base of the tail on, is accepted. -/
theorem append_isOk (sound : Sound first chain) (running : chain.failure = none)
    {record : Record} (base_le : chain.baseAt chain.tail ≤ record.lsn)
    (new : ¬ HoldsLsn chain.windows record.lsn) (sync : Bool) :
    (chain.append record sync).1.isOk = true := by
  unfold append
  rw [running]
  generalize start_eq :
    (if chain.baseAt chain.head ≤ record.lsn then chain.head else chain.tail) = start
  have start_spec : start < chain.windows.length ∧ chain.baseAt start ≤ record.lsn := by
    rw [← start_eq]
    split
    · rename_i head_le
      exact ⟨sound.head_lt, head_le⟩
    · exact ⟨sound.tail_lt, base_le⟩
  rcases start_spec with ⟨start_lt, start_le⟩
  dsimp only
  unfold onSuffix
  cases suffix : chain.windows.drop start with
  | nil => exact absurd (List.drop_eq_nil_iff.mp suffix) (Nat.not_le.mpr start_lt)
  | cons window rest =>
      have found : chain.windows[start]? = some window := by
        rw [← List.head?_drop, suffix, List.head?_cons]
      have linked := sound.linked_split suffix
      rw [baseAt, window?, found, Option.map_some, Option.getD_some] at start_le
      have free : ¬ HoldsLsn (window :: rest) record.lsn := by
        rintro ⟨other, held, lsn_eq⟩
        apply new
        rw [← take_append_of_drop suffix]
        exact ⟨other, holds_append.mpr (.inr held), lsn_eq⟩
      rcases offer_of_free linked.of_append start_le free sync with ⟨passed, after, placed, _⟩
      simp only [placed]
      rfl

theorem drop_eq_cons {place : Nat} {window : Window} (here : chain.window? place = some window) :
    ∃ rest, chain.windows.drop place = window :: rest := by
  cases suffix : chain.windows.drop place with
  | nil =>
      rw [window?, ← List.head?_drop, suffix] at here
      cases here
  | cons window' rest =>
      rw [window?, ← List.head?_drop, suffix] at here
      cases here
      exact ⟨rest, rfl⟩

/-- The window at a place is closed after it was closed within its bounds. -/
theorem closeAt_spec (sound : Sound first chain) {place last : Nat} {window : Window}
    (here : chain.window? place = some window) (base_le : window.base ≤ last + 1)
    (le_naturalEnd : last ≤ window.naturalEnd) (last_lt : last < bound)
    (bounded : ∀ other, Holds chain.windows other → other.lsn ≤ bound) :
    (chain.closeAt place last).1.isOk = true ∧
      ∃ window', (chain.closeAt place last).2.window? place = some window' ∧
        window'.fixedEnd ≠ none := by
  rcases drop_eq_cons here with ⟨rest, suffix⟩
  have at_window := (sound.linked_split suffix).of_append
  have place_le : place ≤ chain.windows.length := by
    have := (List.getElem?_eq_some_iff.mp here).1
    omega
  have result : ∃ closed rest', (closeFirst chain.capacity window rest last).1.isOk = true ∧
      (closeFirst chain.capacity window rest last).2 = closed :: rest' ∧
      closed.fixedEnd ≠ none := by
    cases fixed : window.fixedEnd with
    | some at_end =>
        rw [closeFirst, if_neg (by omega), fixed]
        exact ⟨window, rest, rfl, rfl, by simp [fixed]⟩
    | none =>
        cases at_window.2.2.1 fixed
        have closed := (carried_closeOpen at_window fixed base_le le_naturalEnd
          last_lt fun other held => bounded other
            ⟨window, List.mem_of_getElem? here, held⟩).1
        rw [closeFirst, if_neg (by omega), fixed] at closed ⊢
        exact ⟨_, _, by rw [closed]; rfl, rfl, by simp⟩
  rcases result with ⟨closed, rest', isOk, windows, fixed⟩
  unfold closeAt onSuffix
  simp only [suffix, windows]
  refine ⟨by rw [isOk_mapError]; exact isOk, closed, ?_, fixed⟩
  have length : (chain.windows.take place).length = place := by
    rw [List.length_take]
    omega
  simp only [window?, withWindows]
  rw [List.getElem?_append_right (by omega), length, Nat.sub_self, List.getElem?_cons_zero]

/-- The windows up to a number can be closed. -/
theorem isOk_closeThrough (sound : Sound first chain) {lsn : Nat} (lsn_lt : lsn < bound)
    (bounded : ∀ other, Holds chain.windows other → other.lsn ≤ bound) :
    (chain.closeThrough lsn).1.isOk = true := by
  unfold closeThrough onSuffix
  cases suffix : chain.windows.drop chain.tail with
  | nil => rfl
  | cons window rest =>
      have linked := (sound.linked_split suffix).of_append
      dsimp only
      rw [isOk_mapError]
      refine Windows.isOk_closeThrough linked lsn_lt fun other held => bounded other ?_
      rw [← take_append_of_drop suffix]
      exact holds_append.mpr (.inr held)

/-- The successor of a closed window starts after its end. -/
theorem next_of_closed (sound : Sound first chain) {place last : Nat} {window : Window}
    (here : chain.window? place = some window) (closed : window.fixedEnd = some last) :
    (chain.next place).1 = place + 1 ∧
      ∃ successor, (chain.next place).2.window? (place + 1) = some successor ∧
        successor.base = last + 1 := by
  rcases drop_eq_cons here with ⟨rest, suffix⟩
  have inside := (List.getElem?_eq_some_iff.mp here).1
  unfold next
  rw [suffix]
  cases rest with
  | nil =>
      refine ⟨rfl, chain.capacity.fresh window.successorBase, ?_, ?_⟩
      · have length : (chain.windows.take place).length = place := by
          rw [List.length_take]
          omega
        simp only [window?, withWindows]
        rw [List.getElem?_append_right (by omega), length, Nat.add_sub_cancel_left]
        rfl
      · simp only [Capacity.fresh, Window.fresh, Window.successorBase, closed, Option.getD_some]
  | cons successor rest =>
      have after : chain.windows[place + 1]? = some successor := by
        rw [← List.getElem?_drop, suffix]
        rfl
      rcases sound.linked.successor here after with ⟨last', closed', starts⟩
      cases closed.symm.trans closed'
      exact ⟨rfl, successor, after, starts⟩

theorem called_next_of_closed (sound : Sound first chain) {place last : Nat} {window : Window}
    (here : chain.window? place = some window) (closed : window.fixedEnd = some last) :
    Called first bound chain none (chain.next place).2 := by
  apply called_next sound
  intro window' suffix opened
  rw [window?, ← List.head?_drop, suffix] at here
  cases here
  rw [closed] at opened
  cases opened

/-- A closed window stays closed at its end. -/
theorem Called.window?_of_closed {before after : Chain} {gained : Option Record}
    (called : Called first bound before gained after) {place last : Nat} {window : Window}
    (here : before.window? place = some window) (closed : window.fixedEnd = some last) :
    ∃ window', after.window? place = some window' ∧ window'.fixedEnd = some last := by
  rcases called.carried.grown.getElem? here with ⟨window', here', later⟩
  refine ⟨window', here', ?_⟩
  rcases later.2 with same | ⟨opened, _⟩
  · exact same.trans closed
  · rw [closed] at opened
    cases opened

theorem next_lt (chain : Chain) {place : Nat} (inside : place < chain.windows.length) :
    (chain.next place).1 = place + 1 ∧ place + 1 < (chain.next place).2.windows.length := by
  unfold next
  split
  · rename_i window suffix
    constructor
    · exact rfl
    · simp only [withWindows, List.length_append, List.length_take, List.length_cons,
        List.length_nil]
      omega
  · rename_i not_last
    refine ⟨rfl, Nat.lt_of_not_le ?_⟩
    intro last
    have := List.drop_eq_getElem_cons inside
    rw [List.drop_eq_nil_iff.mpr last] at this
    exact not_last _ this

/-- Letting go of a window that is written. -/
theorem called_complete (sound : Sound first chain) (place : Nat) :
    Called first bound chain none (chain.complete place) where
  capacity := rfl
  tail := rfl
  failure := rfl
  head_lt := by
    simp only [complete, List.length_modify]
    exact sound.head_lt
  carried := by
    refine .of_content sound.linked (List.ext_getElem? ?_)
    intro offset
    simp only [complete, List.getElem?_map, List.getElem?_modify]
    cases chain.windows[offset]? with
    | none => rfl
    | some window =>
        simp only [Option.map_some]
        split <;> rfl

/-- The chain stays sound when its tail moves on. -/
theorem sound_retire {place : Nat} (inside : place < chain.windows.length) (held : Bool)
    (sound : Sound first (chain.next place).2) : Sound first (chain.retire place held) where
  linked := sound.linked
  tail_lt := by
    rcases chain.next_lt inside with ⟨successor, successor_lt⟩
    rw [← successor] at successor_lt
    exact successor_lt
  head_lt := by
    rcases chain.next_lt inside with ⟨successor, successor_lt⟩
    rw [← successor] at successor_lt
    simp only [retire]
    split
    · exact successor_lt
    · exact sound.head_lt

end Chain

end Logbook

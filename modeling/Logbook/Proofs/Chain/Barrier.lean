import Logbook.Proofs.Chain.Custody
import Logbook.Proofs.Chain.Written

/-!
# The barrier of a freeze

A freeze puts a barrier behind a number: every window from the tail up to the one that
has the number in range gets an end, that one right at the number, so that what comes
later starts in a window of its own. Ends that were fixed before stay, also where they
lie short of the natural end or leave a window empty, and the walk goes on behind them.
A barrier that stands already is not moved.
-/

namespace Logbook

namespace Windows

variable {capacity : Capacity} {base lsn : Nat}

/-- No end is fixed at a place: the window there is open, or there is none yet. -/
def OpenAt (windows : List Window) (place : Nat) : Prop :=
  ∀ window, windows[place]? = some window → window.fixedEnd = none

theorem openAt_fresh (capacity : Capacity) (base place : Nat) :
    OpenAt [capacity.fresh base] place := by
  intro window found
  cases List.mem_singleton.mp (List.mem_of_getElem? found)
  rfl

/-- The windows before and after a walk that puts a barrier behind a number. A window
that has to be made is a new one that the walk meets. -/
inductive Barred (capacity : Capacity) (lsn : Nat) : List Window → List Window → Prop where
  /-- The number is in the range of a window that is closed. -/
  | covered {window : Window} {rest : List Window} {last : Nat} (base_le : window.base ≤ lsn)
      (closed : window.fixedEnd = some last) (le_last : lsn ≤ last) :
      Barred capacity lsn (window :: rest) (window :: rest)
  /-- An open window gets its end at the number. -/
  | closed {window window' : Window} {after : List Window} (opened : window.fixedEnd = none)
      (base_le : window.base ≤ lsn) (same_base : window'.base = window.base)
      (at_lsn : window'.fixedEnd = some lsn) :
      Barred capacity lsn [window] (window' :: after)
  /-- The number lies past a window, which gets its natural end unless it has one. -/
  | passed {window : Window} {rest after : List Window} (barred : Barred capacity lsn rest after) :
      Barred capacity lsn (window :: rest) (window.closeNaturally :: after)
  | made {base : Nat} {after : List Window}
      (barred : Barred capacity lsn [capacity.fresh base] after) : Barred capacity lsn [] after

theorem barred_makeClosed (base_le : base ≤ lsn) :
    Barred capacity lsn [] (makeClosed capacity lsn base) := by
  fun_induction makeClosed capacity lsn base with
  | case1 base before => exact absurd before (Nat.not_lt.mpr base_le)
  | case2 base before inside => exact .made (.closed rfl base_le rfl rfl)
  | case3 base before outside ih => exact .made (.passed (ih (Nat.not_lt.mp outside)))

/-- Closing an open window keeps its base. -/
theorem closeFirst_of_open (capacity : Capacity) {window : Window} {last : Nat}
    (opened : window.fixedEnd = none)
    (base_le : window.base ≤ last + 1) (le_naturalEnd : last ≤ window.naturalEnd) :
    ∃ window' after, (closeFirst capacity window [] last).2 = window' :: after ∧
      window'.base = window.base ∧ window'.fixedEnd = some last := by
  unfold closeFirst
  rw [if_neg (by omega), opened]
  exact ⟨_, _, rfl, rfl, rfl⟩

/-- A walk along linked windows, from one on whose base is not past the number. -/
theorem barred_closeThrough {windows : List Window} (linked : Linked capacity base windows)
    (base_le : base ≤ lsn) : Barred capacity lsn windows (closeThrough capacity lsn base windows).2 := by
  induction windows generalizing base with
  | nil => exact barred_makeClosed base_le
  | cons window rest ih =>
      have not_before : ¬ lsn < window.base := by
        rw [linked.first_base]
        exact Nat.not_lt.mpr base_le
      unfold closeThrough
      rw [if_neg not_before]
      split
      · rename_i here
        obtain rfl := linked.last_of_opened here.2
        obtain ⟨window', after, walked, same_base, at_lsn⟩ :=
          closeFirst_of_open capacity here.2 (by omega) here.1
        rw [walked]
        exact .closed here.2 (Nat.not_lt.mp not_before) same_base at_lsn
      · rename_i not_here
        split
        · rename_i inside
          cases fixed : window.fixedEnd with
          | none => exact absurd ⟨inside.1, fixed⟩ not_here
          | some last =>
              rw [fixed, Option.getD_some] at inside
              exact .covered (Nat.not_lt.mp not_before) fixed inside.2
        · rename_i not_inside
          have next_le : window.successorBase ≤ lsn := by
            cases fixed : window.fixedEnd with
            | none =>
                rw [Window.successorBase, fixed, Option.getD_none]
                exact Nat.lt_of_not_le fun inside => not_here ⟨inside, fixed⟩
            | some last =>
                have last_le := (linked.first_sound.fixedEnd_bounds last fixed).2
                rw [fixed, Option.getD_some] at not_inside
                rw [Window.successorBase, fixed, Option.getD_some]
                omega
          exact .passed (ih linked.rest next_le)

/-- The walk ends at a window that has the number in range, which is closed right at the
number if it was open; the windows before it are closed, at their natural ends if they
were open. -/
theorem Barred.reaches {before after : List Window} (barred : Barred capacity lsn before after) :
    ∃ place window last, after[place]? = some window ∧ window.fixedEnd = some last ∧
      window.base ≤ lsn ∧ lsn ≤ last ∧ (OpenAt before place → last = lsn) ∧
      ∀ earlier < place, ∃ passed last, after[earlier]? = some passed ∧
        passed.fixedEnd = some last ∧ (OpenAt before earlier → last = passed.naturalEnd) := by
  induction barred with
  | @covered window rest last base_le closed le_last =>
      refine ⟨0, window, last, rfl, closed, base_le, le_last, fun opened => ?_, nofun⟩
      cases closed.symm.trans (opened window rfl)
  | @closed window window' after opened base_le same_base at_lsn =>
      exact ⟨0, window', lsn, rfl, at_lsn, same_base ▸ base_le, Nat.le_refl _, fun _ => rfl, nofun⟩
  | @passed window rest after _ ih =>
      obtain ⟨place, reached, last, found, fixed, base_le, le_last, at_lsn, earlier_closed⟩ := ih
      refine ⟨place + 1, reached, last, found, fixed, base_le, le_last, at_lsn, ?_⟩
      intro earlier earlier_lt
      cases earlier with
      | zero =>
          refine ⟨window.closeNaturally, _, rfl, rfl, fun opened => ?_⟩
          rw [opened window rfl]
          rfl
      | succ earlier => exact earlier_closed earlier (Nat.lt_of_succ_lt_succ earlier_lt)
  | @made base after _ ih =>
      obtain ⟨place, reached, last, found, fixed, base_le, le_last, at_lsn, earlier_closed⟩ := ih
      refine ⟨place, reached, last, found, fixed, base_le, le_last,
        fun _ => at_lsn (openAt_fresh capacity base place), fun earlier earlier_lt => ?_⟩
      obtain ⟨passed, end_passed, found, fixed, natural⟩ := earlier_closed earlier earlier_lt
      exact ⟨passed, end_passed, found, fixed, fun _ => natural (openAt_fresh capacity base earlier)⟩

/-- A window that ends at a number or past it stops the walk to that number. -/
theorem closeThrough_of_covered {window : Window} {rest : List Window} {last : Nat}
    (sound : window.Sound capacity) (closed : window.fixedEnd = some last) (le_last : lsn ≤ last) :
    closeThrough capacity lsn base (window :: rest) = (.ok (), window :: rest) := by
  have last_le := (sound.fixedEnd_bounds last closed).2
  unfold closeThrough
  split
  · rfl
  · rw [if_neg (by simp [closed]), if_pos]
    rw [closed, Option.getD_some]
    exact ⟨Nat.le_trans le_last last_le, le_last⟩

/-- Where a barrier stands, closing up to its number or a lower one changes nothing. -/
theorem Barred.closeThrough_eq {before after : List Window}
    (barred : Barred capacity lsn before after) (linked : Linked capacity base after)
    {lower : Nat} (lower_le : lower ≤ lsn) :
    closeThrough capacity lower base after = (.ok (), after) := by
  induction barred generalizing base with
  | covered _ closed le_last =>
      exact closeThrough_of_covered linked.first_sound closed (Nat.le_trans lower_le le_last)
  | closed _ _ _ at_lsn => exact closeThrough_of_covered linked.first_sound at_lsn lower_le
  | @passed window rest after _ ih =>
      have closed : window.closeNaturally.fixedEnd = some _ := rfl
      unfold closeThrough
      split
      · rfl
      · rw [if_neg (by simp [closed])]
        split
        · rfl
        · rw [ih linked.rest, Window.closeNaturally_of_fixedEnd closed]
  | made _ ih => exact ih linked

end Windows

namespace Chain

open Windows

variable {first lsn : Nat} {chain : Chain}

theorem withWindows_self (chain : Chain) : chain.withWindows chain.windows = chain := by
  rw [withWindows, Nat.sub_self, Nat.sub_zero]

/-- Work that leaves the windows as they are leaves the chain as it is. -/
theorem onSuffix_eq_self {ε α : Type} {place : Nat} {missing result : Except ε α}
    {work : Window → List Window → Except ε α × List Window} {window : Window}
    {rest : List Window} (suffix : chain.windows.drop place = window :: rest)
    (worked : work window rest = (result, window :: rest)) :
    chain.onSuffix place missing work = (result, chain) := by
  unfold onSuffix
  rw [suffix]
  simp only [worked]
  rw [take_append_of_drop suffix, withWindows_self]

/-- What a barrier behind a number leaves of a chain. -/
structure Barrier (lsn : Nat) (before after : Chain) : Prop where
  /-- An end that was fixed stays. -/
  fixed : ∀ place window last, before.window? place = some window →
    window.fixedEnd = some last → ∃ window', after.window? place = some window' ∧
      window'.base = window.base ∧ window'.fixedEnd = some last
  /-- From the tail on windows are closed up to one that has the number in range. Where
  the end was still open, that one ends at the number and those before it at their natural
  ends. -/
  reaches : before.baseAt before.tail ≤ lsn → ∃ place window last, before.tail ≤ place ∧
    after.window? place = some window ∧ window.fixedEnd = some last ∧
    window.base ≤ lsn ∧ lsn ≤ last ∧ (OpenAt before.windows place → last = lsn) ∧
    (∃ successor, (after.next place).2.window? (place + 1) = some successor ∧
      successor.base = last + 1) ∧
    ∀ earlier, before.tail ≤ earlier → earlier < place → ∃ passed last,
      after.window? earlier = some passed ∧ passed.fixedEnd = some last ∧
      (OpenAt before.windows earlier → last = passed.naturalEnd)
  /-- A number below the tail needs no barrier. -/
  below : lsn < before.baseAt before.tail → after = before
  /-- A barrier behind this number or a lower one stands already. -/
  stands : ∀ lower ≤ lsn, after.closeThrough lower = (.ok (), after)

/-- The tail of a sound chain and the windows after it. -/
theorem Sound.tail_split (sound : Sound first chain) :
    ∃ window rest, chain.windows.drop chain.tail = window :: rest ∧
      chain.baseAt chain.tail = window.base := by
  have tail_lt := sound.tail_lt
  have found : chain.window? chain.tail = some chain.windows[chain.tail] :=
    List.getElem?_eq_getElem tail_lt
  obtain ⟨rest, suffix⟩ := drop_eq_cons found
  exact ⟨_, rest, suffix, by rw [baseAt, found, Option.map_some, Option.getD_some]⟩

/-- Closing up to a number below the tail. -/
theorem closeThrough_of_below (sound : Sound first chain)
    (below : lsn < chain.baseAt chain.tail) : chain.closeThrough lsn = (.ok (), chain) := by
  obtain ⟨window, rest, suffix, base_eq⟩ := sound.tail_split
  rw [base_eq] at below
  have worked : Windows.closeThrough chain.capacity lsn window.base (window :: rest) =
      (.ok (), window :: rest) := by
    rw [Windows.closeThrough, if_pos below]
  rw [closeThrough, onSuffix_eq_self suffix worked]
  rfl

/-- Closing up to a number from the tail on bars the windows from the tail on. -/
theorem barred_closeThrough (sound : Sound first chain) (base_le : chain.baseAt chain.tail ≤ lsn) :
    ∃ front before after, chain.windows = front ++ before ∧
      (chain.closeThrough lsn).2.windows = front ++ after ∧ front.length = chain.tail ∧
      Barred chain.capacity lsn before after := by
  obtain ⟨window, rest, suffix, base_eq⟩ := sound.tail_split
  have linked := (sound.linked_split suffix).of_append
  have tail_lt := sound.tail_lt
  rw [base_eq] at base_le
  refine ⟨chain.windows.take chain.tail, window :: rest, _, (take_append_of_drop suffix).symm, ?_,
    List.length_take_of_le (Nat.le_of_lt tail_lt), Windows.barred_closeThrough linked base_le⟩
  unfold closeThrough onSuffix
  rw [suffix]
  rfl

theorem window?_of_split {front windows : List Window} (split : chain.windows = front ++ windows)
    (offset : Nat) : chain.window? (front.length + offset) = windows[offset]? := by
  rw [window?, split, List.getElem?_append_right (Nat.le_add_right _ _), Nat.add_sub_cancel_left]

/-- A call that fixes ends moves none that was fixed. -/
theorem Called.fixed {bound : Nat} {before after : Chain} {gained : Option Record}
    (called : Called first bound before gained after) {place last : Nat} {window : Window}
    (here : before.window? place = some window) (closed : window.fixedEnd = some last) :
    ∃ window', after.window? place = some window' ∧ window'.base = window.base ∧
      window'.fixedEnd = some last := by
  obtain ⟨window', there, later⟩ := called.carried.grown.getElem? here
  obtain ⟨same, there', closed'⟩ := called.window?_of_closed here closed
  cases there.symm.trans there'
  exact ⟨window', there, later.1, closed'⟩

/-- The walk from the tail, read off at the places of the chain. -/
theorem reaches_closeThrough (sound : Sound first chain)
    (sound_after : Sound first (chain.closeThrough lsn).2)
    (base_le : chain.baseAt chain.tail ≤ lsn) :
    ∃ place window last, chain.tail ≤ place ∧
      (chain.closeThrough lsn).2.window? place = some window ∧ window.fixedEnd = some last ∧
      window.base ≤ lsn ∧ lsn ≤ last ∧ (OpenAt chain.windows place → last = lsn) ∧
      (∃ successor, ((chain.closeThrough lsn).2.next place).2.window? (place + 1) =
        some successor ∧ successor.base = last + 1) ∧
      ∀ earlier, chain.tail ≤ earlier → earlier < place → ∃ passed last,
        (chain.closeThrough lsn).2.window? earlier = some passed ∧
        passed.fixedEnd = some last ∧ (OpenAt chain.windows earlier → last = passed.naturalEnd) := by
  obtain ⟨front, before, after, split, split_after, length, barred⟩ :=
    barred_closeThrough sound base_le
  generalize (chain.closeThrough lsn).2 = closed at sound_after split_after ⊢
  have open_of : ∀ offset, OpenAt chain.windows (front.length + offset) → OpenAt before offset := by
    intro offset opened window found
    exact opened window ((window?_of_split split offset).trans found)
  obtain ⟨offset, window, last, found, fixed, base_le, le_last, at_lsn, earlier_closed⟩ :=
    barred.reaches
  have here : closed.window? (front.length + offset) = some window :=
    (window?_of_split split_after offset).trans found
  refine ⟨front.length + offset, window, last, by omega, here, fixed, base_le, le_last,
    fun opened => at_lsn (open_of offset opened), (next_of_closed sound_after here fixed).2, ?_⟩
  intro earlier tail_le earlier_lt
  obtain ⟨offset', rfl⟩ := Nat.exists_eq_add_of_le (length ▸ tail_le)
  obtain ⟨passed, end_passed, found, fixed, natural⟩ := earlier_closed offset' (by omega)
  exact ⟨passed, end_passed, (window?_of_split split_after offset').trans found, fixed,
    fun opened => natural (open_of offset' opened)⟩

/-- A barrier that stands is not moved. -/
theorem closeThrough_of_barred {bound : Nat} (sound : Sound first chain)
    (called : Called first bound chain none (chain.closeThrough lsn).2)
    (base_le : chain.baseAt chain.tail ≤ lsn) {lower : Nat} (lower_le : lower ≤ lsn) :
    (chain.closeThrough lsn).2.closeThrough lower = (.ok (), (chain.closeThrough lsn).2) := by
  obtain ⟨front, before, after, -, split_after, length, barred⟩ :=
    barred_closeThrough sound base_le
  have sound_after := called.sound sound
  obtain ⟨window, rest, suffix, -⟩ := sound_after.tail_split
  have linked := (sound_after.linked_split suffix).of_append
  have after_eq : after = window :: rest := by
    rw [← suffix, split_after, called.tail, ← length, List.drop_left]
  rw [← called.capacity] at barred
  generalize (chain.closeThrough lsn).2 = closed at suffix linked barred ⊢
  subst after_eq
  rw [closeThrough, onSuffix_eq_self suffix (barred.closeThrough_eq linked lower_le)]
  rfl

theorem barrier_closeThrough (sound : Sound first chain) (lsn : Nat) :
    (chain.closeThrough lsn).1 = .ok () ∧ Barrier lsn chain (chain.closeThrough lsn).2 := by
  rcases exists_bound sound.linked with ⟨bound, bounded⟩
  have lsn_lt : lsn < max bound (lsn + 1) := by omega
  have bounded_all : ∀ other, Holds chain.windows other → other.lsn ≤ max bound (lsn + 1) :=
    fun other held => Nat.le_trans (bounded other held) (Nat.le_max_left _ _)
  have called := called_closeThrough sound lsn lsn_lt bounded_all
  have sound_after := called.sound sound
  obtain ⟨_, succeeds⟩ := exists_eq_ok (isOk_closeThrough sound lsn_lt bounded_all)
  refine ⟨succeeds, ?_, ?_, ?_, ?_⟩
  · intro place window last here closed
    exact called.fixed here closed
  · exact reaches_closeThrough sound sound_after
  · intro below
    rw [closeThrough_of_below sound below]
  · intro lower lower_le
    rcases Nat.lt_or_ge lsn (chain.baseAt chain.tail) with below | base_le
    · rw [closeThrough_of_below sound below]
      exact closeThrough_of_below sound (Nat.lt_of_le_of_lt lower_le below)
    · exact closeThrough_of_barred sound called base_le lower_le

namespace History

/-- Whatever was called on a new chain and its windows, a barrier can be put behind any
number, and every record that was accepted is still held, in one window with the number in
range. -/
theorem barrier_run (first capacity poolLimit : Nat) (calls : List Call) (lsn : Nat) :
    let history := (start (.create first capacity poolLimit)).run calls
    (history.chain.closeThrough lsn).1 = .ok () ∧
      Barrier lsn history.chain (history.chain.closeThrough lsn).2 ∧
      Faithful ⟨(history.chain.closeThrough lsn).2, history.accepted⟩ := by
  intro history
  have kept : Kept first history := kept_run (kept_start first capacity poolLimit) calls
  have faithful := (kept_step kept (.closeThrough lsn)).faithful
  obtain ⟨succeeds, barrier⟩ := barrier_closeThrough kept.sound lsn
  refine ⟨succeeds, barrier, ?_⟩
  rw [step, Chain.call] at faithful
  simpa only [Option.toList_none, List.append_nil] using faithful

end History

end Chain

end Logbook

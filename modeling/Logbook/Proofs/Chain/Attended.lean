import Logbook.Chain.Errand
import Logbook.Proofs.Chain.Spaced
import Logbook.Proofs.Chain.Written

/-!
# Attending to errands

A turn keeps the windows of a chain in line and takes none away. Every errand is at a window
of the chain, and as it only ever goes on to the successor of the window it is at, it has
passed each window once at most.
-/

namespace Logbook

/-- A slot may lose its record. -/
theorem Window.Shaped.vacate {capacity : Capacity} {window : Window}
    (shaped : window.Shaped capacity) (offset : Nat) : (window.vacate offset).Shaped capacity where
  length_slots := by simpa [Window.vacate] using shaped.length_slots
  fixedEnd_bounds last closed := by
    simpa [Window.vacate, Window.naturalEnd, Window.capacity] using
      shaped.fixedEnd_bounds last closed
  lsn_of_filled place record sync found := by
    simp only [Window.vacate, List.getElem?_set] at found
    split at found
    · split at found
      · cases found
      · cases found
    · exact shaped.lsn_of_filled place record sync found

namespace Chain

open Windows

variable {first : Nat} {chain : Chain} {front back : List Window} {window : Window}

/-! ### A window among the others -/

theorem exists_split {place : Nat} (inside : place < chain.windows.length) :
    ∃ front window back, chain.windows = front ++ window :: back ∧ front.length = place := by
  have here : chain.window? place = some chain.windows[place] := List.getElem?_eq_getElem inside
  obtain ⟨back, suffix⟩ := drop_eq_cons here
  exact ⟨_, _, back, (take_append_of_drop suffix).symm,
    List.length_take_of_le (Nat.le_of_lt inside)⟩

theorem window?_length (split : chain.windows = front ++ window :: back) :
    chain.window? front.length = some window := by
  simp [window?, split]

theorem windows_put (split : chain.windows = front ++ window :: back) (window' : Window) :
    (chain.put front.length window').windows = front ++ window' :: back := by
  simp [put, split]

theorem next_of_last (split : chain.windows = front ++ [window]) :
    chain.next front.length = (front.length + 1, chain.withWindows
      (front ++ [window.closeNaturally, chain.capacity.fresh window.successorBase])) := by
  simp [next, split]

theorem next_of_inner {second : Window}
    (split : chain.windows = front ++ window :: second :: back) :
    chain.next front.length = (front.length + 1, chain) := by
  simp [next, split]

/-! ### What a turn leaves -/

/-- The chain has its windows still, and maybe some more, all in line. -/
structure Spread (first : Nat) (before after : Chain) : Prop where
  capacity : after.capacity = before.capacity
  spaced : Spaced before.capacity first after.windows
  length_le : before.windows.length ≤ after.windows.length

namespace Spread

theorem refl (spaced : Spaced chain.capacity first chain.windows) : Spread first chain chain :=
  ⟨rfl, spaced, Nat.le_refl _⟩

theorem trans {before middle after : Chain} (front : Spread first before middle)
    (back : Spread first middle after) : Spread first before after :=
  ⟨back.capacity.trans front.capacity, front.capacity ▸ back.spaced,
    Nat.le_trans front.length_le back.length_le⟩

end Spread

theorem spread_put {window' : Window} (spaced : Spaced chain.capacity first chain.windows)
    (split : chain.windows = front ++ window :: back)
    (spaced' : Spaced chain.capacity window.base (window' :: back)) :
    Spread first chain (chain.put front.length window') := by
  refine ⟨rfl, ?_, ?_⟩
  · rw [windows_put split]
    exact (split ▸ spaced).append spaced'
  · exact Nat.le_of_eq List.length_set.symm

theorem spread_changed {window' : Window} (spaced : Spaced chain.capacity first chain.windows)
    (split : chain.windows = front ++ window :: back) (shaped' : window'.Shaped chain.capacity)
    (same_base : window'.base = window.base) (same_end : window'.fixedEnd = window.fixedEnd) :
    Spread first chain (chain.put front.length window') :=
  spread_put spaced split ((split ▸ spaced).of_append.first_changed shaped' same_base same_end)

theorem spread_next (spaced : Spaced chain.capacity first chain.windows)
    (split : chain.windows = front ++ window :: back) :
    Spread first chain (chain.next front.length).2 := by
  cases back with
  | nil =>
      rw [next_of_last split]
      refine ⟨rfl, (split ▸ spaced).append (split ▸ spaced).of_append.followed, ?_⟩
      rw [split]
      simp [withWindows]
  | cons second back =>
      rw [next_of_inner split]
      exact .refl spaced

/-- The errand is at a window of the chain, has passed earlier ones, and none of them twice. -/
structure Errand.Apt (chain : Chain) (errand : Errand) : Prop where
  inside : errand.place < chain.windows.length
  nodup : errand.passed.Nodup
  earlier : ∀ place ∈ errand.passed, place < errand.place

/-- An errand that has just been given has passed nothing. -/
theorem Errand.apt_of_new {errand : Errand} (inside : errand.place < chain.windows.length)
    (new : errand.passed = []) : errand.Apt chain := by
  refine ⟨inside, ?_, fun place member => ?_⟩
  · rw [new]
    exact List.nodup_nil
  · rw [new] at member
    cases member

/-- An errand that goes on from a window has passed it. -/
theorem Errand.Apt.nodup_passed {errand : Errand} (apt : errand.Apt chain) :
    (errand.place :: errand.passed).Nodup ∧
      ∀ place ∈ errand.place :: errand.passed, place < errand.place + 1 := by
  refine ⟨List.nodup_cons.mpr ⟨fun member => ?_, apt.nodup⟩, fun place member => ?_⟩
  · exact Nat.lt_irrefl _ (apt.earlier _ member)
  · rcases List.mem_cons.mp member with rfl | member
    · exact Nat.lt_succ_self _
    · exact Nat.lt_succ_of_lt (apt.earlier place member)

/-- What attending to an errand leaves. -/
structure Attended (first : Nat) (before : Chain)
    (result : Except WindowFault (List Errand) × Chain) : Prop where
  spread : Spread first before result.2
  apt : ∀ left, result.1 = .ok left → ∀ errand ∈ left, errand.Apt result.2

theorem attended_ended {after : Chain} {result : Except WindowFault (List Errand)}
    (spread : Spread first chain after) (ended : ∀ left, result = .ok left → left = []) :
    Attended first chain (result, after) := by
  refine ⟨spread, fun left is_left errand member => ?_⟩
  rw [ended left is_left] at member
  cases member

theorem attended_single {after : Chain} {errand : Errand} (spread : Spread first chain after)
    (apt : errand.Apt after) : Attended first chain (.ok [errand], after) := by
  refine ⟨spread, ?_⟩
  rintro _ ⟨⟩ other member
  rw [List.mem_singleton.mp member]
  exact apt

/-- What attending to an errand at its window leaves. -/
theorem attended_attend {errand : Errand} (spaced : Spaced chain.capacity first chain.windows)
    (split : chain.windows = front ++ window :: back) (apt : errand.Apt chain)
    (here : errand.place = front.length) :
    Attended first chain (chain.attend window errand) := by
  have shaped := (split ▸ spaced).of_append.shaped
  have inside : front.length < chain.windows.length := here ▸ apt.inside
  obtain ⟨nodup, earlier⟩ := apt.nodup_passed
  cases errand with
  | carry record sync place passed =>
      cases here
      have put := spread_changed spaced split (shaped.place record sync)
        (window.place_base record sync) (window.place_fixedEnd record sync)
      have went := put.trans (spread_next (put.capacity ▸ put.spaced) (windows_put split _))
      have successor := next_lt (chain.put front.length (window.place record sync).2)
        (Nat.lt_of_lt_of_le inside put.length_le)
      unfold attend
      dsimp only
      generalize window.place record sync = outcome at put went successor ⊢
      rcases outcome with ⟨fault | _ | _ | last, window'⟩
      · exact attended_ended put nofun
      · refine attended_single went ⟨?_, nodup, ?_⟩
        · exact successor.1 ▸ successor.2
        · exact successor.1 ▸ earlier
      · exact attended_ended put fun _ ended => (Except.ok.inj ended).symm
      · refine attended_single went ⟨?_, nodup, ?_⟩
        · exact successor.1 ▸ successor.2
        · exact successor.1 ▸ earlier
  | vacate place offset =>
      cases here
      unfold attend
      dsimp only
      split
      · have put := spread_changed spaced split (shaped.vacate offset) rfl rfl
        have went := put.trans (spread_next (put.capacity ▸ put.spaced) (windows_put split _))
        have successor := next_lt (chain.put front.length (window.vacate offset))
          (Nat.lt_of_lt_of_le inside put.length_le)
        exact attended_single went (Errand.apt_of_new (successor.1 ▸ successor.2) rfl)
      · exact attended_ended (.refl spaced) fun _ ended => (Except.ok.inj ended).symm
  | close place last =>
      cases here
      unfold attend
      dsimp only
      split
      · exact attended_ended (.refl spaced) nofun
      · rename_i within
        split
        · exact attended_ended (.refl spaced) fun _ ended => (Except.ok.inj ended).symm
        · rename_i opened
          obtain rfl := (split ▸ spaced).of_append.last_of_opened opened
          have alone : Spaced chain.capacity window.base [window] := (split ▸ spaced).of_append
          have closed : Spaced chain.capacity window.base [{ window with fixedEnd := some last }] :=
            alone.last_closed (by omega) (by omega)
          have put := spread_put spaced split closed
          refine ⟨put, ?_⟩
          rintro _ ⟨⟩ errand member
          obtain ⟨offset, _, rfl⟩ := List.mem_map.mp member
          exact Errand.apt_of_new (Nat.lt_of_lt_of_le inside put.length_le) rfl
  | sweep lsn place passed =>
      cases here
      unfold attend
      dsimp only
      split
      · exact attended_ended (.refl spaced) fun _ ended => (Except.ok.inj ended).symm
      · split
        · exact attended_single (.refl spaced) (Errand.apt_of_new inside rfl)
        · split
          · exact attended_ended (.refl spaced) fun _ ended => (Except.ok.inj ended).symm
          · have successor := next_lt chain inside
            refine attended_single (spread_next spaced split) ⟨?_, nodup, ?_⟩
            · exact successor.1 ▸ successor.2
            · exact successor.1 ▸ earlier

namespace Course

variable {course : Course}

/-- The windows are in line, the errands are where they should be, and there are none after a
fault. -/
structure Sound (first : Nat) (course : Course) : Prop where
  spaced : Spaced course.chain.capacity first course.chain.windows
  apt : ∀ errand ∈ course.errands, errand.Apt course.chain
  unfailed : course.errands ≠ [] → course.fault = none

/-- What a turn does to a sound course. -/
theorem Sound.turn (sound : course.Sound first) :
    course.turn.Sound first ∧ Spread first course.chain course.turn.chain := by
  unfold Course.turn
  cases errands : course.errands with
  | nil => exact ⟨sound, .refl sound.spaced⟩
  | cons errand later =>
      have apt := sound.apt errand (errands ▸ List.mem_cons_self)
      obtain ⟨front, window, back, split, here⟩ := exists_split apt.inside
      have attended := attended_attend sound.spaced split apt here.symm
      dsimp only
      rw [← here, window?_length split]
      dsimp only
      generalize course.chain.attend window errand = outcome at attended
      rcases outcome with ⟨fault | left, after⟩
      · refine ⟨⟨attended.spread.capacity ▸ attended.spread.spaced, nofun, ?_⟩, attended.spread⟩
        exact fun some_left => absurd rfl some_left
      · refine ⟨⟨attended.spread.capacity ▸ attended.spread.spaced, fun other member => ?_,
          fun _ => sound.unfailed (errands ▸ List.cons_ne_nil _ _)⟩, attended.spread⟩
        rcases List.mem_append.mp member with new | old
        · exact attended.apt left rfl other new
        · have was_apt := sound.apt other (errands ▸ List.mem_cons_of_mem _ old)
          exact { was_apt with
            inside := Nat.lt_of_lt_of_le was_apt.inside attended.spread.length_le }

/-- What some turns do to a sound course. -/
theorem Sound.after (sound : course.Sound first) (turns : Nat) :
    (course.after turns).Sound first ∧ Spread first course.chain (course.after turns).chain := by
  induction turns generalizing course with
  | zero => exact ⟨sound, .refl sound.spaced⟩
  | succ turns ih =>
      obtain ⟨sound_turn, spread⟩ := sound.turn
      obtain ⟨sound_after, spread_after⟩ := ih sound_turn
      exact ⟨sound_after, spread.trans spread_after⟩

end Course

end Chain

end Logbook

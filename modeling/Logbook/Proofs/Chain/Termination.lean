import Logbook.Proofs.Chain.Performed
import Logbook.Proofs.Chain.Settled

/-!
# Walks along a chain end

Whatever has happened to a chain before, each call on it comes to an end. A window that has no
slots left, because it was closed before its base, brings a walk no nearer to its number, but
it brings it nearer to the end of the chain; and behind the last window all windows are as long
as they can be. So no errand passes a window twice, and it makes no more windows than fit
between the base of the last one and its number, and one.
-/

namespace Logbook.Chain

open Windows

variable {α : Type} {first last lsn : Nat} {chain : Chain} {front back : List Window}
  {window : Window} {record : Record} {sync : Bool} {passed : List Nat}

/-! ### How many windows an errand makes -/

theorem lastBase_of_split (split : chain.windows = front ++ window :: back) :
    chain.lastBase = Windows.lastBase window.base (window :: back) := by
  have same : chain.lastBase = Windows.lastBase 0 chain.windows := by
    rw [Windows.lastBase, List.getLast?_eq_getElem?]
    rfl
  rw [same, split, lastBase_append_cons, lastBase_cons]

/-- The windows before the walk count for both sides. -/
theorem length_split_le {windows : List Window}
    (split : chain.windows = front ++ window :: back)
    (walked : windows.length ≤ (window :: back).length +
      stretch chain.capacity (Windows.lastBase window.base (window :: back)) lsn) :
    (front ++ windows).length ≤
      chain.windows.length + stretch chain.capacity chain.lastBase lsn := by
  rw [split, List.length_append, List.length_append, lastBase_of_split split, Nat.add_assoc]
  exact Nat.add_le_add_left walked _

/-- An errand ends, and makes few windows. -/
def Thrifty (chain : Chain) (errand : Errand) : Prop :=
  ∃ (result : Except WindowFault Unit) (windows : List Window),
    chain.Performs [errand] result windows ∧
      windows.length ≤
        chain.windows.length + stretch chain.capacity chain.lastBase (chain.target errand)

theorem Thrifty.of_performs {errand : Errand} {result : Except WindowFault α}
    {windows : List Window} (split : chain.windows = front ++ window :: back)
    (performs : chain.Performs [errand] result (front ++ windows))
    (walked : windows.length ≤ (window :: back).length + stretch chain.capacity
      (Windows.lastBase window.base (window :: back)) (chain.target errand)) :
    chain.Thrifty errand :=
  ⟨_, _, performs.map fun _ => (), length_split_le split walked⟩

theorem thrifty_carry (spaced : Spaced chain.capacity first chain.windows)
    (split : chain.windows = front ++ window :: back) :
    chain.Thrifty (.carry record sync front.length passed) := by
  have here := (split ▸ spaced).of_append
  exact .of_performs split (carriesOn _ _ _ _ _ _ _ passed rfl split here) (length_offer_le here)

/-- A record that goes on from a window, whatever its number. -/
theorem exists_performs_carry_next (spaced : Spaced chain.capacity window.base (window :: back))
    (split : chain.windows = front ++ window :: back) (record : Record) (sync : Bool)
    (passed : List Nat) : ∃ (result : Except WindowFault Nat) (windows : List Window),
      (chain.next front.length).2.Performs [.carry record sync (front.length + 1) passed] result
          (front ++ window.closeNaturally :: windows) ∧
        windows.length ≤ back.length +
          stretch chain.capacity (Windows.lastBase window.successorBase back) record.lsn := by
  cases back with
  | nil =>
      rw [next_of_last split]
      have performs := carriesOn chain.capacity record sync [] (chain.withWindows
          (front ++ [window.closeNaturally, chain.capacity.fresh window.successorBase]))
        (front ++ [window.closeNaturally]) (chain.capacity.fresh window.successorBase) passed rfl
        (by simp [withWindows]) linked_fresh.spaced
      -- The number may be below the base of the new window, which refuses it then.
      refine ⟨_, _, by simpa using performs, ?_⟩
      exact Nat.le_trans length_offer_fresh_le (Nat.le_add_left _ _)
  | cons second rest =>
      cases closed : window.fixedEnd with
      | none => cases spaced.last_of_opened closed
      | some last =>
          rw [next_of_inner split, Window.closeNaturally_of_fixedEnd closed]
          have performs := carriesOn chain.capacity record sync rest chain (front ++ [window])
            second passed rfl (by simp [split]) spaced.rest.from_first
          refine ⟨_, _, by simpa using performs, ?_⟩
          exact length_offer_le spaced.rest.from_first

theorem thrifty_vacate (spaced : Spaced chain.capacity first chain.windows)
    (split : chain.windows = front ++ window :: back) (offset : Nat) :
    chain.Thrifty (.vacate front.length offset) := by
  have here := (split ▸ spaced).of_append
  have at_place : chain.baseAt front.length = window.base := by
    rw [baseAt, window?_length split, Option.map_some, Option.getD_some]
  have rests : chain.attend window (.vacate front.length offset) = (.ok [], chain) →
      chain.Thrifty (.vacate front.length offset) := fun attended =>
    ⟨.ok (), chain.windows, .of_attend split rfl attended rfl (.nil () rfl), Nat.le_add_right _ _⟩
  cases found : window.slots[offset]? with
  | none => exact rests (by simp only [attend, found])
  | some slot =>
      cases slot with
      | empty | moved => exact rests (attend_vacate_of_unfilled found rfl _)
      | filled record sync =>
          have target : chain.target (.vacate front.length offset) = record.lsn := by
            rw [here.shaped.lsn_of_filled offset record sync found, ← at_place]
            rfl
          have vacated := here.shaped.vacate offset
          have spaced_put : Spaced (chain.put front.length (window.vacate offset)).capacity
              (window.vacate offset).base (window.vacate offset :: back) :=
            here.first_changed vacated rfl rfl
          obtain ⟨result, windows, performs, walked⟩ :=
            exists_performs_carry_next spaced_put (windows_put split _) record sync []
          refine .of_performs split (.of_attend split rfl (attend_vacate_of_filled found _)
            (capacity_next _ _) performs) ?_
          rw [target, lastBase_cons]
          exact @length_walked_le chain.capacity back windows (window.vacate offset) _ record.lsn
            vacated walked

theorem thrifty_close (spaced : Spaced chain.capacity first chain.windows)
    (split : chain.windows = front ++ window :: back) (last : Nat) :
    chain.Thrifty (.close front.length last) := by
  have one : 1 ≤ stretch chain.capacity (Windows.lastBase window.base (window :: back)) last :=
    Nat.le_add_right 1 _
  have closed : (closeFirst chain.capacity window back last).2.length ≤
      (window :: back).length + 1 := length_closeFirst_le (split ▸ spaced).of_append
  exact .of_performs split (performs_close rfl split spaced last)
    (Nat.le_trans closed (Nat.add_le_add_left one _))

theorem thrifty_sweep (spaced : Spaced chain.capacity first chain.windows)
    (split : chain.windows = front ++ window :: back) :
    chain.Thrifty (.sweep lsn front.length passed) :=
  .of_performs split (performs_sweep rfl split spaced)
    (length_closeThrough_le (split ▸ spaced).of_append)

/-- No errand at a window of the chain goes on for ever. -/
theorem Errand.Apt.thrifty {errand : Errand} (apt : errand.Apt chain)
    (spaced : Spaced chain.capacity first chain.windows) : chain.Thrifty errand := by
  obtain ⟨front, window, back, split, here⟩ := exists_split apt.inside
  cases errand with
  | carry record sync place passed =>
      cases here
      exact thrifty_carry spaced split
  | vacate place offset =>
      cases here
      exact thrifty_vacate spaced split offset
  | close place last =>
      cases here
      exact thrifty_close spaced split last
  | sweep lsn place passed =>
      cases here
      exact thrifty_sweep spaced split

/-! ### How a call ends -/

/-- Working off what a call sets out to do comes to an end, and to the same one as the call. -/
def Ends (chain : Chain) (call : Call) : Prop :=
  ∃ turns, ((chain.setOut call).after turns).errands = [] ∧
    ((chain.setOut call).after turns).chain.windows = (chain.call call).2.windows ∧
    ((chain.setOut call).after turns).fault = chain.fault? call

theorem ends_of_idle {call : Call} (idle : (chain.setOut call).errands = [])
    (windows : (chain.setOut call).chain.windows = (chain.call call).2.windows)
    (fault : (chain.setOut call).fault = chain.fault? call) : chain.Ends call :=
  ⟨0, idle, windows, fault⟩

theorem ends_of_performs {call : Call} {errand : Errand} {result : Except WindowFault α}
    {windows : List Window} (out : chain.setOut call = ⟨chain, [errand], none⟩)
    (performs : chain.Performs [errand] result windows)
    (windows_eq : (chain.call call).2.windows = windows)
    (fault_eq : chain.fault? call = windowFault? (result.mapError .invariant)) :
    chain.Ends call := by
  obtain ⟨done, _, done_windows, turns, reached⟩ := performs []
  rw [List.append_nil] at reached
  refine ⟨turns, ?_⟩
  rw [out, reached, windows_eq, fault_eq, ← done_windows]
  cases result with
  | ok value => exact ⟨rfl, rfl, rfl⟩
  | error fault => exact ⟨rfl, rfl, rfl⟩

theorem onSuffix_of_split {ε β : Type} (split : chain.windows = front ++ window :: back)
    (missing : Except ε β) (work : Window → List Window → Except ε β × List Window) :
    chain.onSuffix front.length missing work =
      ((work window back).1, chain.withWindows (front ++ (work window back).2)) := by
  simp [onSuffix, split]

/-- Where an append starts there is a window. -/
theorem Sound.start_lt (sound : Sound first chain) (lsn : Nat) :
    (if chain.baseAt chain.head ≤ lsn then chain.head else chain.tail) < chain.windows.length := by
  split
  · exact sound.head_lt
  · exact sound.tail_lt

theorem ends_append (sound : Sound first chain) (record : Record) (sync : Bool) :
    chain.Ends (.append record sync) := by
  cases failure : chain.failure with
  | some fault =>
      have failed : chain.append record sync = (.error (.durability fault), chain) := by
        simp only [append, failure]
      refine ends_of_idle ?_ ?_ ?_
      · simp [setOut, failure]
      · simp [setOut, call, failed]
      · simp [setOut, fault?, failed, windowFault?]
  | none =>
      have start_lt := sound.start_lt record.lsn
      generalize start_eq :
        (if chain.baseAt chain.head ≤ record.lsn then chain.head else chain.tail) = start
        at start_lt
      obtain ⟨front, window, back, split, rfl⟩ := exists_split start_lt
      have here := (split ▸ sound.linked.spaced).of_append
      have performs :=
        carriesOn chain.capacity record sync back chain front window [] rfl split here
      have worked : (chain.append record sync).2.windows =
            front ++ (offer chain.capacity record sync window.base (window :: back)).2 ∧
          windowFault? (chain.append record sync).1 = windowFault?
            ((offer chain.capacity record sync window.base (window :: back)).1.mapError
              .invariant) := by
        unfold append
        rw [failure]
        simp only [start_eq, onSuffix_of_split split]
        generalize offer chain.capacity record sync window.base (window :: back) = outcome
        rcases outcome with ⟨fault | passed, after⟩
        · exact ⟨rfl, rfl⟩
        · dsimp only
          split
          · exact ⟨rfl, rfl⟩
          · exact ⟨rfl, rfl⟩
      refine ends_of_performs ?_ performs worked.1 worked.2
      simp [setOut, failure, start_eq]

/-- A window that has a slot for a record takes part in a walk as in a call of its own. -/
theorem offerFirst_eq (inside : record.lsn < window.base + window.slots.length)
    (capacity : Capacity) :
    offerFirst capacity record sync window back =
      ((offer capacity record sync window.base (window :: back)).1.map fun _ => true,
        (offer capacity record sync window.base (window :: back)).2) := by
  have placed := window.placed record sync
  rw [offer, offerFirst]
  generalize window.place record sync = outcome at placed
  cases placed with
  | past le_lsn => exact absurd inside (Nat.not_lt.mpr le_lsn)
  | below | taken | kept => rfl
  | beyond offset last lsn_eq found closed =>
      dsimp only
      generalize offer capacity record sync (last + 1) back = offered
      rcases offered with ⟨fault | value, after⟩
      · rfl
      · rfl

theorem offerFirst_of_outside (outside : ¬ record.lsn < window.base + window.slots.length)
    (capacity : Capacity) :
    offerFirst capacity record sync window back = (.ok false, window :: back) := by
  rw [offerFirst, Window.place_of_outside outside]

theorem windowFault?_map {β : Type} (f : α → β) (result : Except WindowFault α) :
    windowFault? ((result.map f).mapError .invariant) =
      windowFault? (result.mapError .invariant) := by
  cases result <;> rfl

theorem ends_appendAt (sound : Sound first chain) (place : Nat) (record : Record) (sync : Bool) :
    chain.Ends (.appendAt place record sync) := by
  by_cases present : place < chain.windows.length
  · obtain ⟨front, window, back, split, rfl⟩ := exists_split present
    have here := (split ▸ sound.linked.spaced).of_append
    have worked : chain.appendAt front.length record sync =
        ((offerFirst chain.capacity record sync window back).1.mapError .invariant,
          chain.withWindows (front ++ (offerFirst chain.capacity record sync window back).2)) := by
      rw [appendAt, onSuffix_of_split split]
    by_cases inside : record.lsn < window.base + window.slots.length
    · rw [offerFirst_eq inside] at worked
      have performs :=
        carriesOn chain.capacity record sync back chain front window [] rfl split here
      refine ends_of_performs ?_ performs ?_ ?_
      · simp [setOut, window?_length split, Window.capacity, inside]
      · simp [call, worked, withWindows]
      · simp [fault?, worked, windowFault?_map]
    · rw [offerFirst_of_outside inside] at worked
      refine ends_of_idle ?_ ?_ ?_
      · simp [setOut, window?_length split, Window.capacity, inside]
      · simp [setOut, call, worked, withWindows, split]
      · rw [fault?, worked]
        rfl
  · have absent : chain.windows.drop place = [] := List.drop_eq_nil_iff.mpr (Nat.not_lt.mp present)
    have missing : chain.window? place = none := List.getElem?_eq_none (Nat.not_lt.mp present)
    refine ends_of_idle ?_ ?_ ?_
    · simp [setOut, missing]
    · simp [setOut, call, appendAt, onSuffix, absent]
    · rw [fault?, appendAt, onSuffix, absent]
      rfl

theorem ends_closeAt (sound : Sound first chain) (place last : Nat) :
    chain.Ends (.closeAt place last) := by
  by_cases present : place < chain.windows.length
  · obtain ⟨front, window, back, split, rfl⟩ := exists_split present
    have worked : chain.closeAt front.length last =
        ((closeFirst chain.capacity window back last).1.mapError .invariant,
          chain.withWindows (front ++ (closeFirst chain.capacity window back last).2)) := by
      rw [closeAt, onSuffix_of_split split]
    refine ends_of_performs ?_ (performs_close rfl split sound.linked.spaced last) ?_ ?_
    · simp [setOut, present]
    · simp [call, worked, withWindows]
    · simp [fault?, worked]
  · have absent : chain.windows.drop place = [] := List.drop_eq_nil_iff.mpr (Nat.not_lt.mp present)
    refine ends_of_idle ?_ ?_ ?_
    · simp [setOut, present]
    · simp [setOut, call, closeAt, onSuffix, absent]
    · rw [fault?, closeAt, onSuffix, absent]
      rfl

theorem ends_closeThrough (sound : Sound first chain) (lsn : Nat) :
    chain.Ends (.closeThrough lsn) := by
  obtain ⟨front, window, back, split, tail_eq⟩ := exists_split sound.tail_lt
  have worked : chain.closeThrough lsn =
      ((Windows.closeThrough chain.capacity lsn window.base (window :: back)).1.mapError
          .invariant, chain.withWindows
        (front ++ (Windows.closeThrough chain.capacity lsn window.base (window :: back)).2)) := by
    rw [closeThrough, ← tail_eq, onSuffix_of_split split]
  have performs : chain.Performs [.sweep lsn front.length []] _ _ :=
    performs_sweep rfl split sound.linked.spaced
  refine ends_of_performs ?_ performs ?_ ?_
  · simp [setOut, tail_eq]
  · simp [call, worked, withWindows]
  · simp [fault?, worked]

/-- Every call on a sound chain ends. -/
theorem Sound.ends (sound : Sound first chain) (call : Call) : chain.Ends call := by
  cases call with
  | append record sync => exact ends_append sound record sync
  | appendAt place record sync => exact ends_appendAt sound place record sync
  | closeAt place last => exact ends_closeAt sound place last
  | next place => exact ends_of_idle rfl rfl rfl
  | closeThrough lsn => exact ends_closeThrough sound lsn

/-! ### What a call makes -/

theorem length_next_le (chain : Chain) (place : Nat) :
    (chain.next place).2.windows.length ≤ chain.windows.length + 1 := by
  unfold next
  split
  · rename_i window suffix
    have one := congrArg List.length suffix
    simp only [List.length_drop, List.length_singleton] at one
    simp only [withWindows, List.length_append, List.length_take, List.length_cons,
      List.length_nil]
    omega
  · exact Nat.le_succ _

/-- What a call has set out to do: nothing any more, or one thing. -/
inductive SetOut (first : Nat) (chain : Chain) (call : Call) : Course → Prop where
  | idle (after : Chain) (spaced : Spaced after.capacity first after.windows)
      (length_le : after.windows.length ≤ chain.windows.length + 1) :
      SetOut first chain call ⟨after, [], none⟩
  | errand (errand : Errand) (inside : errand.place < chain.windows.length)
      (new : errand.passed = []) (target_eq : chain.target errand = call.target) :
      SetOut first chain call ⟨chain, [errand], none⟩

theorem setOut_cases (sound : Sound first chain) (call : Call) :
    SetOut first chain call (chain.setOut call) := by
  have idle : SetOut first chain call ⟨chain, [], none⟩ :=
    .idle chain sound.linked.spaced (Nat.le_succ _)
  cases call with
  | append record sync =>
      unfold setOut
      dsimp only
      split
      · exact idle
      · exact .errand _ (sound.start_lt record.lsn) rfl rfl
  | appendAt place record sync =>
      unfold setOut
      dsimp only
      split
      · rename_i inside
        obtain ⟨window, here, _⟩ := (Option.any_eq_true _ _).mp inside
        exact .errand _ (List.getElem?_eq_some_iff.mp here).1 rfl rfl
      · exact idle
  | closeAt place last =>
      unfold setOut
      dsimp only
      split
      · rename_i present
        exact .errand _ present rfl rfl
      · exact idle
  | next place =>
      have called : Sound first (chain.next place).2 := sound_react sound (.called (.next place))
      exact .idle _ called.linked.spaced (length_next_le chain place)
  | closeThrough lsn => exact .errand _ sound.tail_lt rfl rfl

theorem SetOut.sound {call : Call} {course : Course} (out : SetOut first chain call course)
    (spaced : Spaced chain.capacity first chain.windows) : course.Sound first := by
  cases out with
  | idle after spaced => exact ⟨spaced, nofun, fun _ => rfl⟩
  | errand errand inside new =>
      refine ⟨spaced, fun other member => ?_, fun _ => rfl⟩
      rw [List.mem_singleton.mp member]
      exact Errand.apt_of_new inside new

namespace Course

variable {course : Course} {errand : Errand} {later : List Errand}

/-- The errand that comes first is done with after some more turns, unless a fault ends the call
before. By then at most this many windows have been made for it: one, and as many as fit between
the base of the last window and the number that the errand is after. -/
def Dispatches (course : Course) (errand : Errand) (later : List Errand) : Prop :=
  ∃ turns, ((course.after turns).errands = later ∨
      (course.after turns).errands = [] ∧ (course.after turns).fault ≠ none) ∧
    (course.after turns).chain.windows.length ≤ course.chain.windows.length +
      (1 + (course.chain.target errand - course.chain.lastBase) / course.chain.capacity.slots)

theorem Sound.dispatches (sound : course.Sound first) (next : course.errands = errand :: later) :
    course.Dispatches errand later := by
  have unfailed : course.fault = none := sound.unfailed (next ▸ List.cons_ne_nil _ _)
  have apt : errand.Apt course.chain := sound.apt errand (next ▸ List.mem_cons_self)
  obtain ⟨result, windows, performs, few⟩ := apt.thrifty sound.spaced
  obtain ⟨done, _, done_windows, turns, reached⟩ := performs later
  have same : course = ⟨course.chain, [errand] ++ later, none⟩ := by
    rw [← unfailed, List.singleton_append, ← next]
  rw [← same] at reached
  refine ⟨turns, ?_⟩
  rw [reached]
  cases result with
  | ok value => exact ⟨.inl rfl, done_windows ▸ few⟩
  | error fault => exact ⟨.inr ⟨rfl, nofun⟩, done_windows ▸ few⟩

/-- Where nothing is left to do there is one way to have got there. -/
theorem after_eq_of_done {turns more : Nat} (done : (course.after turns).errands = [])
    (done' : (course.after more).errands = []) : course.after turns = course.after more := by
  rw [← after_of_done done more, ← after_add, Nat.add_comm, after_add, after_of_done done' turns]

end Course

/-- A call on a chain comes to an end without going round in circles. -/
structure Terminates (chain : Chain) (call : Call) : Prop where
  /-- Turn by turn what the call has to do comes to an end, and to the end that the call has. -/
  ends : chain.Ends call
  /-- At no time has an errand passed a window twice, nor the window where it is. -/
  once : ∀ turns, ∀ errand ∈ ((chain.setOut call).after turns).errands,
    (errand.place :: errand.passed).Nodup
  /-- For no errand many windows are made. -/
  few : ∀ turns errand later, ((chain.setOut call).after turns).errands = errand :: later →
    ((chain.setOut call).after turns).Dispatches errand later
  /-- Nor are they for all errands of a call. -/
  made : (chain.call call).2.windows.length ≤
    chain.windows.length + (1 + (call.target - chain.lastBase) / chain.capacity.slots)

/-- Every call on a sound chain terminates. -/
theorem Sound.terminates (sound : Sound first chain) (call : Call) : chain.Terminates call := by
  have out := setOut_cases sound call
  have sound_out := out.sound sound.linked.spaced
  refine ⟨sound.ends call, fun turns errand member => ?_, fun turns errand later next => ?_, ?_⟩
  · exact ((sound_out.after turns).1.apt errand member).nodup_passed.1
  · exact (sound_out.after turns).1.dispatches next
  · obtain ⟨turns, done, windows, _⟩ := sound.ends call
    rw [← windows]
    generalize chain.setOut call = course at out sound_out done
    cases out with
    | idle after spaced length_le =>
        rw [Course.after_of_done rfl]
        exact Nat.le_trans length_le (Nat.add_le_add_left (Nat.le_add_right 1 _) _)
    | errand errand inside new target_eq =>
        obtain ⟨more, ended, few⟩ := sound_out.dispatches rfl
        have done' : _ = [] := ended.elim id And.left
        rw [Course.after_eq_of_done done done', ← target_eq]
        exact few

namespace Watch

theorem sound_run {watch : Watch} (sound : Sound first watch.chain) (events : List Event) :
    Sound first (watch.run events).chain := by
  induction events generalizing watch with
  | nil => exact sound
  | cons event events ih => exact ih (sound_react sound event)

/-- Whatever has happened to a new chain, every call on it terminates. -/
theorem terminates_run (first capacity poolLimit : Nat) (events : List Event) (call : Call) :
    ((start (.create first capacity poolLimit)).run events).chain.Terminates call :=
  (sound_run (sound_create first capacity poolLimit) events).terminates call

/-- Two windows that were closed before their base, which is the base of a third one too. -/
example :
    let chain := ((start (.create 1 4 0)).run [.called (.closeAt 0 0), .called (.next 0),
      .called (.closeAt 1 0), .called (.next 1)]).chain
    ((chain.setOut (.append ⟨1, 0, []⟩ false)).after 2).errands =
      [.carry ⟨1, 0, []⟩ false 2 [1, 0]] := by
  decide

end Watch

end Logbook.Chain

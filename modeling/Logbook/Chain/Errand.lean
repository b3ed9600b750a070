import Logbook.Chain.Call

/-!
# Errands along a chain

A call on a chain is worked off in turns. A turn looks at one window, and either is done with
it or goes on to its successor, which is made if there is none. What is left to do is a list
of errands: a record that is looking for its window, a slot whose record has to go on, a
window to be closed, a number that windows are closed up to. Sending a record on is itself an
errand that comes before the others, so loops within loops are one list.

Each errand keeps the places of the windows that it has passed. Nothing here says how many
turns there will be.
-/

namespace Logbook

namespace Window

/-- The offsets of the slots past `last`. -/
def beyond (window : Window) (last : Nat) : List Nat :=
  List.range' (last + 1 - window.base) (window.capacity - (last + 1 - window.base))

/-- The window when the record in a slot goes on. -/
def vacate (window : Window) (offset : Nat) : Window :=
  { window with slots := window.slots.set offset .moved }

end Window

namespace Chain

/-- Something to be done at a window of the chain. -/
inductive Errand where
  /-- Offer a record to the window at a place, and to later ones until one holds it. -/
  | carry (record : Record) (sync : Bool) (place : Nat) (passed : List Nat)
  /-- Send the record in a slot, if there is one, on to later windows. -/
  | vacate (place offset : Nat)
  /-- Close the window at a place. -/
  | close (place last : Nat)
  /-- Close the windows from the one at a place on, up to a number. -/
  | sweep (lsn place : Nat) (passed : List Nat)
deriving DecidableEq, Repr

namespace Errand

/-- The place of the window that the errand comes to next. -/
def place : Errand → Nat
  | carry _ _ place _ | vacate place _ | close place _ | sweep _ place _ => place

/-- The places of the windows that the errand has passed, the latest first. -/
def passed : Errand → List Nat
  | carry _ _ _ passed | sweep _ _ passed => passed
  | vacate _ _ | close _ _ => []

end Errand

/-- Put a window into a place. -/
def put (chain : Chain) (place : Nat) (window : Window) : Chain :=
  { chain with windows := chain.windows.set place window }

/-- Attend to an errand at its window. The result is what is left of the errand. -/
def attend (chain : Chain) (window : Window) : Errand → Except WindowFault (List Errand) × Chain
  | .carry record sync place passed =>
      match window.place record sync with
      | (.refused fault, window) => (.error fault, chain.put place window)
      | (.kept, window) => (.ok [], chain.put place window)
      | (.past, window) | (.beyond _, window) =>
          let (successor, chain) := (chain.put place window).next place
          (.ok [.carry record sync successor (place :: passed)], chain)
  | .vacate place offset =>
      match window.slots[offset]? with
      | some (.filled record sync) =>
          let (successor, chain) := (chain.put place (window.vacate offset)).next place
          (.ok [.carry record sync successor []], chain)
      | _ => (.ok [], chain)
  | .close place last =>
      if last < window.base - 1 ∨ window.naturalEnd < last then
        (.error (.endOutOfRange window.base window.naturalEnd last), chain)
      else
        match window.fixedEnd with
        | some _ => (.ok [], chain)
        | none =>
            (.ok ((window.beyond last).map (.vacate place)),
              chain.put place { window with fixedEnd := some last })
  | .sweep lsn place passed =>
      if lsn < window.base then (.ok [], chain)
      else if lsn ≤ window.naturalEnd ∧ window.fixedEnd = none then (.ok [.close place lsn], chain)
      else if lsn ≤ window.naturalEnd ∧ lsn ≤ window.fixedEnd.getD 0 then (.ok [], chain)
      else
        let (successor, chain) := chain.next place
        (.ok [.sweep lsn successor (place :: passed)], chain)

/-- A call that is being worked off. -/
structure Course where
  chain : Chain
  /-- What is left to do, in order. -/
  errands : List Errand
  /-- What ended the call early, if anything did. -/
  fault : Option WindowFault
deriving Repr

namespace Course

/-- The course after one more turn. A fault ends it. -/
def turn (course : Course) : Course :=
  match course.errands with
  | [] => course
  | errand :: later =>
      match course.chain.window? errand.place with
      | none => { course with errands := later }
      | some window =>
          match course.chain.attend window errand with
          | (.ok left, chain) => { course with chain := chain, errands := left ++ later }
          | (.error fault, chain) => ⟨chain, [], some fault⟩

/-- The course after some more turns. -/
def after (course : Course) : (turns : Nat) → Course
  | 0 => course
  | turns + 1 => course.turn.after turns

@[simp]
theorem after_zero (course : Course) : course.after 0 = course :=
  rfl

theorem after_succ (course : Course) (turns : Nat) :
    course.after (turns + 1) = course.turn.after turns :=
  rfl

theorem after_add (course : Course) (turns more : Nat) :
    course.after (turns + more) = (course.after turns).after more := by
  induction turns generalizing course with
  | zero => rw [Nat.zero_add, after_zero]
  | succ turns ih => rw [Nat.succ_add, after_succ, after_succ, ih]

/-- Nothing happens once there is nothing left to do. -/
theorem after_of_done {course : Course} (done : course.errands = []) (turns : Nat) :
    course.after turns = course := by
  induction turns with
  | zero => rfl
  | succ turns ih =>
      have rests : course.turn = course := by
        rw [turn, done]
      rw [after_succ, rests, ih]

end Course

/-- What a call sets out to do. A failed chain takes no record, and a window takes none that
lies past its slots. At a place without a window there is nothing to do. -/
def setOut (chain : Chain) : Call → Course
  | .append record sync =>
      let start := if chain.baseAt chain.head ≤ record.lsn then chain.head else chain.tail
      ⟨chain, if chain.failure.isSome then [] else [.carry record sync start []], none⟩
  | .appendAt place record sync =>
      let inside := (chain.window? place).any fun window =>
        record.lsn < window.base + window.capacity
      ⟨chain, if inside then [.carry record sync place []] else [], none⟩
  | .closeAt place last =>
      ⟨chain, if place < chain.windows.length then [.close place last] else [], none⟩
  | .next place => ⟨(chain.next place).2, [], none⟩
  | .closeThrough lsn => ⟨chain, [.sweep lsn chain.tail []], none⟩

end Chain

/-- The fault of a window that a call ended with. -/
def windowFault? {α : Type} : Except LogError α → Option WindowFault
  | .error (.invariant fault) => some fault
  | _ => none

namespace Chain

/-- The fault of a window that a call ends with. -/
def fault? (chain : Chain) : Call → Option WindowFault
  | .append record sync => windowFault? (chain.append record sync).1
  | .appendAt place record sync => windowFault? (chain.appendAt place record sync).1
  | .closeAt place last => windowFault? (chain.closeAt place last).1
  | .next _ => none
  | .closeThrough lsn => windowFault? (chain.closeThrough lsn).1

/-- The base of the last window. -/
def lastBase (chain : Chain) : Nat := chain.baseAt (chain.windows.length - 1)

/-- The number that an errand is after. -/
def target (chain : Chain) : Errand → Nat
  | .carry record _ _ _ => record.lsn
  | .vacate place offset => chain.baseAt place + offset
  | .close _ last => last
  | .sweep lsn _ _ => lsn

/-- The number that a call is after, if it is after one. -/
def Call.target : Call → Nat
  | .append record _ | .appendAt _ record _ => record.lsn
  | .closeAt _ last => last
  | .next _ => 0
  | .closeThrough lsn => lsn

end Chain

end Logbook

import Logbook.Window

/-!
# Walking along windows

Windows follow one another: the base of a window is one past the end of the one
before it. A record is offered to one window after the other until one takes
it; a window that the walk passes is closed at its natural end, and where the
windows run out new ones are made. The walk goes down the list of existing
windows and then up through the sequence numbers, so it ends.

Each function takes the base that the first window would have if it had to be
made, which is the number after the end of the window before it.
-/

namespace Logbook

/-- The number of slots of a window, at least one. -/
structure Capacity where
  slots : Nat
  positive : 0 < slots
deriving DecidableEq, Repr

namespace Capacity

/-- A given number of slots, or one in place of none. -/
def atLeastOne (slots : Nat) : Capacity := ⟨max slots 1, by omega⟩

/-- An open window of this capacity. -/
def fresh (capacity : Capacity) (base : Nat) : Window := Window.fresh capacity.slots base

end Capacity

namespace Windows

/-- Make windows from `base` on until one has a slot for the record. The result
is the number of windows that were passed, and the windows. -/
def make (capacity : Capacity) (record : Record) (sync : Bool) (base : Nat) :
    Nat × List Window :=
  if record.lsn < base + capacity.slots then
    (0, [((capacity.fresh base).place record sync).2])
  else
    let (passed, windows) := make capacity record sync (base + capacity.slots)
    (passed + 1, (capacity.fresh base).closeNaturally :: windows)
termination_by record.lsn - base
decreasing_by
  have := capacity.positive
  omega

/-- Offer a record to the windows in turn. The result is the number of windows
that were passed before one had a slot for the record. -/
def offer (capacity : Capacity) (record : Record) (sync : Bool) :
    (base : Nat) → List Window → Except WindowFault Nat × List Window
  | base, [] =>
      let (passed, windows) := make capacity record sync base
      (.ok passed, windows)
  | _, window :: rest =>
      match window.place record sync with
      | (.refused fault, window) => (.error fault, window :: rest)
      | (.kept, window) => (.ok 0, window :: rest)
      | (.beyond last, window) =>
          let (result, rest) := offer capacity record sync (last + 1) rest
          (result.map fun _ => 0, window :: rest)
      | (.past, window) =>
          let (result, rest) := offer capacity record sync window.successorBase rest
          (result.map (· + 1), window.closeNaturally :: rest)

/-- Offer a record to the first window only: `false` if it lies past it. -/
def offerFirst (capacity : Capacity) (record : Record) (sync : Bool) (window : Window)
    (rest : List Window) : Except WindowFault Bool × List Window :=
  match window.place record sync with
  | (.refused fault, window) => (.error fault, window :: rest)
  | (.kept, window) => (.ok true, window :: rest)
  | (.past, window) => (.ok false, window :: rest)
  | (.beyond last, window) =>
      let (result, rest) := offer capacity record sync (last + 1) rest
      (result.map fun _ => true, window :: rest)

/-- Send the records in some slots on to later windows, one after the other. -/
def relocate (capacity : Capacity) (base : Nat) :
    List Slot → List Window → Except WindowFault Unit × List Slot × List Window
  | [], windows => (.ok (), [], windows)
  | .filled record sync :: slots, windows =>
      match offer capacity record sync base windows with
      | (.error fault, windows) => (.error fault, .moved :: slots, windows)
      | (.ok _, windows) =>
          let (result, slots, windows) := relocate capacity base slots windows
          (result, .moved :: slots, windows)
  | slot :: slots, windows =>
      let (result, slots, windows) := relocate capacity base slots windows
      (result, slot :: slots, windows)

/-- Close the first window at `last`; the result is whether that is the end now
in force. Only the first close fixes the end, and records past it go on. -/
def closeFirst (capacity : Capacity) (window : Window) (rest : List Window) (last : Nat) :
    Except WindowFault Bool × List Window :=
  if last < window.base - 1 ∨ window.naturalEnd < last then
    (.error (.endOutOfRange window.base window.naturalEnd last), window :: rest)
  else
    match window.fixedEnd with
    | some fixed => (.ok (fixed = last), window :: rest)
    | none =>
        let kept := window.keptSlots last
        let (result, beyond, rest) :=
          relocate capacity (last + 1) (window.slots.drop kept.length) rest
        (result.map fun _ => true,
          { window with slots := kept ++ beyond, fixedEnd := some last } :: rest)

/-- Make windows from `base` on, closed at their natural ends, until one can be
closed at `lsn`. -/
def makeClosed (capacity : Capacity) (lsn base : Nat) : List Window :=
  if lsn < base then [capacity.fresh base]
  else if lsn < base + capacity.slots then
    [{ capacity.fresh base with fixedEnd := some lsn }]
  else
    (capacity.fresh base).closeNaturally :: makeClosed capacity lsn (base + capacity.slots)
termination_by lsn - base
decreasing_by
  have := capacity.positive
  omega

/-- Close the windows up to `lsn`: the one that has a slot for it at `lsn`, those
before it at their natural ends, each unless it is closed already. -/
def closeThrough (capacity : Capacity) (lsn : Nat) :
    (base : Nat) → List Window → Except WindowFault Unit × List Window
  | base, [] => (.ok (), makeClosed capacity lsn base)
  | _, window :: rest =>
      if lsn < window.base then (.ok (), window :: rest)
      else if lsn ≤ window.naturalEnd ∧ window.fixedEnd = none then
        let (result, windows) := closeFirst capacity window rest lsn
        (result.map fun _ => (), windows)
      else if lsn ≤ window.naturalEnd ∧ lsn ≤ window.fixedEnd.getD 0 then
        (.ok (), window :: rest)
      else
        let (result, rest) := closeThrough capacity lsn window.successorBase rest
        (result, window.closeNaturally :: rest)

end Windows

end Logbook

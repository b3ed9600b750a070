import Logbook.Error
import Logbook.Record

/-!
# Windows

A window is a stretch of consecutive sequence numbers with one slot for each.
It starts open. Closing it fixes its last number, which may be anything from
just below its base, where it keeps nothing, to its natural end, where it keeps
as much as it has slots. A record that comes to a slot past a fixed end does not
stay: its slot is spent, and the record has to go on to a later window.
-/

namespace Logbook

/-- One position of a window. A slot takes one record in its life. -/
inductive Slot where
  | empty
  /-- Holds a record, and whether the record was appended with a sync request. -/
  | filled (record : Record) (sync : Bool)
  /-- Held a record that has gone on to a later window. -/
  | moved
deriving DecidableEq, Repr

namespace Slot

/-- The record that a slot holds. -/
def record? : Slot → Option Record
  | filled record _ => some record
  | _ => none

/-- The slot after its record, if it has one, has gone on. -/
def vacate : Slot → Slot
  | filled _ _ => moved
  | slot => slot

/-- Whether a slot holds a record. -/
def isFilled : Slot → Bool
  | filled _ _ => true
  | _ => false

end Slot

/-- How the write of a window ended. -/
abbrev WriteOutcome := Except DurabilityFailure Unit

/-- A stretch of the log. -/
structure Window where
  /-- The first sequence number of the window. -/
  base : Nat
  /-- A slot for each sequence number from the base on. -/
  slots : List Slot
  /-- The last sequence number, once the window is closed. -/
  fixedEnd : Option Nat
  /-- The highest number that came with a sync request, or zero. -/
  syncRequested : Nat
  /-- Records that came to this window, those that went on included. -/
  arrivals : Nat
  /-- How the write of the window ended, once it has. -/
  outcome : Option WriteOutcome
deriving Repr

/-- What became of a record that was offered to one window. -/
inductive Placement where
  | refused (fault : WindowFault)
  /-- The record lies past the slots of the window. -/
  | past
  /-- The window holds the record. -/
  | kept
  /-- The record took its slot, but the window ends at `fixedEnd`, before it. -/
  | beyond (fixedEnd : Nat)
deriving DecidableEq, Repr

namespace Window

/-- An open window without records. -/
def fresh (capacity : Nat) (base : Nat) : Window where
  base := base
  slots := List.replicate capacity .empty
  fixedEnd := none
  syncRequested := Lsn.none
  arrivals := 0
  outcome := none

/-- The number of slots. -/
def capacity (window : Window) : Nat := window.slots.length

/-- The last number that has a slot. It is the sum of the words where the number after it
is a word too. -/
def naturalEnd (window : Window) : Nat := window.base + window.capacity - 1

/-- Whether the last number of the window is fixed. -/
def isClosed (window : Window) : Bool := window.fixedEnd.isSome

/-- Whether the window keeps no record: a closed window ends before its base, an
open one has seen no record. -/
def isEmpty (window : Window) : Bool :=
  match window.fixedEnd with
  | some last => last < window.base
  | none => window.arrivals = 0

/-- Whether a record that came to this window asked for a sync. -/
def isSyncRequested (window : Window) : Bool := window.base ≤ window.syncRequested

/-- Whether the writer has a reason to look at the window. -/
def hasWork (window : Window) : Bool := window.isClosed || 0 < window.arrivals

/-- The first number after the window, once it is closed; of an open window, the
one it has when it is closed at its natural end. The end of a window that has a
successor is below the last word. -/
def successorBase (window : Window) : Nat := window.fixedEnd.getD window.naturalEnd + 1

/-- The window, closed at its natural end unless it is closed already. -/
def closeNaturally (window : Window) : Window :=
  { window with fixedEnd := some (window.fixedEnd.getD window.naturalEnd) }

/-- Note a sync request for a record that has a slot here. -/
def noteSync (window : Window) (lsn : Nat) (sync : Bool) : Window :=
  if sync then { window with syncRequested := max window.syncRequested lsn } else window

/-- Put a record, or the mark of one that goes on, into a slot. -/
def occupy (window : Window) (offset : Nat) (slot : Slot) : Window :=
  { window with slots := window.slots.set offset slot, arrivals := window.arrivals + 1 }

/-- Offer a record to the window. A sync request is noted as soon as the record
turns out to have a slot here, also if the slot then is taken. -/
def place (window : Window) (record : Record) (sync : Bool) : Placement × Window :=
  if record.lsn < window.base then (.refused (.belowBase record.lsn window.base), window)
  else
    let offset := record.lsn - window.base
    match window.slots[offset]? with
    | none => (.past, window)
    | some .empty =>
        let noted := window.noteSync record.lsn sync
        match window.fixedEnd.filter (· < record.lsn) with
        | some last => (.beyond last, noted.occupy offset .moved)
        | none => (.kept, noted.occupy offset (.filled record sync))
    | some _ => (.refused (.filledTwice record.lsn), window.noteSync record.lsn sync)

/-- The slots up to the fixed end of the window. -/
def keptSlots (window : Window) (last : Nat) : List Slot :=
  window.slots.take (last + 1 - window.base)

/-- The records of a closed window in order, `none` while one is missing. A
missing record will not come any more once the log has failed. -/
def contiguous (window : Window) (failure : Option DurabilityFailure) :
    Except LogError (Option (List Record)) :=
  match window.fixedEnd with
  | none => .error (.invariant (.stillOpen window.base))
  | some last =>
      let kept := window.keptSlots last
      if kept.all Slot.isFilled then .ok (some (kept.filterMap Slot.record?))
      else
        match failure with
        | some failure => .error (.durability failure)
        | none => .ok none

/-- Settle the outcome of the write, unless it is settled. -/
def settle (window : Window) (outcome : WriteOutcome) : Window :=
  { window with outcome := some (window.outcome.getD outcome) }

/-! ### What the parts of a step leave alone -/

@[simp]
theorem noteSync_base (window : Window) (lsn : Nat) (sync : Bool) :
    (window.noteSync lsn sync).base = window.base := by
  cases sync <;> rfl

@[simp]
theorem noteSync_slots (window : Window) (lsn : Nat) (sync : Bool) :
    (window.noteSync lsn sync).slots = window.slots := by
  cases sync <;> rfl

@[simp]
theorem noteSync_fixedEnd (window : Window) (lsn : Nat) (sync : Bool) :
    (window.noteSync lsn sync).fixedEnd = window.fixedEnd := by
  cases sync <;> rfl

@[simp]
theorem occupy_base (window : Window) (offset : Nat) (slot : Slot) :
    (window.occupy offset slot).base = window.base :=
  rfl

@[simp]
theorem occupy_slots (window : Window) (offset : Nat) (slot : Slot) :
    (window.occupy offset slot).slots = window.slots.set offset slot :=
  rfl

@[simp]
theorem occupy_fixedEnd (window : Window) (offset : Nat) (slot : Slot) :
    (window.occupy offset slot).fixedEnd = window.fixedEnd :=
  rfl

@[simp]
theorem closeNaturally_base (window : Window) : window.closeNaturally.base = window.base :=
  rfl

@[simp]
theorem closeNaturally_slots (window : Window) : window.closeNaturally.slots = window.slots :=
  rfl

@[simp]
theorem settle_base (window : Window) (outcome : WriteOutcome) :
    (window.settle outcome).base = window.base :=
  rfl

@[simp]
theorem settle_slots (window : Window) (outcome : WriteOutcome) :
    (window.settle outcome).slots = window.slots :=
  rfl

@[simp]
theorem settle_fixedEnd (window : Window) (outcome : WriteOutcome) :
    (window.settle outcome).fixedEnd = window.fixedEnd :=
  rfl

end Window

end Logbook

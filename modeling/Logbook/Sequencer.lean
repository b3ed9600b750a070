import Logbook.Lsn

/-!
# Allocation of sequence numbers

The sequencer hands out consecutive sequence numbers. Its counter is a 64-bit
word and wraps after the last one.
-/

namespace Logbook

/-- The next sequence number to hand out. -/
structure Sequencer where
  next : Nat
deriving DecidableEq, Repr

namespace Sequencer

/-- The number of values of the counter. -/
def wordSize : Nat := UInt64.size

/-- Hand out the next sequence number. -/
def allocate (sequencer : Sequencer) : Nat × Sequencer :=
  (sequencer.next, ⟨(sequencer.next + 1) % wordSize⟩)

/-- The sequence number handed out last. -/
def current (sequencer : Sequencer) : Nat :=
  sequencer.next - 1

end Sequencer

end Logbook

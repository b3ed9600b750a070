/-!
# Log sequence numbers

Every record of the log has a sequence number, and consecutive records have
consecutive numbers. Zero is the number of no record, and the first record of a
fresh log has number 100. On the wire a number is an eight-byte word; in the
logic it is a natural number, so order and arithmetic are those of `Nat`, and
the predecessor of zero is zero. A sum of numbers is the sum of the words only
below `2 ^ 64`: near the top of the range the words overflow, and the logic goes
on. The sums of an engine stay below as long as the numbers of one more window
do (`Engine.inWords_run`). Transactions are numbered in the same way.
-/

namespace Logbook

namespace Lsn

/-- The number of no record. -/
abbrev none : Nat := 0

/-- The number of the first record of a fresh log. -/
abbrev first : Nat := 100

/-- A sequence number as it appears in messages. -/
def text (lsn : Nat) : String := s!"lsn:{lsn}"

end Lsn

/-- A transaction number as it appears in messages. -/
def Transaction.text (txn : Nat) : String := s!"txn:{txn}"

end Logbook

import Logbook.Bytes
import Logbook.Lsn

/-!
# Log records

A record is the durable envelope of one encoded entry: its own sequence number,
the lowest sequence number that was still live when it was appended, and the
encoded entry.
-/

namespace Logbook

/-- One record of the log. -/
structure Record where
  lsn : Nat
  /-- The lowest live sequence number when the record was appended. -/
  lowest : Nat
  payload : Bytes
deriving DecidableEq, Repr

namespace Record

/-- The sequence number of the record before this one. -/
def previous (record : Record) : Nat := record.lsn - 1

/-- Bytes in front of every payload: tag, sequence number, marker and length. -/
def headerSize : Nat := 26

/-- Bytes that the record takes in a region. -/
def encodedLength (record : Record) : Nat := headerSize + record.payload.length

end Record

end Logbook

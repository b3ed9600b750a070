import Logbook.Bytes

/-!
# The Adler-32 checksum

The checksum keeps two 32-bit sums: one plus the sum of all bytes, and the sum
of the first sum over time, both modulo the prime 65521. Reduction is deferred:
a run of up to 5552 bytes is summed in plain 32-bit words before the sums are
reduced, and 5552 is the longest run for which the words cannot overflow.
-/

namespace Logbook

/-- The two running sums of an Adler-32 checksum. -/
structure Adler32 where
  a : UInt32
  b : UInt32
deriving DecidableEq, Repr

namespace Adler32

/-- The prime that both sums are taken modulo. -/
def modulus : UInt32 := 65521

/-- The number of bytes summed between two reductions. -/
def runLength : Nat := 5552

/-- The sums of no bytes. -/
def empty : Adler32 := ⟨1, 0⟩

/-- Add one byte without reducing. -/
def push (sums : Adler32) (byte : UInt8) : Adler32 :=
  let a := sums.a + byte.toUInt32
  ⟨a, sums.b + a⟩

/-- Reduce both sums. -/
def reduce (sums : Adler32) : Adler32 :=
  ⟨sums.a % modulus, sums.b % modulus⟩

/-- Add a byte string, reducing after every run. -/
def update (sums : Adler32) (data : Bytes) : Adler32 :=
  match data with
  | [] => sums
  | byte :: rest =>
      let run := (byte :: rest).take runLength
      update (run.foldl push sums).reduce ((byte :: rest).drop runLength)
termination_by data.length
decreasing_by
  simp only [List.length_drop, List.length_cons, runLength]
  omega

/-- The checksum: the second sum in the high half, the first in the low half. -/
def finish (sums : Adler32) : UInt32 :=
  (sums.b <<< 16) ||| sums.a

/-- The checksum of one byte string. -/
def checksum (data : Bytes) : UInt32 :=
  (empty.update data).finish

@[simp]
theorem update_nil (sums : Adler32) : sums.update [] = sums := by
  rw [update]

end Adler32

end Logbook

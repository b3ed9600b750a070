import Mathlib.Algebra.BigOperators.Fin
import Mathlib.Data.Nat.ModEq
import Logbook.Proofs.Adler32

/-!
# The rolling checksum

A checksum may be fed its data in pieces. Whatever the pieces are, both sums are what
Adler-32 says of the data as a whole: the first is one plus the bytes, and the second
counts each byte once for every byte from it on, and the one that the first sum starts
from once for every byte, both modulo the prime.

Reduction is deferred, so it has to be shown that no addition overflows in the meantime.
The words only grow during a run, so it is enough that they fit at its end, which the
length of a run is chosen for.
-/

namespace Logbook

/-- The sum of the bytes of a string, each taken once for every byte from it on. -/
def Bytes.weighted : Bytes → Nat
  | [] => 0
  | byte :: bytes => (bytes.length + 1) * byte.toNat + weighted bytes

namespace Bytes

theorem weighted_append (front back : Bytes) :
    weighted (front ++ back) = weighted front + back.length * total front + weighted back := by
  induction front with
  | nil => rw [List.nil_append, weighted, total, Nat.mul_zero, Nat.zero_add]
  | cons byte front ih =>
      have count : (front ++ back).length + 1 = (front.length + 1) + back.length := by
        rw [List.length_append]
        omega
      rw [List.cons_append, weighted, weighted, total, ih, count, Nat.add_mul, Nat.mul_add]
      omega

/-- Bytes are at most 255, and their weights are the numbers up to the length. -/
theorem two_mul_weighted_le (bytes : Bytes) :
    2 * weighted bytes ≤ 255 * (bytes.length * (bytes.length + 1)) := by
  induction bytes with
  | nil => exact Nat.zero_le _
  | cons byte bytes ih =>
      have byte_le : byte.toNat ≤ 255 := Nat.lt_succ_iff.mp byte.toNat_lt
      have here : (bytes.length + 1) * byte.toNat ≤ (bytes.length + 1) * 255 :=
        Nat.mul_le_mul_left _ byte_le
      have grown : (bytes.length + 1) * (bytes.length + 1 + 1) =
          bytes.length * (bytes.length + 1) + 2 * (bytes.length + 1) := by
        rw [Nat.mul_comm, ← Nat.add_mul]
      rw [weighted, List.length_cons, grown]
      omega

theorem total_eq_sum (bytes : Bytes) : total bytes = ∑ i : Fin bytes.length, bytes[i].toNat := by
  induction bytes with
  | nil => rfl
  | cons byte bytes ih =>
      rw [total, ih]
      exact (Fin.sum_univ_succ fun i : Fin (byte :: bytes).length => (byte :: bytes)[i].toNat).symm

theorem weighted_eq_sum (bytes : Bytes) :
    weighted bytes = ∑ i : Fin bytes.length, (bytes.length - i) * bytes[i].toNat := by
  induction bytes with
  | nil => rfl
  | cons byte bytes ih =>
      have later : ∀ i : Fin bytes.length,
          (bytes.length + 1 - (i.succ : Fin (bytes.length + 1))) * bytes[i].toNat =
            (bytes.length - i) * bytes[i].toNat := by
        intro i
        rw [Fin.val_succ, Nat.add_sub_add_right]
      rw [weighted, ih, ← Finset.sum_congr rfl fun i _ => later i]
      exact (Fin.sum_univ_succ fun i : Fin (byte :: bytes).length =>
        ((byte :: bytes).length - i) * (byte :: bytes)[i].toNat).symm

end Bytes

namespace Adler32

/-! ## Additions that refuse to overflow -/

/-- The sum of two words, if it fits a word. -/
def add? (left right : UInt32) : Option UInt32 :=
  if left.toNat + right.toNat < UInt32.size then some (left + right) else none

/-- Add one byte, if neither addition overflows. -/
def push? (sums : Adler32) (byte : UInt8) : Option Adler32 := do
  let a ← add? sums.a byte.toUInt32
  let b ← add? sums.b a
  return ⟨a, b⟩

/-- Add a byte string, if no addition on the way overflows. -/
def update? (sums : Adler32) (data : Bytes) : Option Adler32 :=
  match data with
  | [] => some sums
  | byte :: rest => do
      let summed ← ((byte :: rest).take runLength).foldlM push? sums
      update? summed.reduce ((byte :: rest).drop runLength)
termination_by data.length
decreasing_by
  simp only [List.length_drop, List.length_cons, runLength]
  omega

theorem add?_eq_some {left right : UInt32} (fits : left.toNat + right.toNat < UInt32.size) :
    add? left right = some (left + right) ∧
      (left + right).toNat = left.toNat + right.toNat := by
  constructor
  · exact if_pos fits
  · rw [UInt32.toNat_add]
    exact Nat.mod_eq_of_lt fits

/-- A run whose words fit at its end does not overflow on the way. -/
theorem push_run {sums : Adler32} {run : Bytes}
    (fits_a : sums.a.toNat + 255 * run.length < UInt32.size)
    (fits_b : sums.b.toNat + run.length * sums.a.toNat + run.weighted < UInt32.size) :
    run.foldlM push? sums = some (run.foldl push sums) ∧
      (run.foldl push sums).b.toNat = sums.b.toNat + run.length * sums.a.toNat + run.weighted := by
  induction run generalizing sums with
  | nil => exact ⟨rfl, by rw [List.foldl_nil, List.length_nil, Nat.zero_mul]; rfl⟩
  | cons byte run ih =>
      have toNat_byte : byte.toUInt32.toNat = byte.toNat := UInt8.toNat_toUInt32 byte
      have byte_lt := byte.toNat_lt
      rw [List.length_cons] at fits_a
      rw [List.length_cons, Bytes.weighted, Nat.add_mul, Nat.add_mul, Nat.one_mul,
        Nat.one_mul] at fits_b
      have room_a : sums.a.toNat + byte.toUInt32.toNat < UInt32.size := by omega
      obtain ⟨added_a, toNat_a⟩ := add?_eq_some room_a
      rw [toNat_byte] at toNat_a
      have room_b : sums.b.toNat + (sums.a + byte.toUInt32).toNat < UInt32.size := by omega
      obtain ⟨added_b, toNat_b⟩ := add?_eq_some room_b
      rw [toNat_a] at toNat_b
      have pushed : push? sums byte = some (sums.push byte) := by
        rw [push?, added_a, Option.bind_eq_bind, Option.bind_some, added_b]
        rfl
      have pushed_a : (sums.push byte).a.toNat = sums.a.toNat + byte.toNat := toNat_a
      have pushed_b : (sums.push byte).b.toNat =
          sums.b.toNat + (sums.a.toNat + byte.toNat) := toNat_b
      have rest := @ih (sums.push byte)
      rw [pushed_a, pushed_b, Nat.mul_add] at rest
      obtain ⟨summed, toNat_summed⟩ := rest (by omega) (by omega)
      constructor
      · rw [List.foldlM_cons, pushed, Option.bind_eq_bind, Option.bind_some]
        exact summed
      · rw [List.foldl_cons, toNat_summed, List.length_cons, Bytes.weighted, Nat.add_mul,
          Nat.add_mul, Nat.one_mul, Nat.one_mul]
        omega

/-! ## Whole strings -/

theorem eq_of_toNat {sums other : Adler32} (same_a : sums.a.toNat = other.a.toNat)
    (same_b : sums.b.toNat = other.b.toNat) : sums = other := by
  cases sums
  cases other
  exact congrArg₂ mk (UInt32.toNat_inj.mp same_a) (UInt32.toNat_inj.mp same_b)

/-- Both sums are below the prime. -/
structure Reduced (sums : Adler32) : Prop where
  a_lt : sums.a.toNat < modulus.toNat
  b_lt : sums.b.toNat < modulus.toNat

theorem reduced_empty : empty.Reduced :=
  ⟨by decide, by decide⟩

theorem toNat_b_reduce (sums : Adler32) : sums.reduce.b.toNat = sums.b.toNat % modulus.toNat := by
  rw [reduce, UInt32.toNat_mod]

theorem reduced_reduce (sums : Adler32) : sums.reduce.Reduced where
  a_lt := by
    rw [toNat_a_reduce]
    exact Nat.mod_lt _ (by decide)
  b_lt := by
    rw [toNat_b_reduce]
    exact Nat.mod_lt _ (by decide)

/-- From reduced sums on, the words have room for a run of the longest length. -/
theorem Reduced.room {sums : Adler32} (reduced : sums.Reduced) {run : Bytes}
    (short : run.length ≤ runLength) :
    sums.a.toNat + 255 * run.length < UInt32.size ∧
      sums.b.toNat + run.length * sums.a.toNat + run.weighted < UInt32.size := by
  have a_lt := reduced.a_lt
  have b_lt := reduced.b_lt
  rw [toNat_modulus] at a_lt b_lt
  have weighted_le := Bytes.two_mul_weighted_le run
  have squares : run.length * (run.length + 1) ≤ runLength * (runLength + 1) :=
    Nat.mul_le_mul short (Nat.succ_le_succ short)
  have carried : run.length * sums.a.toNat ≤ runLength * 65520 :=
    Nat.mul_le_mul short (Nat.lt_succ_iff.mp a_lt)
  unfold runLength at short squares carried
  unfold UInt32.size
  omega

/-- Sums that were reduced on the way are the same in the end. -/
theorem carried_mod (b a count more prime : Nat) :
    (b % prime + count * (a % prime) + more) % prime = (b + count * a + more) % prime :=
  ((Nat.mod_modEq b prime).add ((Nat.mod_modEq a prime).mul_left count)).add_right more

/-- No addition overflows, and the second sum gains what Adler-32 says, modulo the prime. -/
theorem Reduced.update {sums : Adler32} (reduced : sums.Reduced) (data : Bytes) :
    sums.update? data = some (sums.update data) ∧
      (sums.update data).Reduced ∧
      (sums.update data).b.toNat =
        (sums.b.toNat + data.length * sums.a.toNat + data.weighted) % modulus.toNat := by
  fun_induction Adler32.update sums data with
  | case1 sums =>
      refine ⟨by rw [update?], reduced, ?_⟩
      rw [List.length_nil, Nat.zero_mul]
      exact (Nat.mod_eq_of_lt reduced.b_lt).symm
  | case2 sums byte rest run ih =>
      have short : run.length ≤ runLength := List.length_take_le _ _
      obtain ⟨fits_a, fits_b⟩ := reduced.room short
      obtain ⟨summed, toNat_b⟩ := push_run fits_a fits_b
      obtain ⟨updated, reduced_after, toNat_after⟩ := ih (reduced_reduce _)
      refine ⟨?_, reduced_after, ?_⟩
      · rw [update?, summed, Option.bind_eq_bind, Option.bind_some]
        exact updated
      · have whole : byte :: rest = run ++ (byte :: rest).drop runLength :=
          (List.take_append_drop _ _).symm
        rw [toNat_after, toNat_b_reduce, toNat_a_reduce, carried_mod, toNat_b, toNat_a_foldl fits_a]
        conv => rhs; rw [whole, List.length_append, Bytes.weighted_append]
        congr 1
        rw [Nat.mul_add, Nat.add_mul]
        omega

/-- Nor does an addition overflow when the data come in pieces. -/
theorem Reduced.updates {sums : Adler32} (reduced : sums.Reduced) (pieces : List Bytes) :
    pieces.foldlM update? sums = some (pieces.foldl Adler32.update sums) ∧
      (pieces.foldl Adler32.update sums).Reduced := by
  induction pieces generalizing sums with
  | nil => exact ⟨rfl, reduced⟩
  | cons piece pieces ih =>
      obtain ⟨updated, reduced_after, -⟩ := reduced.update piece
      rw [List.foldlM_cons, updated, Option.bind_eq_bind, Option.bind_some, List.foldl_cons]
      exact ih reduced_after

/-- Two strings may as well be added as one. -/
theorem Reduced.update_append {sums : Adler32} (reduced : sums.Reduced) (front back : Bytes) :
    (sums.update front).update back = sums.update (front ++ back) := by
  obtain ⟨-, reduced_front, front_b⟩ := reduced.update front
  obtain ⟨-, -, back_b⟩ := reduced_front.update back
  obtain ⟨-, -, whole_b⟩ := reduced.update (front ++ back)
  apply eq_of_toNat
  · rw [toNat_a_update reduced_front.a_lt, toNat_a_update reduced.a_lt,
      toNat_a_update reduced.a_lt, Bytes.total_append, Nat.mod_add_mod, Nat.add_assoc]
  · rw [back_b, front_b, toNat_a_update reduced.a_lt, carried_mod, whole_b, List.length_append,
      Bytes.weighted_append, Nat.mul_add, Nat.add_mul]
    congr 1
    omega

/-- The sums of pieces are the sums of all the data. -/
theorem Reduced.foldl_update {sums : Adler32} (reduced : sums.Reduced) (pieces : List Bytes) :
    pieces.foldl Adler32.update sums = sums.update pieces.flatten := by
  induction pieces generalizing sums with
  | nil => exact (update_nil sums).symm
  | cons piece pieces ih =>
      obtain ⟨-, reduced_after, -⟩ := reduced.update piece
      rw [List.foldl_cons, ih reduced_after, List.flatten_cons, reduced.update_append]

/-- Reduced sums fit the two halves of a word. -/
theorem Reduced.toNat_finish {sums : Adler32} (reduced : sums.Reduced) :
    sums.finish.toNat = sums.b.toNat * 65536 + sums.a.toNat := by
  have a_lt : sums.a.toNat < 2 ^ 16 := Nat.lt_trans reduced.a_lt (by decide)
  have b_lt : sums.b.toNat < 2 ^ 16 := Nat.lt_trans reduced.b_lt (by decide)
  have shifted : (sums.b <<< 16).toNat = sums.b.toNat <<< 16 := by
    rw [UInt32.toNat_shiftLeft]
    apply Nat.mod_eq_of_lt
    change sums.b.toNat <<< 16 < 2 ^ 32
    rw [Nat.shiftLeft_eq]
    omega
  rw [finish, UInt32.toNat_or, shifted, ← Nat.shiftLeft_add_eq_or_of_lt a_lt, Nat.shiftLeft_eq]

/-! ## The checksum of all the data -/

/-- The first sum of Adler-32: one and all bytes. -/
def firstSum (data : Bytes) : Nat :=
  (1 + ∑ i : Fin data.length, data[i].toNat) % 65521

/-- The second sum of Adler-32: the first sums after each of the bytes, added up. -/
def secondSum (data : Bytes) : Nat :=
  (data.length + ∑ i : Fin data.length, (data.length - i) * data[i].toNat) % 65521

theorem toNat_finish_update (data : Bytes) :
    (empty.update data).finish.toNat = secondSum data * 65536 + firstSum data := by
  obtain ⟨-, reduced, toNat_b⟩ := reduced_empty.update data
  have empty_a : empty.a.toNat = 1 := rfl
  have empty_b : empty.b.toNat = 0 := rfl
  rw [reduced.toNat_finish, toNat_b, toNat_a_update reduced_empty.a_lt, empty_a, empty_b,
    Nat.zero_add, Nat.mul_one, secondSum, firstSum, ← Bytes.weighted_eq_sum,
    ← Bytes.total_eq_sum, toNat_modulus]

/-- Whatever pieces the data come in, no addition overflows, and the checksum is the
Adler-32 word of all the data and that of the data in one piece. -/
theorem finish_pieces (pieces : List Bytes) :
    pieces.foldlM update? empty = some (pieces.foldl update empty) ∧
      (pieces.foldl update empty).finish.toNat =
        secondSum pieces.flatten * 65536 + firstSum pieces.flatten ∧
      (pieces.foldl update empty).finish = checksum pieces.flatten := by
  obtain ⟨updated, -⟩ := reduced_empty.updates pieces
  refine ⟨updated, ?_, ?_⟩
  · rw [reduced_empty.foldl_update pieces]
    exact toNat_finish_update pieces.flatten
  · rw [reduced_empty.foldl_update pieces, checksum]

end Adler32

end Logbook

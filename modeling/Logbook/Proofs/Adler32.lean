import Mathlib.Algebra.Group.Nat.Defs
import Logbook.Adler32

/-!
# The first sum of a checksum

However its data are cut into byte strings and runs, the first sum of a checksum is one
plus the sum of all bytes, modulo the prime. It is the low half of the checksum. A byte is
less than the prime, so no single byte can change without changing it.
-/

namespace Logbook

/-- The sum of the bytes of a string. -/
def Bytes.total : Bytes → Nat
  | [] => 0
  | byte :: bytes => byte.toNat + total bytes

namespace Bytes

theorem total_append (front back : Bytes) : total (front ++ back) = total front + total back := by
  induction front with
  | nil => exact (Nat.zero_add _).symm
  | cons byte front ih => rw [List.cons_append, total, total, ih, Nat.add_assoc]

/-- Another byte in one place changes the sum by the difference of the two bytes. -/
theorem total_set {bytes : Bytes} {place : Nat} {old : UInt8} (found : bytes[place]? = some old)
    (new : UInt8) : total (bytes.set place new) + old.toNat = total bytes + new.toNat := by
  induction bytes generalizing place with
  | nil => cases found
  | cons byte bytes ih =>
      cases place with
      | zero =>
          cases found
          rw [List.set_cons_zero, total, total]
          omega
      | succ place =>
          have changed := ih found
          rw [List.set_cons_succ, total, total]
          omega

end Bytes

namespace Adler32

/-- The sums of a run start below the prime, and the run is too short to fill the word. -/
theorem toNat_a_foldl {sums : Adler32} {run : Bytes}
    (room : sums.a.toNat + 255 * run.length < UInt32.size) :
    (run.foldl push sums).a.toNat = sums.a.toNat + run.total := by
  induction run generalizing sums with
  | nil => rfl
  | cons byte run ih =>
      have byte_lt := byte.toNat_lt
      rw [List.length_cons] at room
      have pushed : (sums.push byte).a.toNat = sums.a.toNat + byte.toNat := by
        rw [push, UInt32.toNat_add, UInt8.toNat_toUInt32]
        exact Nat.mod_eq_of_lt (by unfold UInt32.size at room; omega)
      rw [List.foldl_cons, ih (by rw [pushed]; omega), pushed, Bytes.total, Nat.add_assoc]

theorem toNat_a_reduce (sums : Adler32) : sums.reduce.a.toNat = sums.a.toNat % modulus.toNat := by
  rw [reduce, UInt32.toNat_mod]

theorem toNat_modulus : modulus.toNat = 65521 :=
  rfl

/-- The first sum gains the bytes, modulo the prime. -/
theorem toNat_a_update {sums : Adler32} (reduced : sums.a.toNat < modulus.toNat) (data : Bytes) :
    (sums.update data).a.toNat = (sums.a.toNat + data.total) % modulus.toNat := by
  fun_induction update sums data with
  | case1 sums => exact (Nat.mod_eq_of_lt reduced).symm
  | case2 sums byte rest run ih =>
      have short : run.length ≤ 5552 := List.length_take_le _ _
      have room : sums.a.toNat + 255 * run.length < UInt32.size := by
        rw [toNat_modulus] at reduced
        unfold UInt32.size
        omega
      have whole : Bytes.total (byte :: rest) =
          Bytes.total run + Bytes.total ((byte :: rest).drop runLength) := by
        rw [← Bytes.total_append, List.take_append_drop]
      rw [ih (by rw [toNat_a_reduce]; exact Nat.mod_lt _ (by decide)), toNat_a_reduce,
        toNat_a_foldl room, Nat.mod_add_mod, whole, Nat.add_assoc]

theorem a_lt_modulus_of_update {sums : Adler32} (reduced : sums.a.toNat < modulus.toNat)
    (data : Bytes) : (sums.update data).a.toNat < modulus.toNat := by
  rw [toNat_a_update reduced]
  exact Nat.mod_lt _ (by decide)

/-- The low half of a checksum is the first sum. -/
theorem toNat_finish_mod {sums : Adler32} (reduced : sums.a.toNat < modulus.toNat) :
    sums.finish.toNat % 2 ^ 16 = sums.a.toNat := by
  have low : sums.a.toNat < 2 ^ 16 := Nat.lt_trans reduced (by decide)
  have high : (sums.b <<< 16).toNat % 2 ^ 16 = 0 := by
    rw [UInt32.toNat_shiftLeft, Nat.shiftLeft_eq]
    change sums.b.toNat * 2 ^ 16 % 2 ^ 32 % 2 ^ 16 = 0
    omega
  rw [finish, UInt32.toNat_or, Nat.or_mod_two_pow, high, Nat.mod_eq_of_lt low, Nat.zero_or]

end Adler32

end Logbook

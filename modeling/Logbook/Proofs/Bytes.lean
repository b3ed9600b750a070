import Mathlib.Algebra.Group.Nat.Defs
import Mathlib.Data.List.Induction
import Logbook.Bytes

/-!
# Numbers are read back

A number written in a fixed width is read back up to the values the width can
hold, and whole when it fits. Each byte string is the only way to write the number
that it is read as, so reading and writing undo each other.
-/

namespace Logbook.Bytes

/-- A number is read back up to the values its width can hold. -/
theorem toNat_ofNat (width n : Nat) : toNat (ofNat width n) = n % 256 ^ width := by
  induction width generalizing n with
  | zero => simp [ofNat, Nat.mod_one]
  | succ width ih =>
      rw [ofNat, toNat_append_singleton, ih, Nat.pow_succ, Nat.mul_comm (256 ^ width) 256,
        Nat.mod_mul, UInt8.toNat_ofNat']
      omega

/-- Only the values that the width can hold are written. -/
theorem ofNat_mod (width n : Nat) : ofNat width (n % 256 ^ width) = ofNat width n := by
  induction width generalizing n with
  | zero => rfl
  | succ width ih =>
      have high : n % 256 ^ (width + 1) / 256 = n / 256 % 256 ^ width := by
        rw [Nat.pow_succ, Nat.mod_mul_left_div_self]
      have low : n % 256 ^ (width + 1) % 256 = n % 256 :=
        Nat.mod_mod_of_dvd n (Nat.dvd_mul_left 256 (256 ^ width))
      rw [ofNat, ofNat, high, low, ih]

/-- A number that fits its width is read back, and the bytes after it are left. -/
theorem readNat?_ofNat {width n : Nat} (fits : n < 256 ^ width) (rest : Bytes) :
    readNat? width (ofNat width n ++ rest) = some (n, rest) := by
  have taken : split? width (ofNat width n ++ rest) = some (ofNat width n, rest) :=
    split?_eq_some_iff.mpr ⟨rfl, length_ofNat width n⟩
  simp only [readNat?, taken, Option.map_some, toNat_ofNat, Nat.mod_eq_of_lt fits]

/-- A byte string is below the first number that its width cannot hold. -/
theorem toNat_lt {width : Nat} {bytes : Bytes} (length : bytes.length = width) :
    toNat bytes < 256 ^ width := by
  subst length
  induction bytes using List.reverseRecOn with
  | nil => exact Nat.one_pos
  | append_singleton bytes byte ih =>
      have byte_lt := byte.toNat_lt
      rw [toNat_append_singleton, List.length_append, List.length_singleton, Nat.pow_succ]
      omega

/-- Every byte string is the number it stands for, written in its own width. -/
theorem ofNat_toNat {width : Nat} {bytes : Bytes} (length : bytes.length = width) :
    ofNat width (toNat bytes) = bytes := by
  subst length
  induction bytes using List.reverseRecOn with
  | nil => rfl
  | append_singleton bytes byte ih =>
      have byte_lt := byte.toNat_lt
      have high : (toNat bytes * 256 + byte.toNat) / 256 = toNat bytes := by omega
      have low : (toNat bytes * 256 + byte.toNat) % 256 = byte.toNat := by omega
      rw [List.length_append, List.length_singleton, ofNat, toNat_append_singleton, high, low, ih,
        UInt8.ofNat_toNat]

/-- A number is read exactly from the bytes that write it. -/
theorem readNat?_eq_some_iff {width n : Nat} {bytes rest : Bytes} :
    readNat? width bytes = some (n, rest) ↔
      n < 256 ^ width ∧ bytes = ofNat width n ++ rest := by
  constructor
  · intro found
    simp only [readNat?, Option.map_eq_some_iff, Prod.exists, Prod.mk.injEq] at found
    rcases found with ⟨front, rest, split, rfl, rfl⟩
    rcases split?_eq_some_iff.mp split with ⟨rfl, rfl⟩
    exact ⟨toNat_lt rfl, by rw [ofNat_toNat rfl]⟩
  · rintro ⟨fits, rfl⟩
    exact readNat?_ofNat fits rest

theorem split?_eq_none_iff {n : Nat} {bytes : Bytes} : split? n bytes = none ↔ bytes.length < n := by
  have front : (bytes.take n).length = n ↔ n ≤ bytes.length := by
    rw [List.length_take]
    omega
  simp only [split?, front, ite_eq_right_iff, reduceCtorEq, imp_false, Nat.not_le]

end Logbook.Bytes

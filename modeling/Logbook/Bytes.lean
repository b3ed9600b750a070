/-!
# Byte strings

A byte string is a list of bytes. Numbers are written big-endian in a fixed
width, keeping the low-order bytes; `split?_eq_some_iff` says that a split takes
the requested number of bytes off the front and loses none.
-/

namespace Logbook

/-- A string of bytes. -/
abbrev Bytes := List UInt8

namespace Bytes

/-- The `width` low-order bytes of `n`, most significant first. -/
def ofNat : (width : Nat) → (n : Nat) → Bytes
  | 0, _ => []
  | width + 1, n => ofNat width (n / 256) ++ [UInt8.ofNat (n % 256)]

/-- The number whose base-256 digits are `bytes`, most significant first. -/
def toNat (bytes : Bytes) : Nat :=
  bytes.foldl (fun n byte => n * 256 + byte.toNat) 0

/-- The first `n` bytes and the rest, if there are that many. -/
def split? (n : Nat) (bytes : Bytes) : Option (Bytes × Bytes) :=
  let front := bytes.take n
  if front.length = n then some (front, bytes.drop n) else none

/-- The number in the first `width` bytes, and the rest. -/
def readNat? (width : Nat) (bytes : Bytes) : Option (Nat × Bytes) :=
  (split? width bytes).map fun (front, rest) => (toNat front, rest)

@[simp]
theorem length_ofNat (width n : Nat) : (ofNat width n).length = width := by
  induction width generalizing n with
  | zero => rfl
  | succ width ih => simp [ofNat, ih]

@[simp]
theorem toNat_nil : toNat [] = 0 :=
  rfl

theorem toNat_append_singleton (bytes : Bytes) (byte : UInt8) :
    toNat (bytes ++ [byte]) = toNat bytes * 256 + byte.toNat := by
  simp [toNat]

theorem split?_eq_some_iff {n : Nat} {bytes front rest : Bytes} :
    split? n bytes = some (front, rest) ↔ bytes = front ++ rest ∧ front.length = n := by
  simp only [split?]
  constructor
  · intro found
    split at found
    · rename_i taken
      cases found
      exact ⟨(List.take_append_drop n bytes).symm, taken⟩
    · cases found
  · rintro ⟨rfl, rfl⟩
    simp

end Bytes

end Logbook

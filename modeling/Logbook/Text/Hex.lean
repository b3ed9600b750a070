import Logbook.Bytes

/-!
# Hexadecimal

Messages show words and tags in lower-case hexadecimal, either bare and padded
to a fixed number of digits or behind the mark `0x`. Byte strings are written
with two digits for each byte.
-/

namespace Logbook.Hex

/-- Lower-case hexadecimal digits of `n`, padded with zeros to at least
`width` of them. -/
def padded (width n : Nat) : String :=
  String.ofList (List.leftpad width '0' (Nat.toDigits 16 n))

/-- Lower-case hexadecimal of `n` behind `0x`, with at least `width` digits. -/
def marked (width n : Nat) : String :=
  "0x" ++ padded width n

/-- The two digits of a byte. -/
def digits (byte : UInt8) : List Char :=
  [Nat.digitChar (byte / 16).toNat, Nat.digitChar (byte % 16).toNat]

/-- The digits of a byte string. -/
def ofBytes (bytes : Bytes) : String :=
  String.ofList (bytes.flatMap digits)

/-- The value of a digit in either case; anything else counts as zero. -/
def value (digit : Char) : UInt8 :=
  if digit.isDigit then UInt8.ofNat (digit.toNat - '0'.toNat)
  else if 'a' ≤ digit ∧ digit ≤ 'f' then UInt8.ofNat (digit.toNat - 'a'.toNat + 10)
  else if 'A' ≤ digit ∧ digit ≤ 'F' then UInt8.ofNat (digit.toNat - 'A'.toNat + 10)
  else 0

/-- The bytes that pairs of digits stand for; a digit left over is dropped. -/
def toBytes : List Char → Bytes
  | high :: low :: rest => (16 * value high + value low) :: toBytes rest
  | _ => []

end Logbook.Hex

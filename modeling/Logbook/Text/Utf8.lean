/-!
# Where a byte string stops being UTF-8

A byte string either is the UTF-8 form of some text or has a first place where
it cannot be continued to one. That place is given by the length of the longest
well-formed start and by what goes wrong there: either the string ends inside a
sequence that could still be completed, or the next one to three bytes form an
ill-formed sequence that is as long as it can be.
-/

namespace Logbook.Utf8

/-- Why text could not be decoded. -/
structure Fault where
  /-- Bytes of the longest well-formed start. -/
  validUpTo : Nat
  /-- Length of the ill-formed sequence after it, or `none` when the bytes end
  inside a sequence. -/
  invalidLength : Option Nat
deriving DecidableEq, Repr

/-- A decoding fault as it appears in messages. -/
def Fault.message (fault : Fault) : String :=
  match fault.invalidLength with
  | some n => s!"invalid utf-8 sequence of {n} bytes from index {fault.validUpTo}"
  | none => s!"incomplete utf-8 byte sequence from index {fault.validUpTo}"

/-- The range of second bytes that may follow `lead`, and the number of bytes in
the sequence that `lead` opens; `none` for a byte that opens none. The range
excludes overlong forms, surrogates and numbers past the last code point. -/
def sequenceShape (lead : UInt8) : Option (UInt8 × UInt8 × Nat) :=
  if 0xC2 ≤ lead ∧ lead ≤ 0xDF then some (0x80, 0xBF, 2)
  else if lead = 0xE0 then some (0xA0, 0xBF, 3)
  else if lead = 0xED then some (0x80, 0x9F, 3)
  else if 0xE1 ≤ lead ∧ lead ≤ 0xEF then some (0x80, 0xBF, 3)
  else if lead = 0xF0 then some (0x90, 0xBF, 4)
  else if 0xF1 ≤ lead ∧ lead ≤ 0xF3 then some (0x80, 0xBF, 4)
  else if lead = 0xF4 then some (0x80, 0x8F, 4)
  else none

/-- The outcome of reading the trailing bytes of one sequence. -/
inductive Trail where
  /-- All trailing bytes are there. -/
  | complete (rest : List UInt8)
  /-- The bytes end before the sequence does. -/
  | cut
  /-- The sequence is ill-formed after `length` bytes. -/
  | broken (length : Nat)

/-- Read `count` continuation bytes, `seen` bytes of the sequence being behind. -/
def continuation (seen : Nat) : (count : Nat) → List UInt8 → Trail
  | 0, rest => .complete rest
  | _ + 1, [] => .cut
  | count + 1, byte :: rest =>
      if 0x80 ≤ byte ∧ byte ≤ 0xBF then continuation (seen + 1) count rest
      else .broken seen

/-- Read the trailing bytes of the sequence that `lead` opens. -/
def trail (lead : UInt8) (rest : List UInt8) : Trail :=
  match sequenceShape lead, rest with
  | none, _ => .broken 1
  | some _, [] => .cut
  | some (low, high, width), second :: rest =>
      if low ≤ second ∧ second ≤ high then continuation 2 (width - 2) rest
      else .broken 1

theorem continuation_length_le {seen count : Nat} {bytes rest : List UInt8}
    (complete : continuation seen count bytes = .complete rest) :
    rest.length ≤ bytes.length := by
  induction count generalizing seen bytes with
  | zero =>
      simp only [continuation, Trail.complete.injEq] at complete
      simp [complete]
  | succ count ih =>
      cases bytes with
      | nil => simp [continuation] at complete
      | cons byte bytes =>
          rw [continuation] at complete
          split at complete
          · exact Nat.le_succ_of_le (ih complete)
          · cases complete

theorem trail_length_le {lead : UInt8} {bytes rest : List UInt8}
    (complete : trail lead bytes = .complete rest) : rest.length ≤ bytes.length := by
  unfold trail at complete
  split at complete
  · cases complete
  · cases complete
  · split at complete
    · exact Nat.le_succ_of_le (continuation_length_le complete)
    · cases complete

/-- The first fault of `bytes`, which start after `index` well-formed bytes. -/
def faultFrom (index : Nat) : List UInt8 → Option Fault
  | [] => none
  | lead :: rest =>
      if lead < 0x80 then faultFrom (index + 1) rest
      else
        match found : trail lead rest with
        | .complete after => faultFrom (index + 1 + (rest.length - after.length)) after
        | .cut => some ⟨index, none⟩
        | .broken n => some ⟨index, some n⟩
termination_by bytes => bytes.length
decreasing_by
  · simp
  · have := trail_length_le found
    simp only [List.length_cons]
    omega

/-- The first fault of `bytes`, if they are not UTF-8. -/
def fault? (bytes : List UInt8) : Option Fault :=
  faultFrom 0 bytes

end Logbook.Utf8

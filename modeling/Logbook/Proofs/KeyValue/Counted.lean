import Logbook.Proofs.KeyValue.RoundTrip

/-!
# What the codec writes and cannot read

The two fields of an action are refused when their lengths are too large for the length
fields. The count of the superseded numbers is not checked: of a count that is too large for
its field the low-order bytes are written, and then more numbers follow than a reader
expects. So an action is read back exactly if it supersedes fewer numbers than the field can
count.
-/

namespace Logbook.KeyValue.Codec

theorem encodeField_of_long {field : Bytes} (long : ¬ field.length < fieldLimit) :
    encodeField field = .error (.invalid s!"field of {field.length} bytes") :=
  if_pos (Nat.not_lt.mp long)

/-- A mutation with a field that is too long has no encoding. -/
theorem exists_error_of_long {action : Action} (long : ¬ action.operation.Short) :
    ∃ length, fieldLimit ≤ length ∧
      encode action = .error (.invalid s!"field of {length} bytes") := by
  rcases action with ⟨operation, invalidated⟩
  cases operation with
  | put key value =>
      by_cases name_short : (nameBytes key.name).length < fieldLimit
      · have value_long : ¬ value.length < fieldLimit := fun short => long ⟨name_short, short⟩
        refine ⟨value.length, Nat.not_lt.mp value_long, ?_⟩
        simp only [encode, encodeOperation, encodeField_eq name_short,
          encodeField_of_long value_long, bind, Except.bind]
      · refine ⟨(nameBytes key.name).length, Nat.not_lt.mp name_short, ?_⟩
        simp only [encode, encodeOperation, encodeField_of_long name_short, bind, Except.bind]
  | delete key =>
      refine ⟨(nameBytes key.name).length, Nat.not_lt.mp long, ?_⟩
      simp only [encode, encodeOperation, encodeField_of_long long, bind, Except.bind]
  | deleteScope scope => exact absurd trivial long

/-- The fault of a reader that finds `length` numbers behind the low-order bytes of their
count. -/
def miscount (length : Nat) : CodecError :=
  .invalid s!"expected {length % fieldLimit} invalidated lsns, {length * 8} bytes left"

/-- A count that does not fit its field is read as a smaller one. -/
theorem decodeInvalidated_of_crowded {lsns : List Nat} (crowded : fieldLimit ≤ lsns.length) :
    decodeInvalidated (Bytes.ofNat 4 lsns.length ++ lsns.flatMap (Bytes.ofNat 8)) =
      .error (miscount lsns.length) := by
  have count : Bytes.toNat (Bytes.ofNat 4 lsns.length) = lsns.length % fieldLimit :=
    Bytes.toNat_ofNat 4 lsns.length
  have fewer : lsns.length % fieldLimit < fieldLimit := Nat.mod_lt _ (by decide)
  have differ : ¬ lsns.length * 8 = lsns.length % fieldLimit * 8 := by omega
  rw [decodeInvalidated, take_append (Bytes.length_ofNat 4 _)]
  simp only [bind, Except.bind, count, length_flatMap_ofNat, if_neg differ]
  rfl

theorem decode_bytesOf_of_crowded {action : Action} (short : action.operation.Short)
    (crowded : fieldLimit ≤ action.invalidated.length) :
    decode (bytesOf action) = .error (miscount action.invalidated.length) := by
  rw [decode_bytesOf_eq short, decodeInvalidated_of_crowded crowded]
  rfl

/-- An action is refused if a field of its mutation is too long. If not it is encoded, and its
encoding is read back as the same action if it supersedes fewer numbers than their field can
count, and as nothing if it supersedes more. -/
theorem read_back_of_counted (action : Action) (words : ∀ lsn ∈ action.invalidated, lsn < 256 ^ 8) :
    (¬ action.operation.Short ∧ ∃ error, encode action = .error error) ∨
      action.operation.Short ∧ ∃ bytes, encode action = .ok bytes ∧
        (action.invalidated.length < fieldLimit → decode bytes = .ok action) ∧
        (fieldLimit ≤ action.invalidated.length →
          decode bytes = .error (miscount action.invalidated.length)) := by
  by_cases short : action.operation.Short
  · refine .inr ⟨short, bytesOf action, encode_eq short, ?_, decode_bytesOf_of_crowded short⟩
    intro count_lt
    exact decode_bytesOf ⟨short, count_lt, words⟩
  · rcases exists_error_of_long short with ⟨length, _, refused⟩
    exact .inl ⟨short, _, refused⟩

/-- A put with an empty name that supersedes two numbers. -/
theorem read_back_of_counted_put :
    (∀ lsn ∈ [100, 104], lsn < 256 ^ 8) ∧
      ∃ bytes, encode ⟨.put ⟨7, ""⟩ [1], [100, 104]⟩ = .ok bytes ∧
        decode bytes = .ok ⟨.put ⟨7, ""⟩ [1], [100, 104]⟩ := by
  have words : ∀ lsn ∈ [100, 104], lsn < 256 ^ 8 := by decide
  refine ⟨words, ?_⟩
  rcases read_back_of_counted ⟨.put ⟨7, ""⟩ [1], [100, 104]⟩ words with
    ⟨long, _⟩ | ⟨_, bytes, encoded, read, _⟩
  · exact absurd (show Operation.Short (.put ⟨7, ""⟩ [1]) by decide) long
  · exact ⟨bytes, encoded, read (by decide)⟩

/-- The deletion of a scope that supersedes 4294967296 times the same number is encoded, and
its encoding is not read back. -/
theorem crowded_deletion_unreadable :
    ∃ bytes, encode ⟨.deleteScope 1, List.replicate 4294967296 100⟩ = .ok bytes ∧
      decode bytes =
        .error (.invalid "expected 0 invalidated lsns, 34359738368 bytes left") := by
  have count : (List.replicate 4294967296 100).length = 4294967296 := List.length_replicate
  have crowded : fieldLimit ≤ (List.replicate 4294967296 100).length := by
    rw [count]
    decide
  have text : miscount 4294967296 =
      .invalid "expected 0 invalidated lsns, 34359738368 bytes left" := by
    decide
  have unread := decode_bytesOf_of_crowded
    (show (⟨.deleteScope 1, List.replicate 4294967296 100⟩ : Action).operation.Short from trivial)
    crowded
  rw [count, text] at unread
  exact ⟨_, encode_eq trivial, unread⟩

end Logbook.KeyValue.Codec

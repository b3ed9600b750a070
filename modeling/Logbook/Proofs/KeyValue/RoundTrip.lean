import Logbook.KeyValue.Codec
import Logbook.Proofs.Entry

/-!
# Key-value actions are read back

An action whose name and value are short enough for their length fields is
encoded, and its encoding is read back as the same action.
-/

namespace Logbook.KeyValue

/-- The name and the value of a mutation fit their length fields. -/
def Operation.Short : Operation → Prop
  | .put key value =>
      (Codec.nameBytes key.name).length < Codec.fieldLimit ∧ value.length < Codec.fieldLimit
  | .delete key => (Codec.nameBytes key.name).length < Codec.fieldLimit
  | .deleteScope _ => True

instance : (operation : Operation) → Decidable operation.Short
  | .put .. => inferInstanceAs (Decidable (_ ∧ _))
  | .delete _ => inferInstanceAs (Decidable (_ < _))
  | .deleteScope _ => inferInstanceAs (Decidable True)

/-- An action whose parts fit their fields. -/
structure Action.Fits (action : Action) : Prop where
  short : action.operation.Short
  count_lt : action.invalidated.length < Codec.fieldLimit
  lsn_lt : ∀ lsn ∈ action.invalidated, lsn < 256 ^ 8

namespace Codec

@[simp]
theorem take_append {n : Nat} {front rest : Bytes} (length : front.length = n) :
    take n (front ++ rest) = .ok (front, rest) := by
  rw [take, Bytes.split?_eq_some_iff.mpr ⟨rfl, length⟩]

/-- A field behind its length. -/
def fieldBytes (field : Bytes) : Bytes := Bytes.ofNat 4 field.length ++ field

theorem encodeField_eq {field : Bytes} (short : field.length < fieldLimit) :
    encodeField field = .ok (fieldBytes field) :=
  if_neg (Nat.not_le.mpr short)

theorem short_of_encodeField {field bytes : Bytes} (encoded : encodeField field = .ok bytes) :
    field.length < fieldLimit := by
  rw [encodeField] at encoded
  split at encoded
  · cases encoded
  · rename_i short
    exact Nat.not_le.mp short

theorem toNat_count {n : Nat} (short : n < fieldLimit) : Bytes.toNat (Bytes.ofNat 4 n) = n := by
  rw [Bytes.toNat_ofNat]
  exact Nat.mod_eq_of_lt short

theorem decodeField_append {field : Bytes} (short : field.length < fieldLimit) (rest : Bytes) :
    decodeField (fieldBytes field ++ rest) = .ok (field, rest) := by
  rw [decodeField, fieldBytes, List.append_assoc, take_append (Bytes.length_ofNat 4 _)]
  change take (Bytes.toNat (Bytes.ofNat 4 field.length)) (field ++ rest) = _
  rw [toNat_count short, take_append rfl]

theorem decodeName_nameBytes (name : String) : decodeName (nameBytes name) = .ok name := by
  have same : (⟨(nameBytes name).toArray⟩ : ByteArray) = name.toByteArray := rfl
  rw [decodeName, same, String.fromUTF8?, dif_pos name.isValidUTF8]
  rfl

theorem decodeKey_append {key : Key} (short : (nameBytes key.name).length < fieldLimit)
    (rest : Bytes) :
    decodeKey key.scope (fieldBytes (nameBytes key.name) ++ rest) = .ok (key, rest) := by
  rw [decodeKey, decodeField_append short]
  simp only [bind, Except.bind, decodeName_nameBytes]
  rfl

/-- The tag of a mutation. -/
def tagOf : Operation → UInt8
  | .put .. => putTag
  | .delete _ => deleteTag
  | .deleteScope _ => deleteScopeTag

/-- What follows the tag and the scope of a mutation. -/
def bodyOf : Operation → Bytes
  | .put key value => fieldBytes (nameBytes key.name) ++ fieldBytes value
  | .delete key => fieldBytes (nameBytes key.name)
  | .deleteScope _ => []

/-- The tag and the scope of a mutation. -/
def headerOf (operation : Operation) : Bytes :=
  tagOf operation :: Bytes.ofNat 8 operation.scope.toNat

theorem encodeOperation_eq {operation : Operation} (short : operation.Short) :
    encodeOperation operation = .ok (headerOf operation ++ bodyOf operation) := by
  cases operation with
  | put key value =>
      rw [encodeOperation, encodeField_eq short.1, encodeField_eq short.2]
      simp only [bind, Except.bind, headerOf, bodyOf, ← List.append_assoc]
      rfl
  | delete key =>
      rw [encodeOperation, encodeField_eq short]
      rfl
  | deleteScope scope =>
      rw [bodyOf, List.append_nil]
      rfl

theorem decodeOperation_append {operation : Operation} (short : operation.Short) (rest : Bytes) :
    decodeOperation (tagOf operation) operation.scope (bodyOf operation ++ rest) =
      .ok (operation, rest) := by
  cases operation with
  | put key value =>
      rw [tagOf, decodeOperation, if_pos rfl, bodyOf, List.append_assoc, Operation.scope,
        decodeKey_append short.1]
      simp only [bind, Except.bind, decodeField_append short.2]
      rfl
  | delete key =>
      rw [tagOf, decodeOperation, if_neg (by decide), if_pos rfl, bodyOf, Operation.scope,
        decodeKey_append short]
      rfl
  | deleteScope scope => rfl

theorem decodeNumbers_flatMap {lsns : List Nat} (fits : ∀ lsn ∈ lsns, lsn < 256 ^ 8) :
    decodeNumbers lsns.length (lsns.flatMap (Bytes.ofNat 8)) = lsns := by
  induction lsns with
  | nil => rfl
  | cons lsn lsns ih =>
      rw [List.forall_mem_cons] at fits
      have length : (Bytes.ofNat 8 lsn).length = 8 := Bytes.length_ofNat 8 lsn
      rw [List.flatMap_cons, List.length_cons, decodeNumbers, List.take_left' length,
        List.drop_left' length, Bytes.toNat_ofNat, Nat.mod_eq_of_lt fits.1, ih fits.2]

theorem length_flatMap_ofNat (lsns : List Nat) :
    (lsns.flatMap (Bytes.ofNat 8)).length = lsns.length * 8 := by
  induction lsns with
  | nil => rfl
  | cons lsn lsns ih =>
      rw [List.flatMap_cons, List.length_append, ih, Bytes.length_ofNat, List.length_cons,
        Nat.succ_mul, Nat.add_comm]

theorem decodeInvalidated_append {lsns : List Nat} (count_lt : lsns.length < fieldLimit)
    (fits : ∀ lsn ∈ lsns, lsn < 256 ^ 8) :
    decodeInvalidated (Bytes.ofNat 4 lsns.length ++ lsns.flatMap (Bytes.ofNat 8)) = .ok lsns := by
  rw [decodeInvalidated, take_append (Bytes.length_ofNat 4 _)]
  simp only [bind, Except.bind, toNat_count count_lt, length_flatMap_ofNat, ↓reduceIte,
    decodeNumbers_flatMap fits]
  rfl

/-- The encoding of an action that fits. -/
def bytesOf (action : Action) : Bytes :=
  headerOf action.operation ++ bodyOf action.operation ++ Bytes.ofNat 4 action.invalidated.length
    ++ action.invalidated.flatMap (Bytes.ofNat 8)

/-- Only what fits its length fields has an encoding. -/
theorem short_of_encodeOperation {operation : Operation} {bytes : Bytes}
    (encoded : encodeOperation operation = .ok bytes) : operation.Short := by
  cases operation with
  | put key value =>
      rcases bind_eq_ok encoded with ⟨_, name_encoded, encoded⟩
      rcases bind_eq_ok encoded with ⟨_, value_encoded, _⟩
      exact ⟨short_of_encodeField name_encoded, short_of_encodeField value_encoded⟩
  | delete key =>
      rcases bind_eq_ok encoded with ⟨_, name_encoded, _⟩
      exact short_of_encodeField name_encoded
  | deleteScope scope => exact trivial

theorem short_of_encode {action : Action} {bytes : Bytes} (encoded : encode action = .ok bytes) :
    action.operation.Short := by
  rcases bind_eq_ok encoded with ⟨_, operation_encoded, _⟩
  exact short_of_encodeOperation operation_encoded

theorem encode_eq {action : Action} (short : action.operation.Short) :
    encode action = .ok (bytesOf action) := by
  rw [encode, encodeOperation_eq short]
  rfl

/-- The mutation of an action is read back in front of the superseded numbers. -/
theorem decode_bytesOf_eq {action : Action} (short : action.operation.Short) :
    decode (bytesOf action) =
      (decodeInvalidated (Bytes.ofNat 4 action.invalidated.length
        ++ action.invalidated.flatMap (Bytes.ofNat 8))).map (⟨action.operation, ·⟩) := by
  have length : (headerOf action.operation).length = 9 := by
    rw [headerOf, List.length_cons, Bytes.length_ofNat]
  have scope : UInt64.ofNat (Bytes.toNat ((headerOf action.operation).drop 1)) =
      action.operation.scope := by
    have scope_lt : action.operation.scope.toNat < 256 ^ 8 := action.operation.scope.toNat_lt
    rw [headerOf, List.drop_one, List.tail_cons, Bytes.toNat_ofNat, Nat.mod_eq_of_lt scope_lt,
      UInt64.ofNat_toNat]
  have tag : (headerOf action.operation).headD 0 = tagOf action.operation := rfl
  rw [decode, bytesOf, List.append_assoc, List.append_assoc, take_append length]
  simp only [bind, Except.bind, scope, tag, decodeOperation_append short]
  cases decodeInvalidated _ <;> rfl

/-- The encoding of an action is read back. -/
theorem decode_bytesOf {action : Action} (fits : action.Fits) :
    decode (bytesOf action) = .ok action := by
  rw [decode_bytesOf_eq fits.short, decodeInvalidated_append fits.count_lt fits.lsn_lt]
  rfl

theorem length_bodyOf_le {operation : Operation} (short : operation.Short) :
    (bodyOf operation).length ≤ 2 * (4 + fieldLimit) := by
  cases operation with
  | put key value =>
      have name := short.1
      have value := short.2
      simp only [bodyOf, fieldBytes, List.length_append, Bytes.length_ofNat]
      omega
  | delete key =>
      have name : (nameBytes key.name).length < fieldLimit := short
      simp only [bodyOf, fieldBytes, List.length_append, Bytes.length_ofNat]
      omega
  | deleteScope scope => exact Nat.zero_le _

theorem length_bytesOf_lt {action : Action} (fits : action.Fits) :
    (bytesOf action).length + 9 < 256 ^ 8 := by
  have body := length_bodyOf_le fits.short
  have count := fits.count_lt
  simp only [bytesOf, headerOf, List.length_append, List.length_cons, Bytes.length_ofNat,
    length_flatMap_ofNat]
  unfold fieldLimit UInt32.size at body count
  omega

end Codec

/-- The payload of the record of an action on its own. -/
def Action.payload (action : Action) : Bytes := Entry.plainTag :: Codec.bytesOf action

theorem Action.encode_plain {action : Action} (short : action.operation.Short) :
    (Entry.plain action).encode app = .ok action.payload := by
  rw [Entry.encode]
  simp only [app, Codec.encode_eq short]
  rfl

theorem Action.decode_payload {action : Action} (fits : action.Fits) :
    Entry.decode app action.payload = .ok (.plain action) := by
  rw [payload, Entry.decode, if_pos rfl]
  simp only [app, Codec.decode_bytesOf fits]
  rfl

end Logbook.KeyValue

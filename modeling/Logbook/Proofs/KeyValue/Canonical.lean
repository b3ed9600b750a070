import Logbook.Proofs.KeyValue.RoundTrip

/-!
# One encoding

A byte string that is read as a key-value action is the encoding of that action: every
length field tells how much is there, every name is the UTF-8 of its text, and the bytes
end with the last number. So an entry of the store has one encoding, and what is read is
what was written.
-/

namespace Logbook.KeyValue

namespace Codec

theorem take_eq_ok_iff {n : Nat} {bytes front rest : Bytes} :
    take n bytes = .ok (front, rest) ↔ bytes = front ++ rest ∧ front.length = n := by
  rw [← Bytes.split?_eq_some_iff, take]
  cases Bytes.split? n bytes with
  | none => simp
  | some parts => simp

/-- A field is read exactly from its bytes behind its length. -/
theorem decodeField_eq_ok_iff {bytes field rest : Bytes} :
    decodeField bytes = .ok (field, rest) ↔
      field.length < fieldLimit ∧ bytes = fieldBytes field ++ rest := by
  constructor
  · intro decoded
    rcases bind_eq_ok decoded with ⟨⟨length, body⟩, length_taken, field_taken⟩
    rcases take_eq_ok_iff.mp length_taken with ⟨rfl, width⟩
    rcases take_eq_ok_iff.mp field_taken with ⟨rfl, length_eq⟩
    refine ⟨length_eq ▸ Bytes.toNat_lt width, ?_⟩
    rw [fieldBytes, length_eq, Bytes.ofNat_toNat width, List.append_assoc]
  · rintro ⟨short, rfl⟩
    exact decodeField_append short rest

/-- A name is read exactly from its UTF-8. -/
theorem decodeName_eq_ok_iff {bytes : Bytes} {name : String} :
    decodeName bytes = .ok name ↔ bytes = nameBytes name := by
  constructor
  · intro decoded
    unfold decodeName at decoded
    split at decoded
    · rename_i found
      cases decoded
      unfold String.fromUTF8? at found
      split at found
      · cases found
        rfl
      · cases found
    · cases decoded
  · rintro rfl
    exact decodeName_nameBytes name

theorem decodeKey_eq_ok_iff {scope : UInt64} {bytes rest : Bytes} {key : Key} :
    decodeKey scope bytes = .ok (key, rest) ↔
      scope = key.scope ∧ (nameBytes key.name).length < fieldLimit ∧
        bytes = fieldBytes (nameBytes key.name) ++ rest := by
  constructor
  · intro decoded
    rcases bind_eq_ok decoded with ⟨⟨field, rest'⟩, field_decoded, decoded⟩
    rcases bind_eq_ok decoded with ⟨name, name_decoded, same⟩
    rcases decodeField_eq_ok_iff.mp field_decoded with ⟨short, rfl⟩
    cases same
    cases decodeName_eq_ok_iff.mp name_decoded
    exact ⟨rfl, short, rfl⟩
  · rintro ⟨rfl, short, rfl⟩
    exact decodeKey_append short rest

/-- A mutation is read exactly from its tag, its scope and its body. -/
theorem decodeOperation_eq_ok_iff {tag : UInt8} {scope : UInt64} {bytes rest : Bytes}
    {operation : Operation} :
    decodeOperation tag scope bytes = .ok (operation, rest) ↔
      operation.Short ∧ tag = tagOf operation ∧ scope = operation.scope ∧
        bytes = bodyOf operation ++ rest := by
  constructor
  · intro decoded
    unfold decodeOperation at decoded
    split at decoded
    · rename_i tag_eq
      rcases bind_eq_ok decoded with ⟨⟨key, body⟩, key_decoded, decoded⟩
      rcases bind_eq_ok decoded with ⟨⟨value, rest'⟩, value_decoded, same⟩
      rcases decodeKey_eq_ok_iff.mp key_decoded with ⟨rfl, name_short, rfl⟩
      rcases decodeField_eq_ok_iff.mp value_decoded with ⟨value_short, rfl⟩
      cases same
      exact ⟨⟨name_short, value_short⟩, tag_eq, rfl, (List.append_assoc _ _ _).symm⟩
    · split at decoded
      · rename_i tag_eq
        rcases bind_eq_ok decoded with ⟨⟨key, rest'⟩, key_decoded, same⟩
        rcases decodeKey_eq_ok_iff.mp key_decoded with ⟨rfl, name_short, rfl⟩
        cases same
        exact ⟨name_short, tag_eq, rfl, rfl⟩
      · split at decoded
        · rename_i tag_eq
          cases decoded
          exact ⟨trivial, tag_eq, rfl, rfl⟩
        · cases decoded
  · rintro ⟨short, rfl, rfl, rfl⟩
    exact decodeOperation_append short rest

theorem length_decodeNumbers (count : Nat) (bytes : Bytes) :
    (decodeNumbers count bytes).length = count := by
  induction count generalizing bytes with
  | zero => rfl
  | succ count ih => rw [decodeNumbers, List.length_cons, ih]

theorem decodeNumbers_lt (count : Nat) (bytes : Bytes) :
    ∀ lsn ∈ decodeNumbers count bytes, lsn < 256 ^ 8 := by
  induction count generalizing bytes with
  | zero => exact nofun
  | succ count ih =>
      have front : (bytes.take 8).length ≤ 8 := List.length_take_le 8 bytes
      have number_lt : Bytes.toNat (bytes.take 8) < 256 ^ (bytes.take 8).length :=
        Bytes.toNat_lt rfl
      exact List.forall_mem_cons.mpr
        ⟨Nat.lt_of_lt_of_le number_lt (Nat.pow_le_pow_right (by decide) front), ih _⟩

/-- Numbers that fill their bytes are written as these. -/
theorem flatMap_decodeNumbers {count : Nat} {bytes : Bytes} (length : bytes.length = count * 8) :
    (decodeNumbers count bytes).flatMap (Bytes.ofNat 8) = bytes := by
  induction count generalizing bytes with
  | zero => exact (List.length_eq_zero_iff.mp (by omega)).symm
  | succ count ih =>
      have front : (bytes.take 8).length = 8 := by
        rw [List.length_take]
        omega
      have back : (bytes.drop 8).length = count * 8 := by
        rw [List.length_drop]
        omega
      rw [decodeNumbers, List.flatMap_cons, Bytes.ofNat_toNat front, ih back,
        List.take_append_drop]

/-- The superseded numbers are read exactly from their count and their bytes. -/
theorem decodeInvalidated_eq_ok_iff {bytes : Bytes} {lsns : List Nat} :
    decodeInvalidated bytes = .ok lsns ↔
      lsns.length < fieldLimit ∧ (∀ lsn ∈ lsns, lsn < 256 ^ 8) ∧
        bytes = Bytes.ofNat 4 lsns.length ++ lsns.flatMap (Bytes.ofNat 8) := by
  constructor
  · intro decoded
    rcases bind_eq_ok decoded with ⟨⟨count, body⟩, taken, counted⟩
    rcases take_eq_ok_iff.mp taken with ⟨rfl, width⟩
    dsimp only at counted
    split at counted
    · rename_i length
      cases counted
      rw [length_decodeNumbers, flatMap_decodeNumbers length, Bytes.ofNat_toNat width]
      exact ⟨Bytes.toNat_lt width, decodeNumbers_lt _ _, rfl⟩
    · cases counted
  · rintro ⟨count_lt, fits, rfl⟩
    exact decodeInvalidated_append count_lt fits

/-- The tag and the scope of a mutation take nine bytes in one way only. -/
theorem eq_headerOf {header : Bytes} {operation : Operation} (length : header.length = 9)
    (tag_eq : header.headD 0 = tagOf operation)
    (scope_eq : UInt64.ofNat (Bytes.toNat (header.drop 1)) = operation.scope) :
    header = headerOf operation := by
  cases header with
  | nil => cases length
  | cons tag scope =>
      have width : scope.length = 8 := Nat.succ.inj length
      have scope_lt : Bytes.toNat scope < UInt64.size := Bytes.toNat_lt width
      rw [headerOf, ← tag_eq, ← scope_eq, List.drop_one, List.tail_cons,
        UInt64.toNat_ofNat_of_lt' scope_lt, Bytes.ofNat_toNat width, List.headD_cons]

/-- An action is read exactly from its encoding. -/
theorem decode_eq_ok_iff {bytes : Bytes} {action : Action} :
    decode bytes = .ok action ↔ action.Fits ∧ bytes = bytesOf action := by
  constructor
  · intro decoded
    rcases bind_eq_ok decoded with ⟨⟨header, body⟩, taken, body_decoded⟩
    rcases bind_eq_ok body_decoded with ⟨⟨operation, rest⟩, operation_decoded, rest_decoded⟩
    rcases bind_eq_ok rest_decoded with ⟨lsns, lsns_decoded, same⟩
    rcases take_eq_ok_iff.mp taken with ⟨rfl, length⟩
    rcases decodeOperation_eq_ok_iff.mp operation_decoded with ⟨short, tag_eq, scope_eq, rfl⟩
    rcases decodeInvalidated_eq_ok_iff.mp lsns_decoded with ⟨count_lt, lsn_lt, rfl⟩
    cases same
    refine ⟨⟨short, count_lt, lsn_lt⟩, ?_⟩
    rw [bytesOf, ← eq_headerOf length tag_eq scope_eq, List.append_assoc, List.append_assoc]
  · rintro ⟨fits, rfl⟩
    exact decode_bytesOf fits

theorem encode_of_decode {bytes : Bytes} {action : Action} (decoded : decode bytes = .ok action) :
    encode action = .ok bytes := by
  rcases decode_eq_ok_iff.mp decoded with ⟨fits, rfl⟩
  exact encode_eq fits.short

end Codec

/-- Bytes that are read as an entry of the store are the encoding of that entry, so no
other bytes are read as the same entry. What is encoded is read back, whatever the codec
of the actions is, as long as it reads back what it encodes. -/
theorem entries_encoded_once :
    (∀ (bytes : Bytes) (entry : Entry Action),
      Entry.decode app bytes = .ok entry → entry.encode app = .ok bytes) ∧
    (∀ (bytes other : Bytes) (entry : Entry Action),
      Entry.decode app bytes = .ok entry → Entry.decode app other = .ok entry →
        bytes = other) ∧
    ∀ {α σ : Type} (codec : Application α σ),
      (∀ action bytes, codec.encode action = .ok bytes → codec.decode bytes = .ok action) →
      ∀ (entry : Entry α) (payload : Bytes),
        (∀ txn, entry.txn? = some txn → txn < Sequencer.wordSize) →
        entry.encode codec = .ok payload → Entry.decode codec payload = .ok entry := by
  have encoded : ∀ (bytes : Bytes) (entry : Entry Action),
      Entry.decode app bytes = .ok entry → entry.encode app = .ok bytes :=
    fun bytes entry decoded =>
      Entry.encode_of_decode decoded fun _ _ => Codec.encode_of_decode
  refine ⟨encoded, ?_, ?_⟩
  · intro bytes other entry decoded other_decoded
    exact Except.ok.inj ((encoded bytes entry decoded).symm.trans
      (encoded other entry other_decoded))
  · intro α σ codec undone entry payload fits entry_encoded
    exact Entry.decode_of_encode entry_encoded fits fun action bytes _ => undone action bytes

end Logbook.KeyValue

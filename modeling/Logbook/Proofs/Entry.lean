import Logbook.Sequencer
import Logbook.Proofs.Bytes
import Logbook.Proofs.Recovery.Newest

/-!
# Entries are read back

An entry is read back from its encoding if its action is read back from its own, and if
the number of its transaction fits its field. The tag and the number come first, so the
transaction is known whatever comes of the action. Nothing in the bytes of an entry is
left open, so bytes that are read as an entry are its only encoding.
-/

namespace Logbook

/-- What the codec of the application writes for the action, it can read. -/
def Application.Readable {α σ : Type} (app : Application α σ) (action : α) : Prop :=
  ∀ bytes, app.encode action = .ok bytes → ∃ read, app.decode bytes = .ok read

namespace Entry

variable {α σ : Type} {app : Application α σ} {entry : Entry α} {payload : Bytes}

theorem readTxn_ofNat {txn : Nat} (fits : txn < Sequencer.wordSize) (rest : Bytes) :
    readTxn (Bytes.ofNat 8 txn ++ rest) = .ok (txn, rest) := by
  simp only [readTxn, Bytes.readNat?_ofNat (show txn < 256 ^ 8 from fits)]

/-- What a commit is read back as. -/
theorem decode_commit {txn : Nat} (fits : txn < Sequencer.wordSize) :
    decode app (commitTag :: Bytes.ofNat 8 txn) = .ok (.commit txn) := by
  have found := readTxn_ofNat fits []
  rw [List.append_nil] at found
  rw [decode, if_neg (by decide), if_neg (by decide), if_pos rfl, found]
  rfl

/-- What a member is read back as, if its action is. -/
theorem decode_member {txn : Nat} (fits : txn < Sequencer.wordSize) (bytes : Bytes) :
    decode app (memberTag :: (Bytes.ofNat 8 txn ++ bytes)) =
      (app.decode bytes).bind fun action => .ok (.member txn action) := by
  rw [decode, if_neg (by decide), if_pos rfl, readTxn_ofNat fits]
  rfl

/-- Whatever an application makes of its actions, an entry that is read back names the
transaction that it was written with. -/
theorem txn?_of_decode {read : Entry α} (encoded : entry.encode app = .ok payload)
    (fits : ∀ txn, entry.txn? = some txn → txn < Sequencer.wordSize)
    (decoded : decode app payload = .ok read) : read.txn? = entry.txn? := by
  cases entry with
  | plain action =>
      rcases bind_eq_ok encoded with ⟨bytes, _, same⟩
      cases same
      rw [decode, if_pos rfl] at decoded
      rcases bind_eq_ok decoded with ⟨_, _, same⟩
      cases same
      rfl
  | member txn action =>
      rcases bind_eq_ok encoded with ⟨bytes, _, same⟩
      cases same
      rw [List.cons_append, decode_member (fits txn rfl)] at decoded
      rcases bind_eq_ok decoded with ⟨_, _, same⟩
      cases same
      rfl
  | commit txn =>
      cases encoded
      rw [decode_commit (fits txn rfl)] at decoded
      cases decoded
      rfl

/-- An entry is read back if its action is. -/
theorem decode_of_encode (encoded : entry.encode app = .ok payload)
    (fits : ∀ txn, entry.txn? = some txn → txn < Sequencer.wordSize)
    (actions : ∀ action bytes, entry.action? = some action → app.encode action = .ok bytes →
      app.decode bytes = .ok action) : decode app payload = .ok entry := by
  cases entry with
  | plain action =>
      rcases bind_eq_ok encoded with ⟨bytes, action_encoded, same⟩
      cases same
      rw [decode, if_pos rfl, actions action bytes rfl action_encoded]
      rfl
  | member txn action =>
      rcases bind_eq_ok encoded with ⟨bytes, action_encoded, same⟩
      cases same
      rw [List.cons_append, decode_member (fits txn rfl), actions action bytes rfl action_encoded]
      rfl
  | commit txn =>
      cases encoded
      exact decode_commit (fits txn rfl)

/-- The number of a transaction is read exactly from the bytes that write it. -/
theorem readTxn_eq_ok_iff {txn : Nat} {bytes rest : Bytes} :
    readTxn bytes = .ok (txn, rest) ↔
      txn < Sequencer.wordSize ∧ bytes = Bytes.ofNat 8 txn ++ rest := by
  constructor
  · intro read
    unfold readTxn at read
    split at read
    · rename_i found
      cases read
      exact Bytes.readNat?_eq_some_iff.mp found
    · cases read
  · rintro ⟨fits, rfl⟩
    exact readTxn_ofNat fits rest

/-- Bytes that are read as an entry are its encoding, if the bytes of its action are. -/
theorem encode_of_decode {bytes : Bytes} (decoded : decode app bytes = .ok entry)
    (actions : ∀ action bytes, app.decode bytes = .ok action → app.encode action = .ok bytes) :
    entry.encode app = .ok bytes := by
  unfold decode at decoded
  split at decoded
  · cases decoded
  · split at decoded
    · rename_i tag_eq
      rcases bind_eq_ok decoded with ⟨action, action_decoded, same⟩
      cases same
      rw [encode, actions action _ action_decoded, tag_eq]
      rfl
    · split at decoded
      · rename_i tag_eq
        rcases bind_eq_ok decoded with ⟨⟨txn, rest⟩, read, decoded⟩
        rcases bind_eq_ok decoded with ⟨action, action_decoded, same⟩
        rcases readTxn_eq_ok_iff.mp read with ⟨_, rfl⟩
        cases same
        rw [encode, actions action _ action_decoded, tag_eq]
        rfl
      · split at decoded
        · rename_i tag_eq
          rcases bind_eq_ok decoded with ⟨⟨txn, rest⟩, read, ended⟩
          rcases readTxn_eq_ok_iff.mp read with ⟨_, rfl⟩
          dsimp only at ended
          split at ended
          · rename_i whole
            cases ended
            rw [encode, tag_eq, whole, List.append_nil]
            rfl
          · cases ended
        · cases decoded

/-- An entry is read as something if its action is, whatever the number of its transaction. -/
theorem exists_decode_of_encode (encoded : entry.encode app = .ok payload)
    (readable : ∀ action, entry.action? = some action → app.Readable action) :
    ∃ read, decode app payload = .ok read := by
  have field : ∀ txn, Bytes.ofNat 8 txn = Bytes.ofNat 8 (txn % Sequencer.wordSize) :=
    fun txn => (Bytes.ofNat_mod 8 txn).symm
  have fits : ∀ txn, txn % Sequencer.wordSize < Sequencer.wordSize :=
    fun txn => Nat.mod_lt txn (by decide)
  cases entry with
  | plain action =>
      rcases bind_eq_ok encoded with ⟨bytes, action_encoded, same⟩
      cases same
      rcases readable action rfl bytes action_encoded with ⟨read, decoded⟩
      rw [decode, if_pos rfl, decoded]
      exact ⟨_, rfl⟩
  | member txn action =>
      rcases bind_eq_ok encoded with ⟨bytes, action_encoded, same⟩
      cases same
      rcases readable action rfl bytes action_encoded with ⟨read, decoded⟩
      rw [List.cons_append, field, decode_member (fits txn), decoded]
      exact ⟨_, rfl⟩
  | commit txn =>
      cases encoded
      rw [field]
      exact ⟨_, decode_commit (fits txn)⟩

/-- An entry takes nine bytes more than its action at most. -/
theorem length_lt_of_encode {limit : Nat} (encoded : entry.encode app = .ok payload)
    (some_room : 9 < limit)
    (actions : ∀ action bytes, entry.action? = some action → app.encode action = .ok bytes →
      bytes.length + 9 < limit) : payload.length < limit := by
  cases entry with
  | plain action =>
      rcases bind_eq_ok encoded with ⟨bytes, action_encoded, same⟩
      cases same
      have := actions action bytes rfl action_encoded
      rw [List.length_cons]
      omega
  | member txn action =>
      rcases bind_eq_ok encoded with ⟨bytes, action_encoded, same⟩
      cases same
      have := actions action bytes rfl action_encoded
      rw [List.cons_append, List.length_cons, List.length_append, Bytes.length_ofNat]
      omega
  | commit txn =>
      cases encoded
      rw [List.length_cons, Bytes.length_ofNat]
      exact some_room

end Entry

end Logbook

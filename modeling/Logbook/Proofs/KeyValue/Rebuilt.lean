import Logbook.Proofs.KeyValue.Replayed
import Logbook.Proofs.KeyValue.RoundTrip

/-!
# Recovery rebuilds a store

A log with the records of a history, cut into regions anywhere, is recovered under
any schedule, and the store that recovery leaves shows what stands of the history.
-/

namespace Logbook.KeyValue

open Recovery

/-- The record of a mutation that is logged from a store. -/
def Store.record (store : Store) (stamped : Stamped) : Record where
  lsn := stamped.lsn
  lowest := Lsn.first
  payload := (store.build stamped.operation).payload

/-- The records of mutations that are logged one after the other. -/
def Store.records (store : Store) : List Stamped → List Record
  | [] => []
  | stamped :: rest =>
      store.record stamped :: (store.apply stamped.operation stamped.lsn).records rest

namespace Store

variable {store : Store} {history front back : List Stamped} {stamped : Stamped}

theorem applyAll_append (front back : List Stamped) :
    store.applyAll (front ++ back) = (store.applyAll front).applyAll back :=
  List.foldl_append

theorem applyAll_cons (stamped : Stamped) (history : List Stamped) :
    store.applyAll (stamped :: history) =
      (store.apply stamped.operation stamped.lsn).applyAll history :=
  rfl

theorem records_append (front back : List Stamped) :
    store.records (front ++ back) =
      store.records front ++ (store.applyAll front).records back := by
  induction front generalizing store with
  | nil => rfl
  | cons stamped front ih =>
      rw [List.cons_append, records, ih, records]
      rfl

@[simp]
theorem length_records (history : List Stamped) :
    (store.records history).length = history.length := by
  induction history generalizing store with
  | nil => rfl
  | cons stamped history ih => rw [records, List.length_cons, ih, List.length_cons]

theorem map_lsn_records (history : List Stamped) :
    (store.records history).map (·.lsn) = history.map (·.lsn) := by
  induction history generalizing store with
  | nil => rfl
  | cons stamped history ih =>
      rw [records, List.map_cons, ih, List.map_cons]
      rfl

theorem mem_records {record : Record} (member : record ∈ store.records history) :
    ∃ front stamped back, history = front ++ stamped :: back ∧
      record = (store.applyAll front).record stamped := by
  induction history generalizing store with
  | nil => cases member
  | cons head tail ih =>
      rcases List.mem_cons.mp member with rfl | inside
      · exact ⟨[], head, tail, rfl, rfl⟩
      · rcases ih inside with ⟨front, stamped, back, rfl, same⟩
        exact ⟨head :: front, stamped, back, rfl, same⟩

theorem record_mem_records (front : List Stamped) (stamped : Stamped) (back : List Stamped) :
    (store.applyAll front).record stamped ∈ store.records (front ++ stamped :: back) := by
  rw [records_append]
  exact List.mem_append_right _ List.mem_cons_self

/-- What the records of a history start with are those of a first stretch of it. -/
theorem records_take {front back : List Record} (split : front ++ back = store.records history) :
    front = store.records (history.take front.length) := by
  have whole := store.records_append (history.take front.length) (history.drop front.length)
  rw [List.take_append_drop, ← split] at whole
  have length := congrArg List.length split
  rw [List.length_append, length_records] at length
  apply (List.append_inj whole _).1
  rw [length_records, List.length_take]
  omega

/-- A store supersedes at most one earlier mutation of a history. -/
theorem Shows.build_fits (shows : Shows store history) {operation : Operation}
    (short : operation.Short) (lsn_lt : ∀ stamped ∈ history, stamped.lsn < 256 ^ 8) :
    (store.build operation).Fits where
  short := short
  count_lt := by
    have length_le {last : Option Nat} : last.toList.length < Codec.fieldLimit :=
      Nat.lt_of_le_of_lt Option.length_toList_le (by decide)
    cases operation with
    | put | delete | deleteScope => exact length_le
  lsn_lt lsn listed := by
    rcases shows.mem_supersededBy_iff.mp listed with ⟨older, _, stands⟩
    exact lsn_lt _ stands.1

/-- An entry that is built from a store is read back. -/
theorem Shows.decode_of_encode (shows : Shows store history)
    (lsn_lt : ∀ stamped ∈ history, stamped.lsn < 256 ^ 8) {entry : Entry Operation}
    {payload : Bytes} (encoded : (entry.map store.build).encode app = .ok payload)
    (txn_lt : ∀ txn, entry.txn? = some txn → txn < Sequencer.wordSize) :
    Entry.decode app payload = .ok (entry.map store.build) ∧ payload.length < 256 ^ 8 := by
  have actions : ∀ action bytes, (entry.map store.build).action? = some action →
      app.encode action = .ok bytes → action.Fits ∧ bytes = Codec.bytesOf action := by
    intro action bytes has_action encoded
    rw [Entry.action?_map] at has_action
    rcases Option.map_eq_some_iff.mp has_action with ⟨operation, _, rfl⟩
    have short := Codec.short_of_encode encoded
    have bytes_eq := encoded.symm.trans (Codec.encode_eq short)
    exact ⟨shows.build_fits short lsn_lt, Except.ok.inj bytes_eq⟩
  constructor
  · apply Entry.decode_of_encode encoded
    · intro txn names
      rw [Entry.txn?_map] at names
      exact txn_lt txn names
    · intro action bytes has_action encoded
      rcases actions action bytes has_action encoded with ⟨fits, rfl⟩
      exact Codec.decode_bytesOf fits
  · apply Entry.length_lt_of_encode encoded (by decide)
    intro action bytes has_action encoded
    rcases actions action bytes has_action encoded with ⟨fits, rfl⟩
    exact Codec.length_bytesOf_lt fits

end Store

/-- The mutations of a history that come before one. -/
theorem filter_lt_of_ordered {front back : List Stamped} {stamped : Stamped}
    (ordered : (front ++ stamped :: back).Pairwise (·.lsn < ·.lsn)) :
    (front ++ stamped :: back).filter (·.lsn < stamped.lsn) = front := by
  rcases List.pairwise_append.mp ordered with ⟨_, behind, before⟩
  rw [List.filter_append, List.filter_eq_self.mpr, List.filter_eq_nil_iff.mpr, List.append_nil]
  · intro later member
    rw [decide_eq_true_eq, Nat.not_lt]
    rcases List.mem_cons.mp member with rfl | inside
    · exact Nat.le_refl _
    · exact Nat.le_of_lt ((List.pairwise_cons.mp behind).1 later inside)
  · exact fun earlier member =>
      decide_eq_true (before earlier member stamped List.mem_cons_self)

/-- A history whose records a log can hold. -/
structure Loggable (history : List Stamped) : Prop where
  consecutive : history.map (·.lsn) = List.range' Lsn.first history.length
  short : ∀ stamped ∈ history, stamped.operation.Short
  lsn_lt : ∀ stamped ∈ history, stamped.lsn < 256 ^ 8

namespace Loggable

variable {history front back : List Stamped} {stamped : Stamped}

theorem ordered (loggable : Loggable history) : history.Pairwise (·.lsn < ·.lsn) :=
  ordered_of_consecutive loggable.consecutive

theorem consecutive_records (loggable : Loggable history) :
    Record.Consecutive Lsn.first (Store.empty.records history) := by
  rw [Record.Consecutive, Store.map_lsn_records, Store.length_records]
  exact loggable.consecutive

theorem of_append (loggable : Loggable (front ++ back)) : Loggable front where
  consecutive := by
    have consecutive := loggable.consecutive
    rw [List.map_append, List.length_append, ← List.range'_append_1] at consecutive
    exact (List.append_inj consecutive (by simp)).1
  short stamped member := loggable.short stamped (List.mem_append_left _ member)
  lsn_lt stamped member := loggable.lsn_lt stamped (List.mem_append_left _ member)

/-- A history is logged further under the next number. -/
theorem concat (loggable : Loggable history) {operation : Operation} (short : operation.Short)
    (lsn_lt : Lsn.first + history.length < 256 ^ 8) :
    Loggable (history ++ [⟨Lsn.first + history.length, operation⟩]) where
  consecutive := by
    rw [List.map_append, loggable.consecutive, List.length_append, ← List.range'_append_1]
    rfl
  short := by
    rw [List.forall_mem_append, List.forall_mem_singleton]
    exact ⟨loggable.short, short⟩
  lsn_lt := by
    rw [List.forall_mem_append, List.forall_mem_singleton]
    exact ⟨loggable.lsn_lt, lsn_lt⟩

theorem shows (loggable : Loggable history) : (Store.empty.applyAll history).Shows history :=
  shows_of_ordered loggable.ordered

theorem fits (loggable : Loggable (front ++ stamped :: back)) :
    ((Store.empty.applyAll front).build stamped.operation).Fits := by
  apply loggable.of_append.shows.build_fits
  · exact loggable.short stamped (List.mem_append_right _ List.mem_cons_self)
  · exact fun earlier member => loggable.lsn_lt earlier (List.mem_append_left _ member)

theorem record_fits (loggable : Loggable (front ++ stamped :: back)) :
    ((Store.empty.applyAll front).record stamped).Fits where
  lsn_lt := loggable.lsn_lt stamped (List.mem_append_right _ List.mem_cons_self)
  lowest_lt := by
    change Lsn.first < 256 ^ 8
    decide
  length_lt := by
    have length := Codec.length_bytesOf_lt loggable.fits
    change (Codec.bytesOf _).length + 1 < 256 ^ 8
    omega

theorem decode_record (loggable : Loggable (front ++ stamped :: back)) :
    Entry.decode app ((Store.empty.applyAll front).record stamped).payload =
      .ok (.plain ((Store.empty.applyAll front).build stamped.operation)) :=
  Action.decode_payload loggable.fits

/-- The entries of the log are those of the history. -/
theorem tells (loggable : Loggable history) {pieces : List Piece} {newest : Record}
    (records_eq : pieces.flatMap Piece.records = Store.empty.records history)
    (newest_eq : (Store.empty.records history).getLast? = some newest) :
    Tells (Ledger.ofPieces app newest pieces) history where
  ordered := loggable.ordered
  entry stamped member := by
    rcases List.append_of_mem member with ⟨front, back, rfl⟩
    refine ⟨Store.empty.applyAll front, ?_, ?_⟩
    · rw [filter_lt_of_ordered loggable.ordered]
      exact loggable.of_append.shows
    · have found := loggable.consecutive_records.find?_lsn
        (Store.empty.record_mem_records front stamped back)
      change List.find? (fun record : Record => record.lsn = stamped.lsn) _ = _ at found
      simp only [Ledger.ofPieces, Ledger.ofRecords, records_eq, found, Option.bind_some,
        loggable.decode_record]
      rfl
  le_highest stamped member := by
    have last := loggable.consecutive_records.getLast newest_eq
    have inside : stamped.lsn ∈ history.map (·.lsn) := List.mem_map.mpr ⟨stamped, member, rfl⟩
    rw [loggable.consecutive, List.mem_range'_1] at inside
    rw [Store.length_records] at last
    rw [← last] at inside
    exact Nat.le_of_lt_succ inside.2
  complete lsn entry found := by
    rcases Option.bind_eq_some_iff.mp found with ⟨record, seen, _⟩
    have member := List.mem_of_find?_eq_some seen
    rw [records_eq] at member
    rcases Store.mem_records member with ⟨front, stamped, back, rfl, rfl⟩
    have same := List.find?_some seen
    exact ⟨stamped, List.mem_append_right _ List.mem_cons_self, of_decide_eq_true same⟩

end Loggable

/-- Pieces of a log that holds a history. -/
structure Holding (policy : FormatPolicy) (pieces : List Piece) (history : List Stamped) :
    Prop where
  cut : Piece.Cut policy Lsn.first pieces
  current : ∀ piece ∈ pieces, piece.format = .current
  records_eq : pieces.flatMap Piece.records = Store.empty.records history
  loggable : Loggable history

namespace Holding

variable {policy : FormatPolicy} {pieces : List Piece} {history : List Stamped}

theorem recoverable (holding : Holding policy pieces history) {newest : Record}
    (newest_eq : (Store.empty.records history).getLast? = some newest) :
    Recoverable app policy {} Lsn.first pieces newest Lsn.first := by
  have newest_eq' := newest_eq
  rw [← holding.records_eq] at newest_eq'
  apply recoverable_of_whole holding.cut holding.current newest_eq'
  · rcases Store.mem_records (List.mem_of_getLast? newest_eq) with ⟨front, stamped, back, _, rfl⟩
    rfl
  · intro record member
    have loggable := holding.loggable
    rw [holding.records_eq] at member
    rcases Store.mem_records member with ⟨front, stamped, back, rfl, rfl⟩
    exact ⟨_, loggable.decode_record⟩

/-- Recovery, under any schedule, leaves a store that shows what stands. -/
theorem recovers {config : Config} (holding : Holding config.formatPolicy pieces history)
    (schedule : Schedule) :
    ∃ report final uses,
      recoverWith app schedule config {} ((pieces.map Piece.chunk).reverse.map .ok) .empty =
        ⟨.ok report, final, uses⟩ ∧
      report.highest = history.getLast?.map (·.lsn) ∧ report.boundary = Lsn.first ∧
      final.Shows history := by
  have lsns : (Store.empty.records history).map (·.lsn) = _ := Store.map_lsn_records history
  cases newest_eq : (Store.empty.records history).getLast? with
  | none =>
      have no_records := List.getLast?_eq_none_iff.mp newest_eq
      rw [no_records] at lsns
      have no_history : history = [] := List.map_eq_nil_iff.mp lsns.symm
      have no_pieces := holding.cut.eq_nil (holding.records_eq.trans no_records)
      subst no_history no_pieces
      exact ⟨_, _, _, rfl, rfl, rfl, Store.Shows.empty⟩
  | some newest =>
      have recoverable := holding.recoverable newest_eq
      have tells := holding.loggable.tells holding.records_eq newest_eq
      rcases recoverWith_shared replays recoverable schedule .empty with
        ⟨report, final, uses, recovered, highest, boundary, shuffled, _, carried⟩
      refine ⟨report, final, uses, recovered, ?_, boundary, ?_⟩
      · rw [highest, ← List.getLast?_map, ← lsns, List.getLast?_map, newest_eq]
        rfl
      · have inside : ∀ stamped ∈ history, stamped.lsn ∈ descent Lsn.first newest.lsn := by
          intro stamped member
          rw [mem_descent]
          constructor
          · have inside : stamped.lsn ∈ history.map (·.lsn) :=
              List.mem_map.mpr ⟨stamped, member, rfl⟩
            rw [holding.loggable.consecutive, List.mem_range'_1] at inside
            exact inside.1
          · exact tells.le_highest stamped member
        exact shows_of_carryOutAll (fun stamped => tells.mem_replayedOf_uses inside)
          (pairwise_descent _ _) shuffled carried

end Holding

end Logbook.KeyValue

import Logbook.Proofs.KeyValue.Resurfacing
import Logbook.Proofs.Recovery.Gapless

/-!
# Recovery of a history with transactions

The records of a history were logged one after the other, each from a store that showed
the mutations before it. Cut into regions anywhere, they are recovered under any
schedule, and the store that recovery leaves has the value of every key that no put of
which resurfaces.
-/

namespace Logbook.KeyValue

open Recovery

/-- The transaction is not committed in the history. -/
def Unended (history : List Logged) (txn : Nat) : Prop :=
  ∀ logged ∈ history, logged.entry ≠ .commit txn

/-- The records of a history, in which nothing comes of a transaction behind its commit. -/
inductive Recounts : List Logged → List Record → Prop where
  | nil : Recounts [] []
  | concat {history : List Logged} {records : List Record} {logged : Logged} {record : Record}
      {store : Store} (before : Recounts history records)
      (shows : store.Shows (mutations history))
      (unended : ∀ txn ∈ logged.entry.txn?, Unended history txn)
      (lsn_eq : record.lsn = logged.lsn) (lowest_eq : record.lowest = Lsn.first)
      (decoded : Entry.decode app record.payload = .ok (logged.entry.map store.build)) :
      Recounts (history ++ [logged]) (records ++ [record])

namespace Recounts

variable {history front back : List Logged} {records : List Record} {logged : Logged}
  {record : Record}

theorem map_lsn (recounts : Recounts history records) :
    history.map (·.lsn) = records.map (·.lsn) := by
  induction recounts with
  | nil => rfl
  | concat before shows unended lsn_eq lowest_eq decoded ih =>
      rw [List.map_append, List.map_append, ih, List.map_singleton, List.map_singleton, lsn_eq]

theorem length_eq (recounts : Recounts history records) : history.length = records.length := by
  have lengths := congrArg List.length recounts.map_lsn
  rw [List.length_map, List.length_map] at lengths
  exact lengths

/-- A record is read back. -/
theorem of_record (recounts : Recounts history records) (member : record ∈ records) :
    record.lowest = Lsn.first ∧ ∃ entry, Entry.decode app record.payload = .ok entry := by
  induction recounts with
  | nil => cases member
  | concat before shows unended lsn_eq lowest_eq decoded ih =>
      rcases List.mem_append.mp member with inside | here
      · exact ih inside
      · cases List.mem_singleton.mp here
        exact ⟨lowest_eq, _, decoded⟩

/-- An entry was logged from a store that showed the mutations before it. -/
theorem of_logged (recounts : Recounts history records) (member : logged ∈ history) :
    ∃ front back, history = front ++ logged :: back ∧
      ∃ store : Store, store.Shows (mutations front) ∧
        ∃ record ∈ records, record.lsn = logged.lsn ∧
          Entry.decode app record.payload = .ok (logged.entry.map store.build) := by
  induction recounts with
  | nil => cases member
  | @concat history records newest _ store before shows unended lsn_eq lowest_eq decoded ih =>
      rcases List.mem_append.mp member with inside | here
      · rcases ih inside with ⟨front, back, rfl, store, shows, record, member, same, decoded⟩
        refine ⟨front, back ++ [newest], ?_, store, shows, record, List.mem_append_left _ member,
          same, decoded⟩
        rw [List.append_assoc, List.cons_append]
      · cases List.mem_singleton.mp here
        exact ⟨_, [], rfl, _, shows, _, List.mem_append_right _ (List.mem_singleton_self _), lsn_eq,
          decoded⟩

theorem ordered (recounts : Recounts history records)
    (consecutive : Record.Consecutive Lsn.first records) :
    history.Pairwise (·.lsn < ·.lsn) := by
  have ascending : (List.range' Lsn.first records.length).Pairwise (· < ·) :=
    List.pairwise_lt_range'
  rw [← consecutive, ← recounts.map_lsn, List.pairwise_map] at ascending
  exact ascending

theorem pairwise_unended (recounts : Recounts history records) :
    history.Pairwise fun earlier later =>
      ∀ txn ∈ later.entry.txn?, earlier.entry ≠ .commit txn := by
  induction recounts with
  | nil => exact .nil
  | concat before shows unended lsn_eq lowest_eq decoded ih =>
      refine List.pairwise_append.mpr ⟨ih, List.pairwise_singleton _ _, ?_⟩
      intro earlier member later new txn names
      cases List.mem_singleton.mp new
      exact unended txn names earlier member

/-- The members of a transaction come before its commit. -/
theorem lsn_lt_commit (recounts : Recounts history records)
    (consecutive : Record.Consecutive Lsn.first records) {member commit : Logged}
    (logged : member ∈ history) (committed : commit ∈ history) {txn : Nat}
    {operation : Operation} (is_member : member.entry = .member txn operation)
    (commits : commit.entry = .commit txn) : member.lsn < commit.lsn := by
  rcases List.append_of_mem committed with ⟨front, back, rfl⟩
  rcases List.mem_append.mp logged with before | behind
  · exact (List.pairwise_append.mp (recounts.ordered consecutive)).2.2 member before commit
      List.mem_cons_self
  · rcases List.mem_cons.mp behind with rfl | behind
    · cases is_member.symm.trans commits
    · have unended := (List.pairwise_append.mp recounts.pairwise_unended).2.1
      have names : txn ∈ member.entry.txn? := congrArg Entry.txn? is_member
      exact absurd commits ((List.pairwise_cons.mp unended).1 member behind txn names)

end Recounts

/-- The mutations before an entry are those with lower numbers. -/
theorem mutations_filter_lt {front back : List Logged} {logged : Logged}
    (ordered : (front ++ logged :: back).Pairwise (·.lsn < ·.lsn)) :
    (mutations (front ++ logged :: back)).filter (·.lsn < logged.lsn) = mutations front := by
  rcases List.pairwise_append.mp ordered with ⟨_, behind, before⟩
  rw [mutations_append, List.filter_append, List.filter_eq_self.mpr, List.filter_eq_nil_iff.mpr,
    List.append_nil]
  · intro stamped member
    rcases mem_mutations_iff.mp member with ⟨later, inside, has⟩
    rw [decide_eq_true_eq, Nat.not_lt, ← (stamped?_eq_some_iff.mp has).1]
    rcases List.mem_cons.mp inside with rfl | inside
    · exact Nat.le_refl _
    · exact Nat.le_of_lt ((List.pairwise_cons.mp behind).1 later inside)
  · intro stamped member
    rcases mem_mutations_iff.mp member with ⟨earlier, inside, has⟩
    rw [decide_eq_true_eq, ← (stamped?_eq_some_iff.mp has).1]
    exact before earlier inside logged List.mem_cons_self

namespace Recounts

variable {history : List Logged} {records : List Record}

/-- The entries of the log are those of the history. -/
theorem attests (recounts : Recounts history records)
    (consecutive : Record.Consecutive Lsn.first records) {newest : Record}
    (newest_eq : records.getLast? = some newest) :
    Attests (Ledger.ofRecords app newest.lsn records) history where
  ordered := recounts.ordered consecutive
  entry logged member := by
    have ordered := recounts.ordered consecutive
    rcases recounts.of_logged member with
      ⟨front, back, rfl, store, shows, record, inside, lsn_eq, decoded⟩
    refine ⟨store, ?_, ?_⟩
    · rw [mutations_filter_lt ordered]
      exact shows
    · rw [← lsn_eq, Ledger.entry_ofRecords consecutive inside, decoded]
      rfl
  le_highest logged member := by
    rcases recounts.of_logged member with ⟨_, _, _, _, _, record, inside, lsn_eq, _⟩
    have last := consecutive.getLast newest_eq
    have bounds := consecutive.bounds inside
    change logged.lsn ≤ newest.lsn
    omega
  complete lsn entry found := by
    rcases Option.bind_eq_some_iff.mp found with ⟨record, seen, _⟩
    have member : record.lsn ∈ records.map (·.lsn) :=
      List.mem_map.mpr ⟨record, List.mem_of_find?_eq_some seen, rfl⟩
    rw [← recounts.map_lsn] at member
    rcases List.mem_map.mp member with ⟨logged, inside, lsn_eq⟩
    exact ⟨logged, inside, lsn_eq.trans (by simpa using List.find?_some seen)⟩
  before_commit _ logged _ committed _ _ is_member commits :=
    recounts.lsn_lt_commit consecutive logged committed is_member commits

/-- Recovery, under any schedule, leaves the values of the mutations that take effect, but
for puts that resurface. -/
theorem recovers {config : Config} {pieces : List Piece}
    (recounts : Recounts history (pieces.flatMap Piece.records))
    (cut : Piece.Cut config.formatPolicy Lsn.first pieces)
    (current : ∀ piece ∈ pieces, piece.format = .current)
    (schedule : Schedule) :
    ∃ report final uses,
      recoverWith app schedule config {} ((pieces.map Piece.chunk).reverse.map .ok) .empty =
        ⟨.ok report, final, uses⟩ ∧
      final.Salvages history := by
  cases newest_eq : (pieces.flatMap Piece.records).getLast? with
  | none =>
      have no_records := List.getLast?_eq_none_iff.mp newest_eq
      have lsns := recounts.map_lsn
      rw [no_records] at lsns
      have no_history : history = [] := List.map_eq_nil_iff.mp lsns
      have no_pieces := cut.eq_nil no_records
      subst no_history no_pieces
      refine ⟨_, _, _, rfl, fun key _ => rfl, ?_⟩
      rintro key ⟨_, _, _, _, resurfacing⟩
      exact absurd resurfacing.put_effective List.not_mem_nil
  | some newest =>
      have last := cut.consecutive.getLast newest_eq
      have recoverable := recoverable_of_whole cut current newest_eq
        (recounts.of_record (List.mem_of_getLast? newest_eq)).1
        fun record member => (recounts.of_record member).2
      have attests := recounts.attests cut.consecutive newest_eq
      rcases recoverWith_shared replays recoverable schedule .empty with
        ⟨report, final, uses, recovered, _, _, shuffled, ordered, carried⟩
      have all : ∀ logged ∈ history, logged.lsn ∈ descent Lsn.first newest.lsn := by
        intro logged member
        rcases recounts.of_logged member with ⟨_, _, _, _, _, record, inside, lsn_eq, _⟩
        have bounds := cut.consecutive.bounds inside
        rw [mem_descent]
        omega
      have rerun := attests.rerun all (pairwise_descent _ _) shuffled ordered
      exact ⟨report, final, uses, recovered,
        (rerun.salvages attests).of_entries (Store.entries_of_carryOutAll rfl carried)⟩

end Recounts

end Logbook.KeyValue

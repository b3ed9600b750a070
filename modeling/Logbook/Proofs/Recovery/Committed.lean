import Logbook.Proofs.Recovery.Gapless

/-!
# What a recovery knows of transactions

A recovery that succeeds knows the transactions of the records it has scanned: the
number that it hands on is above those of all of them, and a member that it replays has
the commit of its transaction behind it, somewhere in the log. Of records below the
boundary it knows nothing.
-/

namespace Logbook

theorem Unpacks.auto {policy : FormatPolicy} {chunks : List Chunk} {parts : List (List Record)}
    (unpacks : Unpacks policy chunks parts) : Unpacks .auto chunks parts := by
  induction chunks generalizing parts with
  | nil => exact unpacks
  | cons chunk chunks ih =>
      rcases List.map_eq_cons_iff.mp unpacks.symm with ⟨records, more, rfl, here, later⟩
      rw [Unpacks, List.map_cons, List.map_cons, Region.unpack_auto here.symm]
      exact congrArg _ (ih later.symm)

/-- Regions that are read are read one by one. -/
theorem Unpacks.split {policy : FormatPolicy} {front back : List Chunk}
    {parts read : List (List Record)} (unpacks : Unpacks policy (front ++ back) parts)
    (unpacks_back : Unpacks policy back read) : ∃ before, parts = before ++ read := by
  rw [Unpacks, List.map_append] at unpacks
  rcases List.map_eq_append_iff.mp unpacks.symm with ⟨before, after, rfl, _, after_eq⟩
  have same := after_eq.trans unpacks_back
  rw [List.map_inj_right fun _ _ => Except.ok.inj] at same
  exact ⟨before, congrArg _ same⟩

/-- What some reader makes of a region is among the records of the regions. -/
theorem Unpacks.mem {policy : FormatPolicy} {chunks : List Chunk} {parts : List (List Record)}
    (unpacks : Unpacks .auto chunks parts) {chunk : Chunk} (member : chunk ∈ chunks)
    {records : List Record}
    (unpacked : Region.unpack chunk.lsn policy chunk.bytes = .ok records) : records ∈ parts := by
  have found : (.ok records : Except LogError (List Record)) ∈ parts.map .ok := by
    rw [← unpacks, ← Region.unpack_auto unpacked]
    exact List.mem_map.mpr ⟨chunk, member, rfl⟩
  rcases List.mem_map.mp found with ⟨part, member, same⟩
  cases same
  exact member

/-- The number of the newest region is that of the newest record. -/
theorem Unpacks.newest {policy : FormatPolicy} {chunks : List Chunk} {parts : List (List Record)}
    {first : Nat} (unpacks : Unpacks policy chunks parts)
    (consecutive : Record.Consecutive first parts.flatten) (some_chunks : chunks ≠ []) :
    ∃ newest, chunks.getLast? = some newest ∧ newest.lsn + 1 = first + parts.flatten.length := by
  rcases List.eq_nil_or_concat chunks with rfl | ⟨front, newest, rfl⟩
  · exact absurd rfl some_chunks
  rw [List.concat_eq_append] at unpacks ⊢
  rw [Unpacks, List.map_append] at unpacks
  rcases List.map_eq_append_iff.mp unpacks.symm with ⟨before, after, rfl, _, after_eq⟩
  rcases List.map_eq_cons_iff.mp after_eq with ⟨records, rest, rfl, unpacked, none⟩
  cases List.map_eq_nil_iff.mp none
  rcases (Region.endsAt_of_unpack unpacked.symm).last with ⟨last, found, lsn_eq⟩
  refine ⟨newest, List.getLast?_concat, ?_⟩
  rw [List.flatten_append, List.flatten_singleton] at consecutive ⊢
  rw [← lsn_eq]
  refine consecutive.getLast ?_
  rw [List.getLast?_append, found]
  rfl

namespace Recovery

variable {α σ : Type} {app : Application α σ} {state : σ} {schedule : Schedule} {config : Config}
  {options : RecoveryOptions} {chunks : List Chunk} {report : RecoveryReport}
  {parts : List (List Record)} {first : Nat}

/-- What was read is the newest part of the log. -/
theorem Readings.suffix {policy : FormatPolicy} {highest start : Nat} {unread read : List Chunk}
    {scanned : List (List Record)}
    (readings : Readings policy report highest chunks unread read scanned start)
    (le : report.boundary ≤ highest) (unpacks : Unpacks .auto chunks parts)
    (consecutive : Record.Consecutive first parts.flatten) :
    ∃ older, parts.flatten = older ++ scanned.flatten ∧
      Record.Consecutive first older ∧ start = first + older.length := by
  rw [readings.chunks_eq] at unpacks
  rcases unpacks.split readings.unpacks.auto with ⟨before, rfl⟩
  rw [List.flatten_append] at consecutive ⊢
  rcases Record.consecutive_append.mp consecutive with ⟨older, newer⟩
  refine ⟨_, rfl, older, ?_⟩
  have := readings.first_le
  have := readings.ends
  have some_records : 0 < scanned.flatten.length := by omega
  have found := List.getElem?_eq_getElem some_records
  exact (readings.consecutive.lsn_of_getElem? found).symm.trans (newer.lsn_of_getElem? found)

/-- Records from the boundary on were read. -/
theorem Readings.mem {policy : FormatPolicy} {highest start : Nat} {unread read : List Chunk}
    {scanned : List (List Record)}
    (readings : Readings policy report highest chunks unread read scanned start)
    (le : report.boundary ≤ highest) (unpacks : Unpacks .auto chunks parts)
    (consecutive : Record.Consecutive first parts.flatten) {record : Record}
    (member : record ∈ parts.flatten) (above : report.boundary ≤ record.lsn) :
    record ∈ scanned.flatten ∧ record.lsn ≤ highest := by
  rcases readings.suffix le unpacks consecutive with ⟨older, records_eq, older_lsns, start_eq⟩
  have := readings.first_le
  have := readings.ends
  rw [records_eq] at member
  rcases List.mem_append.mp member with below | scanned
  · have := (older_lsns.bounds below).2
    omega
  · have := (readings.consecutive.bounds scanned).2
    exact ⟨scanned, by omega⟩

/-- A recovery that succeeds hands on a number above those of the transactions that the
records from the boundary on name. -/
theorem txn_lt_of_recovered
    (recovered : (recoverWith app schedule config options (chunks.reverse.map .ok) state).outcome =
      .ok report)
    (unpacks : Unpacks .auto chunks parts) (consecutive : Record.Consecutive first parts.flatten)
    {record : Record} (member : record ∈ parts.flatten) (above : report.boundary ≤ record.lsn)
    {entry : Entry α} (decoded : Entry.decode app record.payload = .ok entry) {txn : Nat}
    (names : entry.txn? = some txn) : txn < report.nextTxn := by
  rcases recoverWith_ok_cases recovered with ⟨none_above, _⟩ |
    ⟨highest, highest_eq, le, unread, read, scanned, start, readings, accounts⟩
  · have highest_eq := highest_of_recoverWith recovered
    have some_chunks : chunks ≠ [] := by
      rintro rfl
      cases List.map_eq_nil_iff.mp unpacks.symm
      cases member
    rcases unpacks.newest consecutive some_chunks with ⟨newest, found, newest_eq⟩
    rw [found] at highest_eq
    have newest_lt : newest.lsn < report.boundary := none_above _ highest_eq
    have := (consecutive.bounds member).2
    omega
  · rcases readings.mem le unpacks consecutive member above with ⟨inside, le_highest⟩
    refine accounts.reported.txn_lt record.lsn (mem_descent.mpr ⟨above, le_highest⟩) entry txn ?_
      names
    rw [Ledger.entry_ofRecords readings.consecutive inside, decoded]
    rfl

/-- A recovery that succeeds replays records of the log, and of a transaction only if the
log has a newer commit of it. -/
theorem committed_of_replayed
    (recovered : (recoverWith app schedule config options (chunks.reverse.map .ok) state).outcome =
      .ok report)
    (unpacks : Unpacks .auto chunks parts) (consecutive : Record.Consecutive first parts.flatten)
    {job : Job α}
    (replayed : .replayed job ∈
      (recoverWith app schedule config options (chunks.reverse.map .ok) state).uses) :
    ∃ record ∈ parts.flatten, record.lsn = job.lsn ∧ ∃ entry,
      Entry.decode app record.payload = .ok entry ∧ entry.action? = some job.action ∧
      ∀ txn, entry = .member txn job.action → ∃ commit ∈ parts.flatten,
        job.lsn < commit.lsn ∧ Entry.decode app commit.payload = .ok (.commit txn) := by
  rcases recoverWith_ok_cases recovered with ⟨_, nothing⟩ |
    ⟨highest, _, le, unread, read, scanned, start, readings, accounts⟩
  · rw [nothing] at replayed
    cases replayed
  rcases readings.suffix le unpacks consecutive with ⟨older, records_eq, _⟩
  have known : ∀ lsn entry, (Ledger.ofRecords app highest scanned.flatten).entry lsn = some entry →
      ∃ record ∈ parts.flatten, record.lsn = lsn ∧ Entry.decode app record.payload = .ok entry := by
    intro lsn entry found
    rcases Option.bind_eq_some_iff.mp found with ⟨record, found, decoded⟩
    refine ⟨record, ?_, by simpa using List.find?_some found, ?_⟩
    · rw [records_eq]
      exact List.mem_append_right _ (List.mem_of_find?_eq_some found)
    · exact decode_of_toOption decoded
  have prescribed := accounts.uses.mem_iff.mp replayed
  rcases List.mem_filterMap.mp prescribed with ⟨lsn, _, used⟩
  rcases Ledger.use?_eq_replayed_iff.mp used with ⟨rfl, replayed, has_action⟩
  rcases Option.bind_eq_some_iff.mp has_action with ⟨entry, found, has_action⟩
  rcases known _ _ found with ⟨record, member, lsn_eq, decoded⟩
  refine ⟨record, member, lsn_eq, entry, decoded, has_action, ?_⟩
  rintro txn rfl
  rcases Ledger.replayed_iff.mp replayed with ⟨entry', action', found', has_action', _, commits, _⟩
  rw [found] at found'
  cases found'
  cases has_action'
  rcases commits txn rfl with ⟨newer, ⟨after, _⟩, _, commit⟩
  rcases known _ _ commit with ⟨record', member', rfl, decoded'⟩
  exact ⟨record', member', after, decoded'⟩

end Recovery

end Logbook

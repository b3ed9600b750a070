import Logbook.Proofs.Recovery.Committed
import Logbook.Proofs.Recovery.Sifted

/-!
# What a recovery covers

A recovery that succeeds covers the records from its boundary on: each of them has a
fate, and its action is used as the fate says. It uses no action below the boundary. It
does succeed where the records follow one another down to the boundary, are decoded and
no replay fails.
-/

namespace Logbook.Recovery

variable {α σ : Type} {app : Application α σ} {state : σ} {schedule : Schedule} {config : Config}
  {options : RecoveryOptions} {chunks : List Chunk} {report : RecoveryReport}

/-- A recovery that has read the records `log` up to the number `highest` has found the
fate of one of them, and the action of that record is used as the fate says. -/
def Covers (app : Application α σ) (highest : Nat) (log : List Record) (result : Result α σ)
    (record : Record) : Prop :=
  record ∈ log ∧ ∃ entry fate, Entry.decode app record.payload = .ok entry ∧
    (Ledger.ofRecords app highest log).HasFate app record.lsn fate ∧
    ∀ action, entry.action? = some action → fate.use ⟨action, record.lsn⟩ ∈ result.uses

namespace Ledger

variable {ledger : Ledger α} {lsn : Nat}

theorem job_of_use? {use : Use α} (used : ledger.use? app lsn = some use) : use.job.lsn = lsn := by
  rcases Option.map_eq_some_iff.mp used with ⟨action, _, rfl⟩
  split <;> rfl

/-- The use of an action is that of its fate. -/
theorem use?_of_fate {fate : Fate} (has : ledger.HasFate app lsn fate) {entry : Entry α}
    {action : α} (found : ledger.entry lsn = some entry)
    (has_action : entry.action? = some action) :
    ledger.use? app lsn = some (fate.use ⟨action, lsn⟩) := by
  rw [use?, found, Option.bind_some, has_action, Option.map_some]
  by_cases replayed : ledger.Replayed app lsn
  · cases has.unique (show ledger.HasFate app lsn .survives from replayed)
    rw [if_pos replayed]
    rfl
  · rw [if_neg replayed]
    cases fate with
    | survives => exact absurd has replayed
    | superseded | commits | voided | deleted => rfl

end Ledger

/-- Records that were accounted for are covered. -/
theorem Accounts.covers {result : Result α σ} {highest first : Nat} {log : List Record}
    (accounts : Accounts app (.ofRecords app highest log) state report result)
    (consecutive : Record.Consecutive first log) {record : Record} (member : record ∈ log)
    (above : report.boundary ≤ record.lsn) (le : record.lsn ≤ highest) :
    Covers app highest log result record := by
  have inside : record.lsn ∈ descent report.boundary highest := mem_descent.mpr ⟨above, le⟩
  rcases accounts.entries record.lsn inside with ⟨entry, found⟩
  have known := Ledger.entry_ofRecords consecutive member app highest
  rcases Ledger.exists_fate app found with ⟨fate, has⟩
  refine ⟨member, entry, fate, decode_of_toOption (known.symm.trans found), has, ?_⟩
  intro action has_action
  exact accounts.uses.mem_iff.mpr
    (List.mem_filterMap.mpr ⟨record.lsn, inside, Ledger.use?_of_fate has found has_action⟩)

/-- A recovery that succeeds uses no action below its boundary. -/
theorem boundary_le_of_used
    (recovered : (recoverWith app schedule config options (chunks.reverse.map .ok) state).outcome =
      .ok report) {use : Use α}
    (used : use ∈ (recoverWith app schedule config options (chunks.reverse.map .ok) state).uses) :
    report.boundary ≤ use.job.lsn := by
  rcases recoverWith_ok_cases recovered with ⟨_, nothing⟩ |
    ⟨highest, _, _, _, _, _, _, _, accounts⟩
  · rw [nothing] at used
    cases used
  · rcases List.mem_filterMap.mp (accounts.uses.mem_iff.mp used) with ⟨lsn, inside, prescribed⟩
    rw [Ledger.job_of_use? prescribed]
    exact (mem_descent.mp inside).1

/-- The newest regions were read as far as their records go down to the boundary. -/
theorem Readings.covers {policy : FormatPolicy} {highest start first : Nat}
    {old new unread read : List Chunk} {scanned parts : List (List Record)}
    (readings : Readings policy report highest (old ++ new) unread read scanned start)
    (le : report.boundary ≤ highest) (unpacks : Unpacks .auto new parts)
    (consecutive : Record.Consecutive first parts.flatten) (below : report.boundary ≤ first) :
    parts.flatten ⊆ scanned.flatten := by
  have := readings.first_le
  have := readings.ends
  rcases List.append_eq_append_iff.mp readings.chunks_eq with
    ⟨front, _, rfl⟩ | ⟨back, _, rfl⟩
  · -- the oldest of the new regions were not read, and hold nothing
    rcases unpacks.split readings.unpacks.auto with ⟨before, rfl⟩
    rw [List.flatten_append] at consecutive ⊢
    have some_records : 0 < scanned.flatten.length := by omega
    have found := List.getElem?_eq_getElem some_records
    have start_eq := (readings.consecutive.lsn_of_getElem? found).symm.trans
      ((Record.consecutive_append.mp consecutive).2.lsn_of_getElem? found)
    have none : before.flatten = [] := List.length_eq_zero_iff.mp (by omega)
    rw [none]
    exact List.Subset.refl _
  · rcases readings.unpacks.auto.split unpacks with ⟨before, rfl⟩
    rw [List.flatten_append]
    exact List.subset_append_right _ _

/-- Records that follow one another from below the boundary up, behind anything. -/
theorem exists_front {first boundary : Nat} {items : List Scanned} (descends : Descends first items)
    (first_le : first ≤ boundary) (lt : boundary < first + items.length) :
    ∃ front item older, items = front ++ item :: older ∧ Descends boundary (front ++ [item]) ∧
      (front ++ [item]).head? = items.head? := by
  let count := first + items.length - boundary
  have split := List.take_append_drop count items
  have dropped : (items.drop count).length = boundary - first := by
    rw [List.length_drop]
    omega
  rw [← split, descends_append, dropped, Nat.add_sub_cancel' first_le] at descends
  have some_taken : items.take count ≠ [] := by
    intro none
    have length := congrArg List.length none
    rw [List.length_take, List.length_nil] at length
    omega
  rcases List.eq_nil_or_concat (items.take count) with none | ⟨front, item, taken⟩
  · exact absurd none some_taken
  rw [List.concat_eq_append] at taken
  refine ⟨front, item, items.drop count, ?_, taken ▸ descends.1, ?_⟩
  · rw [← List.singleton_append, ← List.append_assoc, ← taken, split]
  · rw [← taken, List.head?_take, if_neg (by omega)]

/-- A pass that has come to its end ends well, unless a replay fails. -/
theorem exists_report_of_sharing {pass : Pass α σ} {uses : List (Use α)} {final : σ}
    (sharing : Crew.Sharing app state uses pass.crew)
    (carried : Use.carryOutAll app (conclude app schedule .done pass).uses.reverse state =
      .ok final) :
    ∃ report, (conclude app schedule .done pass).outcome = .ok report := by
  unfold conclude at carried ⊢
  dsimp only at carried ⊢
  rcases sharing.join_cases schedule.after with done | ⟨⟨fault, faulted⟩, noted⟩
  · rw [done.firstError]
    exact ⟨_, rfl⟩
  · split at carried
    · rw [faulted] at carried
      cases carried
    · exact absurd ‹_› noted

/-- A recovery succeeds if the records follow one another down to the boundary, wherever that
is, all entries from there on are decoded and no replay fails. -/
theorem exists_report_of_unpacks {read unread : List Chunk} {parts : List (List Record)}
    {first : Nat} {newest : Record} {final : σ}
    (unpacks : Unpacks config.formatPolicy read parts)
    (consecutive : Record.Consecutive first parts.flatten)
    (newest_eq : parts.flatten.getLast? = some newest) (first_le : first ≤ options.boundary newest)
    (decoded : ∀ record ∈ parts.flatten, options.boundary newest ≤ record.lsn →
      ∃ entry, Entry.decode app record.payload = .ok entry)
    (carried : Use.carryOutAll app (recoverWith app schedule config options
      ((unread ++ read).reverse.map .ok) state).uses.reverse state = .ok final) :
    ∃ report, (recoverWith app schedule config options ((unread ++ read).reverse.map .ok)
      state).outcome = .ok report := by
  have unpacks_reversed : Unpacks config.formatPolicy read.reverse parts.reverse := by
    rw [Unpacks, List.map_reverse, unpacks, List.map_reverse]
  rcases unpackAll_append_of_unpacks unpacks_reversed 0 (unread.reverse.map .ok) with
    ⟨items, found, items_eq⟩
  rw [← List.map_append, ← List.reverse_append] at found
  rw [List.reverse_reverse] at items_eq
  have length : items.length = parts.flatten.length := by
    rw [← List.length_map (·.record), items_eq, List.length_reverse]
  have descends : Descends first items := by
    rw [Descends, length, ← consecutive, ← List.map_reverse, ← items_eq, List.map_map]
    rfl
  have newest_lsn := consecutive.getLast newest_eq
  rw [← List.head?_reverse, ← items_eq, List.head?_map, Option.map_eq_some_iff] at newest_eq
  rcases newest_eq with ⟨head, items_begin, rfl⟩
  rcases Nat.lt_or_ge head.record.lsn (options.boundary head.record) with above | le
  · rcases List.head?_eq_some_iff.mp items_begin with ⟨older, rfl⟩
    rcases recoverWith_above_eq app schedule state found above with
      ⟨pass, recover_eq, sharing, _⟩
    rw [recover_eq] at carried ⊢
    exact exists_report_of_sharing sharing carried
  rcases exists_front descends first_le (by omega) with ⟨front, item, older, rfl, down, begins⟩
  rw [items_begin] at begins
  have seen : (front ++ [item]).map (·.record) <+: parts.flatten.reverse := by
    rw [← items_eq, List.append_cons front item older]
    exact (List.prefix_append _ older).map _
  have known := known_of_seen consecutive seen app head.record.lsn
  have decoded_front : ∀ scanned ∈ front ++ [item],
      ∃ entry, Entry.decode app scanned.record.payload = .ok entry := by
    intro scanned member
    refine decoded scanned.record ?_ ?_
    · exact List.mem_reverse.mp (seen.subset (List.mem_map.mpr ⟨scanned, member, rfl⟩))
    · have bounds := (consecutive_of_descends down).bounds
        (List.mem_reverse.mpr (List.mem_map.mpr ⟨scanned, member, rfl⟩))
      exact bounds.1
  rw [List.map_append, List.append_assoc] at found
  rcases recoverWith_reaching schedule state found begins down known rfl with
    ⟨pass, recover_eq, reached, _⟩ | ⟨stop, pass, recover_eq, spoiled⟩
  · rw [recover_eq] at carried ⊢
    exact exists_report_of_sharing reached.sharing carried
  · rcases faulted_conclude schedule (spoiled.broken decoded_front) with ⟨fault, failed⟩
    rw [recover_eq, failed] at carried
    cases carried

end Logbook.Recovery

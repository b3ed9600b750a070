import Logbook.Proofs.KeyValue.Rebuilt
import Logbook.Proofs.Recovery.Curtailed
import Logbook.Proofs.Recovery.Gapless

/-!
# A history from some number on

The records of a log carry a history: each was logged from a store that showed the
mutations from some number on, and carries a number from which on all keys that were
live then had been put. That number only rises. So of the mutations before that of the
newest record none shows in the values of the store, and none that comes later renews
one of them without it being found: recovery from there on leaves the same values as all
mutations do.
-/

namespace Logbook.KeyValue

open Recovery

/-- The mutations of a history from a number on. -/
def onward (boundary : Nat) (history : List Stamped) : List Stamped :=
  history.filter (boundary ≤ ·.lsn)

/-- All puts that stand have numbers from `lowest` on. -/
def LiveFrom (lowest : Nat) (history : List Stamped) : Prop :=
  ∀ key value version, Stands history ⟨version, .put key value⟩ → lowest ≤ version

section Onward

variable {history : List Stamped} {next stamped : Stamped} {boundary lowest : Nat}

theorem mem_onward : stamped ∈ onward boundary history ↔
    stamped ∈ history ∧ boundary ≤ stamped.lsn := by
  rw [onward, List.mem_filter, decide_eq_true_eq]

theorem onward_append (front back : List Stamped) :
    onward boundary (front ++ back) = onward boundary front ++ onward boundary back :=
  List.filter_append _ _

theorem onward_concat (le : boundary ≤ next.lsn) :
    onward boundary (history ++ [next]) = onward boundary history ++ [next] := by
  rw [onward_append, onward, onward, List.filter_cons_of_pos (by simpa using le),
    List.filter_nil]

theorem onward_filter (boundary lsn : Nat) (history : List Stamped) :
    (onward boundary history).filter (·.lsn < lsn) =
      onward boundary (history.filter (·.lsn < lsn)) := by
  simp only [onward, List.filter_filter, Bool.and_comm]

/-- What stands of the newer part of a history is what stands of the whole. -/
theorem stands_onward_iff :
    Stands (onward boundary history) stamped ↔
      boundary ≤ stamped.lsn ∧ Stands history stamped := by
  constructor
  · rintro ⟨member, uncovered⟩
    rcases mem_onward.mp member with ⟨inside, le⟩
    refine ⟨le, inside, fun later later_inside lt => ?_⟩
    have le_later : boundary ≤ later.lsn := by omega
    exact uncovered later (mem_onward.mpr ⟨later_inside, le_later⟩) lt
  · rintro ⟨le, inside, uncovered⟩
    refine ⟨mem_onward.mpr ⟨inside, le⟩, fun later later_inside lt => ?_⟩
    exact uncovered later (mem_onward.mp later_inside).1 lt

theorem LiveFrom.mono (live : LiveFrom lowest history) (le : boundary ≤ lowest) :
    LiveFrom boundary history :=
  fun key value version stands => Nat.le_trans le (live key value version stands)

theorem LiveFrom.concat (live : LiveFrom lowest history) (timely : Timely history next)
    (le : lowest ≤ next.lsn) : LiveFrom lowest (history ++ [next]) := by
  intro key value version stands
  rcases (stands_concat timely).mp stands with ⟨before, _⟩ | rfl
  · exact live key value version before
  · exact le

theorem liveFrom_nil (lowest : Nat) : LiveFrom lowest [] :=
  fun _ _ _ stands => absurd stands.1 List.not_mem_nil

namespace Store.Shows

variable {store other : Store}

/-- A store that shows the newer part of a history has the same values as one that shows
the whole, if no key was put before and is still live. -/
theorem entries_eq (shows : Shows store (onward boundary history))
    (live : LiveFrom boundary history) (whole : Shows other history) :
    store.entries.toList = other.entries.toList := by
  apply toList_eq_of_getElem?
  intro key entry
  rw [show entry = ⟨entry.value, entry.version⟩ from rfl, shows.entries, whole.entries,
    stands_onward_iff]
  exact ⟨And.right, fun stands => ⟨live key entry.value entry.version stands, stands⟩⟩

/-- Such a store tells of a history from which number on its keys are live. -/
theorem liveFrom (shows : Shows store (onward boundary history))
    (live : LiveFrom boundary history)
    (above : ∀ pair ∈ store.entries.toList, lowest ≤ pair.2.version) :
    LiveFrom lowest history := by
  intro key value version stands
  have found := (shows.entries key value version).mpr
    (stands_onward_iff.mpr ⟨live key value version stands, stands⟩)
  exact above (key, ⟨value, version⟩) (Std.TreeMap.mem_toList_iff_getElem?_eq_some.mpr found)

/-- From a store that shows a newer part, mutations list what they would from one that
shows less, but for the numbers before that. -/
theorem mem_supersededBy_onward {start : Nat} (shows : Shows store (onward start history))
    (less : Shows other (onward boundary history)) (le : start ≤ boundary)
    {operation : Operation} {listed : Nat} (above : boundary ≤ listed) :
    listed ∈ store.supersededBy operation ↔ listed ∈ other.supersededBy operation := by
  rw [shows.mem_supersededBy_iff, less.mem_supersededBy_iff]
  simp only [stands_onward_iff]
  constructor
  · rintro ⟨older, renews, _, stands⟩
    exact ⟨older, renews, above, stands⟩
  · rintro ⟨older, renews, _, stands⟩
    exact ⟨older, renews, Nat.le_trans le above, stands⟩

end Store.Shows

end Onward

/-! ### Records that carry a history -/

/-- The records of a history, each logged from a store that showed it from `start` on, with
a number from which on all live keys had been put. -/
inductive Carries : List Stamped → List Record → Prop where
  | nil : Carries [] []
  | concat {history : List Stamped} {records : List Record} {stamped : Stamped}
      {record : Record} {store : Store} {start : Nat} (before : Carries history records)
      (shows : store.Shows (onward start history)) (first_le : Lsn.first ≤ start)
      (start_le : start ≤ record.lowest) (lowest_le : record.lowest ≤ record.lsn)
      (rising : ∀ other ∈ records, other.lowest ≤ record.lowest)
      (live : LiveFrom record.lowest history) (lsn_eq : record.lsn = stamped.lsn)
      (decoded : Entry.decode app record.payload =
        .ok (.plain (store.build stamped.operation))) :
      Carries (history ++ [stamped]) (records ++ [record])

namespace Carries

variable {history : List Stamped} {records front back : List Record} {stamped : Stamped}
  {record newest : Record}

theorem map_lsn (carries : Carries history records) :
    history.map (·.lsn) = records.map (·.lsn) := by
  induction carries with
  | nil => rfl
  | concat before shows first_le start_le lowest_le rising live lsn_eq decoded ih =>
      rw [List.map_append, List.map_append, ih, List.map_singleton, List.map_singleton, lsn_eq]

theorem length_eq (carries : Carries history records) : history.length = records.length := by
  have lengths := congrArg List.length carries.map_lsn
  rw [List.length_map, List.length_map] at lengths
  exact lengths

/-- The first of the records carry a first stretch of the history. -/
theorem of_append (carries : Carries history (front ++ back)) :
    ∃ kept, kept <+: history ∧ Carries kept front := by
  generalize whole : front ++ back = records at carries
  induction carries generalizing back with
  | nil =>
      rw [(List.append_eq_nil_iff.mp whole).1]
      exact ⟨[], List.nil_prefix, .nil⟩
  | concat before shows first_le start_le lowest_le rising live lsn_eq decoded ih =>
      rcases List.eq_nil_or_concat back with rfl | ⟨back, last, rfl⟩
      · rw [List.append_nil] at whole
        rw [whole]
        exact ⟨_, List.prefix_rfl,
          .concat before shows first_le start_le lowest_le rising live lsn_eq decoded⟩
      · rw [List.concat_eq_append, ← List.append_assoc] at whole
        rcases ih (List.append_inj' whole rfl).1 with ⟨kept, is_front, kept_carries⟩
        exact ⟨kept, is_front.trans (List.prefix_append _ _), kept_carries⟩

theorem ordered (carries : Carries history records) {first : Nat}
    (consecutive : Record.Consecutive first records) : history.Pairwise (·.lsn < ·.lsn) :=
  ordered_of_consecutive (carries.map_lsn.trans consecutive)

/-- What the newest record says of all. -/
theorem of_newest (carries : Carries history records)
    (newest_eq : records.getLast? = some newest) :
    Lsn.first ≤ newest.lowest ∧ newest.lowest ≤ newest.lsn ∧
      ∀ record ∈ records, record.lowest ≤ newest.lowest := by
  cases carries with
  | nil => cases newest_eq
  | concat before shows first_le start_le lowest_le rising live lsn_eq decoded =>
      rw [List.getLast?_concat] at newest_eq
      cases newest_eq
      refine ⟨Nat.le_trans first_le start_le, lowest_le, ?_⟩
      rw [List.forall_mem_append, List.forall_mem_singleton]
      exact ⟨rising, Nat.le_refl _⟩

/-- All live keys were put from the number of the newest record on. -/
theorem liveFrom (carries : Carries history records) {first : Nat}
    (consecutive : Record.Consecutive first records)
    (newest_eq : records.getLast? = some newest) : LiveFrom newest.lowest history := by
  have ordered := carries.ordered consecutive
  cases carries with
  | nil => cases newest_eq
  | concat before shows first_le start_le lowest_le rising live lsn_eq decoded =>
      rw [List.getLast?_concat] at newest_eq
      cases newest_eq
      exact live.concat (timely_of_inOrder (inOrder_of_ordered ordered)) (lsn_eq ▸ lowest_le)

/-- A mutation was logged from a store that showed a newer part of those before it. -/
theorem of_stamped (carries : Carries history records) (member : stamped ∈ history) :
    ∃ front back, history = front ++ stamped :: back ∧ ∃ (store : Store) (start : Nat),
      store.Shows (onward start front) ∧ ∃ record ∈ records, start ≤ record.lowest ∧
        record.lsn = stamped.lsn ∧
        Entry.decode app record.payload = .ok (.plain (store.build stamped.operation)) := by
  induction carries with
  | nil => cases member
  | @concat history records newest _ store start before shows first_le start_le lowest_le rising
      live lsn_eq decoded ih =>
      rcases List.mem_append.mp member with inside | here
      · rcases ih inside with
          ⟨front, back, rfl, store, start, shows, record, member, le, same, decoded⟩
        refine ⟨front, back ++ [newest], ?_, store, start, shows, record,
          List.mem_append_left _ member, le, same, decoded⟩
        rw [List.append_assoc, List.cons_append]
      · cases List.mem_singleton.mp here
        exact ⟨_, [], rfl, _, _, shows, _, List.mem_append_right _ (List.mem_singleton_self _),
          start_le, lsn_eq, decoded⟩

/-- Each record is that of a mutation. -/
theorem of_record (carries : Carries history records) (member : record ∈ records) :
    ∃ stamped ∈ history, stamped.lsn = record.lsn := by
  have inside : record.lsn ∈ records.map (·.lsn) := List.mem_map_of_mem member
  rw [← carries.map_lsn] at inside
  exact List.mem_map.mp inside

end Carries

/-! ### The ledger of a history -/

/-- The ledger in which each mutation was built from a store that showed those before it. -/
def ledgerOf (highest : Nat) (history : List Stamped) : Ledger Action where
  highest := highest
  entry lsn := (history.find? (·.lsn = lsn)).map fun stamped =>
    .plain ((Store.empty.applyAll (history.filter (·.lsn < lsn))).build stamped.operation)

section LedgerOf

variable {history : List Stamped} {stamped : Stamped} {highest lsn : Nat}

theorem find?_lsn (ordered : history.Pairwise (·.lsn < ·.lsn)) (member : stamped ∈ history) :
    history.find? (·.lsn = stamped.lsn) = some stamped := by
  cases found : history.find? (·.lsn = stamped.lsn) with
  | none =>
      have missing := List.find?_eq_none.mp found stamped member
      simp at missing
  | some other =>
      have same : other.lsn = stamped.lsn := by simpa using List.find?_some found
      rw [eq_of_lsn_eq ordered (List.mem_of_find?_eq_some found) member same]

theorem entry_ledgerOf (ordered : history.Pairwise (·.lsn < ·.lsn)) (member : stamped ∈ history) :
    (ledgerOf highest history).entry stamped.lsn = some (.plain
      ((Store.empty.applyAll (history.filter (·.lsn < stamped.lsn))).build
        stamped.operation)) := by
  simp only [ledgerOf, find?_lsn ordered member, Option.map_some]

theorem entry_ledgerOf_eq_none (absent : ∀ stamped ∈ history, stamped.lsn ≠ lsn) :
    (ledgerOf highest history).entry lsn = none := by
  have missing : history.find? (·.lsn = lsn) = none :=
    List.find?_eq_none.mpr fun stamped member => by simpa using absent stamped member
  simp only [ledgerOf, missing, Option.map_none]

theorem tells_ledgerOf (ordered : history.Pairwise (·.lsn < ·.lsn))
    (le_highest : ∀ stamped ∈ history, stamped.lsn ≤ highest) :
    Tells (ledgerOf highest history) history where
  ordered := ordered
  entry stamped member := ⟨_, shows_of_ordered (ordered.filter _), entry_ledgerOf ordered member⟩
  le_highest := le_highest
  complete lsn entry found := by
    refine Classical.byContradiction fun absent => ?_
    rw [entry_ledgerOf_eq_none fun stamped member same => absent ⟨stamped, member, same⟩] at found
    cases found

end LedgerOf

namespace Carries

variable {history : List Stamped} {records : List Record} {stamped : Stamped} {newest : Record}

/-- The entry of a mutation was built from a store that showed a newer part of those before
it. -/
theorem entry (carries : Carries history records) {first : Nat}
    (consecutive : Record.Consecutive first records) (highest : Nat) (member : stamped ∈ history) :
    ∃ (store : Store) (start : Nat),
      store.Shows (onward start (history.filter (·.lsn < stamped.lsn))) ∧
      (∃ record ∈ records, start ≤ record.lowest) ∧
      (Ledger.ofRecords app highest records).entry stamped.lsn =
        some (.plain (store.build stamped.operation)) := by
  have ordered := carries.ordered consecutive
  rcases carries.of_stamped member with
    ⟨front, back, rfl, store, start, shows, record, inside, start_le, lsn_eq, decoded⟩
  refine ⟨store, start, ?_, ⟨record, inside, start_le⟩, ?_⟩
  · rw [filter_lt_of_ordered ordered]
    exact shows
  · rw [← lsn_eq, Ledger.entry_ofRecords consecutive inside, decoded]
    rfl

/-- From the number of the newest record on, the log is one of the mutations from there
on. -/
theorem alike (carries : Carries history records) {first : Nat}
    (consecutive : Record.Consecutive first records)
    (newest_eq : records.getLast? = some newest) :
    Ledger.Alike app newest.lowest (Ledger.ofRecords app newest.lsn records)
      (ledgerOf newest.lsn (onward newest.lowest history)) where
  highest := rfl
  entry lsn le := by
    have ordered : (onward newest.lowest history).Pairwise (·.lsn < ·.lsn) :=
      (carries.ordered consecutive).filter _
    by_cases logged : ∃ stamped ∈ history, stamped.lsn = lsn
    · rcases logged with ⟨stamped, member, rfl⟩
      rcases carries.entry consecutive newest.lsn member with
        ⟨store, start, shows, ⟨record, inside, start_le⟩, found⟩
      have less := shows_of_ordered (ordered.filter (·.lsn < stamped.lsn))
      rw [onward_filter] at less
      rw [found, entry_ledgerOf ordered (mem_onward.mpr ⟨member, le⟩), onward_filter]
      -- Built from the store of its time, the mutation may list numbers below the boundary
      -- that it would not list from there on.
      refine .some (.plain ⟨rfl, rfl, fun listed above => ?_⟩)
      exact shows.mem_supersededBy_onward less
        (Nat.le_trans start_le ((carries.of_newest newest_eq).2.2 record inside)) above
    · have absent : ∀ stamped ∈ history, stamped.lsn ≠ lsn :=
        fun stamped member same => logged ⟨stamped, member, same⟩
      rw [entry_ledgerOf_eq_none fun stamped member => absent stamped (mem_onward.mp member).1]
      have missing : records.find? (·.lsn = lsn) = none := by
        refine List.find?_eq_none.mpr fun record inside => ?_
        rcases carries.of_record inside with ⟨stamped, member, same⟩
        simpa using same ▸ absent stamped member
      simp only [Ledger.ofRecords, missing, Option.bind_none]
      exact .none

theorem lsn_le (carries : Carries history records) {first : Nat}
    (consecutive : Record.Consecutive first records)
    (newest_eq : records.getLast? = some newest) (member : stamped ∈ history) :
    stamped.lsn ≤ newest.lsn := by
  have inside : stamped.lsn ∈ history.map (·.lsn) := List.mem_map_of_mem member
  rw [carries.map_lsn, consecutive, List.mem_range'_1] at inside
  have last := consecutive.getLast newest_eq
  omega

/-- From the number of the newest record on, the mutations that stand are prescribed to be
replayed. -/
theorem mem_replayedOf_uses (carries : Carries history records) {first : Nat}
    (consecutive : Record.Consecutive first records)
    (newest_eq : records.getLast? = some newest) :
    stamped ∈ replayedOf ((Ledger.ofRecords app newest.lsn records).uses app
        (descent newest.lowest newest.lsn)) ↔
      Stands (onward newest.lowest history) stamped := by
  have ordered : (onward newest.lowest history).Pairwise (·.lsn < ·.lsn) :=
    (carries.ordered consecutive).filter _
  have alike := carries.alike consecutive newest_eq
  have tells := tells_ledgerOf ordered
    fun stamped member => carries.lsn_le consecutive newest_eq (mem_onward.mp member).1
  have prescribed : stamped ∈ replayedOf ((Ledger.ofRecords app newest.lsn records).uses app
        (descent newest.lowest newest.lsn)) ↔
      stamped ∈ onward newest.lowest history ∧
        (Ledger.ofRecords app newest.lsn records).Replayed app stamped.lsn := by
    apply KeyValue.mem_replayedOf_uses
    · intro stamped member
      rcases carries.entry consecutive newest.lsn (mem_onward.mp member).1 with
        ⟨store, _, _, _, found⟩
      refine ⟨store.build stamped.operation, rfl, ?_⟩
      rw [found]
      rfl
    · intro lsn inside action has_action
      rcases Option.bind_eq_some_iff.mp has_action with ⟨entry, found, _⟩
      rcases alike.found (mem_descent.mp inside).1 found with ⟨twin, found', _⟩
      exact tells.complete lsn twin found'
    · intro stamped member
      exact mem_descent.mpr ⟨(mem_onward.mp member).2, tells.le_highest stamped member⟩
  rw [prescribed]
  constructor
  · rintro ⟨member, replayed⟩
    exact (tells.replayed_iff_stands member).mp
      ((alike.same (mem_onward.mp member).2).2.mp replayed)
  · intro stands
    refine ⟨stands.1, (alike.same (mem_onward.mp stands.1).2).2.mpr ?_⟩
    exact (tells.replayed_iff_stands stands.1).mpr stands

theorem decodes (carries : Carries history records) :
    ∀ record ∈ records, ∃ entry, Entry.decode app record.payload = .ok entry := by
  induction carries with
  | nil => exact nofun
  | concat before shows first_le start_le lowest_le rising live lsn_eq decoded ih =>
      rw [List.forall_mem_append, List.forall_mem_singleton]
      exact ⟨ih, _, decoded⟩

theorem highest_eq (carries : Carries history records) :
    history.getLast?.map (·.lsn) = records.getLast?.map (·.lsn) := by
  rw [← List.getLast?_map, carries.map_lsn, List.getLast?_map]

end Carries

/-- What a recovery makes of a history: the store shows it from the boundary on, before
which no key was put that is still live, and nothing was scanned below. -/
structure Recalls (history : List Stamped) (records : List Record) (report : RecoveryReport)
    (store : Store) : Prop where
  highest : report.highest = history.getLast?.map (·.lsn)
  shows : store.Shows (onward report.boundary history)
  live : LiveFrom report.boundary history
  first_le : Lsn.first ≤ report.boundary
  boundary_le : report.boundary ≤ Lsn.first + history.length
  lowest_le : ∀ record ∈ records, record.lowest ≤ report.boundary
  scanned : ∀ lsn, report.lowest = some lsn → report.boundary ≤ lsn

/-- Recovery, under any schedule and by a reader who admits its regions, of a log that
carries a history. -/
theorem Carries.recovers {config : Config} {pieces : List Piece} {history : List Stamped}
    (cut : Piece.Cut .auto Lsn.first pieces)
    (current : ∀ piece ∈ pieces, piece.format = .current)
    (admits : pieces ≠ [] → config.formatPolicy.Admits .current)
    (carries : Carries history (pieces.flatMap Piece.records)) (schedule : Schedule) :
    ∃ report final uses,
      recoverWith app schedule config {} ((pieces.map Piece.chunk).reverse.map .ok) .empty =
        ⟨.ok report, final, uses⟩ ∧
      Recalls history (pieces.flatMap Piece.records) report final := by
  cases newest_eq : (pieces.flatMap Piece.records).getLast? with
  | none =>
      have no_records := List.getLast?_eq_none_iff.mp newest_eq
      have no_pieces := cut.eq_nil no_records
      subst no_pieces
      have no_history : history = [] := List.length_eq_zero_iff.mp carries.length_eq
      subst no_history
      exact ⟨_, _, _, rfl, rfl, Store.Shows.empty, liveFrom_nil _, Nat.le_refl _, Nat.le_refl _,
        nofun, nofun⟩
  | some newest =>
      rcases carries.of_newest newest_eq with ⟨first_le, lowest_le, rising⟩
      have last := cut.consecutive.getLast newest_eq
      have some_pieces : pieces ≠ [] := by
        rintro rfl
        cases newest_eq
      have recoverable :
          Recoverable app config.formatPolicy {} Lsn.first pieces newest newest.lowest := {
        cut := cut.of_current current (admits some_pieces)
        newest_eq := by
          rw [Piece.flatMap_received_of_current current]
          exact newest_eq
        boundary_eq := (Nat.max_eq_left first_le).symm
        first_le := first_le
        boundary_le := lowest_le
        decodes := fun record member _ => carries.decodes record member }
      rcases recoverWith_shared replays recoverable schedule .empty with
        ⟨report, final, uses, recovered, highest, boundary, shuffled, _, carried⟩
      have reached : report.boundary ≤ newest.lsn := boundary ▸ lowest_le
      rcases recoverWith_ok (congrArg (·.outcome) recovered) highest reached with
        ⟨_, _, _, _, _, accounts⟩
      refine ⟨report, final, uses, recovered, ?_⟩
      constructor
      · rw [highest, carries.highest_eq, newest_eq]
        rfl
      · rw [boundary]
        exact shows_of_carryOutAll
          (fun stamped => carries.mem_replayedOf_uses cut.consecutive newest_eq)
          (pairwise_descent _ _) shuffled carried
      · rw [boundary]
        exact carries.liveFrom cut.consecutive newest_eq
      · rw [boundary]
        exact first_le
      · rw [carries.length_eq]
        omega
      · rw [boundary]
        exact rising
      · intro lsn lowest_eq
        have scanned : report.lowest = (descent report.boundary newest.lsn).getLast?.or none :=
          accounts.reported.lowest
        rw [scanned, getLast?_descent reached] at lowest_eq
        cases lowest_eq
        exact Nat.le_refl _

end Logbook.KeyValue

import Logbook.Proofs.Recovery.Descended

/-!
# No recovery over a hole

A recovery that succeeds has read regions which hold every number from the newest
record down to the boundary, and has accounted for each of these records. Where the
numbers stop before the boundary, the recovery says which one is missing.
-/

namespace Logbook

/-- The number at which a recovery stops, by the options or else by the newest record. -/
def RecoveryOptions.boundary (options : RecoveryOptions) (newest : Record) : Nat :=
  max (options.lowestLive.getD newest.lowest) Lsn.first

namespace Recovery

variable {α σ : Type} {app : Application α σ} {ledger : Ledger α}

open Ledger

/-- Every record has a fate. -/
theorem Ledger.exists_fate (app : Application α σ) {lsn : Nat} {entry : Entry α}
    (found : ledger.entry lsn = some entry) : ∃ fate, ledger.HasFate app lsn fate := by
  by_cases superseded : ledger.Superseded app lsn
  · exact ⟨.superseded, superseded⟩
  by_cases voided : ledger.Voided app lsn
  · exact ⟨.voided, voided⟩
  by_cases deleted : ledger.Deleted app lsn
  · exact ⟨.deleted, deleted⟩
  cases has_action : entry.action? with
  | none =>
      cases entry with
      | commit txn => exact ⟨.commits, txn, superseded, found⟩
      | plain action => cases has_action
      | member txn action => cases has_action
  | some action =>
      refine ⟨.survives, replayed_iff.mpr ⟨entry, action, found, has_action, superseded, ?_, ?_⟩⟩
      · rintro txn rfl
        refine Classical.byContradiction fun uncommitted => ?_
        exact voided ⟨txn, action, found, superseded, uncommitted⟩
      · intro scope in_scope deletes
        exact deleted
          ⟨entry, action, scope, found, has_action, superseded, voided, in_scope, deletes⟩

/-- The fates of some records add up. -/
theorem Ledger.length_eq_counts (app : Application α σ) {lsns : List Nat}
    (entries : ∀ lsn ∈ lsns, ∃ entry, ledger.entry lsn = some entry) :
    lsns.length = ledger.count app .survives lsns + ledger.count app .superseded lsns +
      ledger.count app .voided lsns + ledger.count app .deleted lsns +
      ledger.count app .commits lsns := by
  induction lsns with
  | nil => rfl
  | cons lsn lsns ih =>
      rw [List.forall_mem_cons] at entries
      rcases entries.1 with ⟨entry, found⟩
      rcases exists_fate app found with ⟨fate, has⟩
      have split : ∀ other, ledger.count app other (lsn :: lsns) =
          (if fate = other then 1 else 0) + ledger.count app other lsns := by
        intro other
        rw [← List.singleton_append, count_append, count_singleton has]
      rw [List.length_cons, ih entries.2]
      simp only [split]
      cases fate <;> simp <;> omega

section Items

variable {items : List (Except LogError Scanned)} {boundary lsn : Nat}

/-- From the newest record down, records follow one another to the boundary, or not. -/
theorem exists_descent (items : List (Except LogError Scanned)) (lt : boundary < lsn) :
    (∃ front item rest, items = front.map .ok ++ .ok item :: rest ∧ item.record.lsn = boundary ∧
        Descends boundary (front ++ [item]) ∧ boundary + front.length + 1 = lsn) ∨
      ∃ front lowest rest, items = front.map .ok ++ rest ∧ Descends lowest front ∧
        boundary < lowest ∧ lowest + front.length = lsn ∧
        ∀ item more, rest = .ok item :: more → item.record.lsn ≠ lowest - 1 := by
  induction items generalizing lsn with
  | nil => exact .inr ⟨[], lsn, [], rfl, rfl, lt, rfl, nofun⟩
  | cons head items ih =>
      cases head with
      | error error => exact .inr ⟨[], lsn, .error error :: items, rfl, rfl, lt, rfl, nofun⟩
      | ok item =>
          by_cases next : item.record.lsn = lsn - 1
          rotate_left
          · refine .inr ⟨[], lsn, .ok item :: items, rfl, rfl, lt, rfl, ?_⟩
            rintro other more same
            cases same
            exact next
          by_cases here : item.record.lsn = boundary
          · refine .inl ⟨[], item, items, rfl, here, descends_singleton.mpr here, ?_⟩
            rw [List.length_nil]
            omega
          have above : boundary < item.record.lsn := by omega
          rcases ih above with
            ⟨front, last, rest, rfl, last_eq, descends, length⟩ |
              ⟨front, lowest, rest, rfl, descends, lt_lowest, length, ends⟩
          · refine .inl ⟨item :: front, last, rest, rfl, last_eq, ?_, ?_⟩
            · rw [List.cons_append, descends_cons, List.length_append, List.length_singleton]
              exact ⟨by omega, descends⟩
            · rw [List.length_cons]
              omega
          · refine .inr ⟨item :: front, lowest, rest, rfl, descends_cons.mpr ⟨by omega, descends⟩,
              lt_lowest, ?_, ends⟩
            rw [List.length_cons]
            omega

/-- From the newest record on, the records follow one another to the boundary, or not. -/
theorem descent_of_newest {newest : Scanned} {older : List (Except LogError Scanned)}
    (le : boundary ≤ newest.record.lsn) :
    (∃ front item rest, .ok newest :: older = front.map .ok ++ .ok item :: rest ∧
        (front ++ [item]).head? = some newest ∧ item.record.lsn = boundary ∧
        Descends boundary (front ++ [item])) ∨
      ∃ front lowest rest, .ok newest :: older = front.map .ok ++ rest ∧
        front.head? = some newest ∧ Descends lowest front ∧ boundary < lowest ∧
        ∀ item more, rest = .ok item :: more → item.record.lsn ≠ lowest - 1 := by
  rcases exists_descent (.ok newest :: older) (Nat.lt_succ_of_le le) with
    ⟨front, item, rest, items_eq, item_lsn, descends, _⟩ |
      ⟨front, lowest, rest, items_eq, descends, lt_lowest, length, ends⟩
  · refine .inl ⟨front, item, rest, items_eq, ?_, item_lsn, descends⟩
    cases front <;> cases items_eq <;> rfl
  · refine .inr ⟨front, lowest, rest, items_eq, ?_, descends, lt_lowest, ends⟩
    cases front with
    | nil =>
        have differ := ends newest older items_eq.symm
        rw [List.length_nil] at length
        omega
    | cons head front =>
        cases items_eq
        rfl

/-- Why a scan ends above the boundary when no record follows the one numbered
`lowest`. -/
def interruption (lowest : Nat) : List (Except LogError Scanned) → LogError
  | [] => .recovery (.gap (lowest - 1) Lsn.none)
  | .error error :: _ => error
  | .ok item :: _ => .recovery (.gap (lowest - 1) item.record.lsn)

theorem run_interrupted {schedule : Schedule} {σ : Type} {app : Application α σ} (pass : Pass α σ)
    {lowest : Nat} {rest : List (Except LogError Scanned)}
    (ends : ∀ item more, rest = .ok item :: more → item.record.lsn ≠ lowest - 1) :
    pass.run app schedule (some lowest) (checkDescent (some (lowest - 1)) rest) =
      (.failed (interruption lowest rest), pass) := by
  cases rest with
  | nil => rfl
  | cons head rest =>
      cases head with
      | error error => rfl
      | ok item =>
          have differ : (some (lowest - 1)).filter (· ≠ item.record.lsn) = some (lowest - 1) := by
            simp [Option.filter, (ends item rest rfl).symm]
          rw [checkDescent, differ]
          rfl

end Items

section Recover

variable {state : σ} {schedule : Schedule} {config : Config} {options : RecoveryOptions}
  {regions : List (Except StorageError Chunk)} {newest : Scanned} {boundary : Nat}

/-- The pass of a recovery before it has looked at a record. -/
def Pass.start (config : Config) (state : σ) (newest boundary : Nat) : Pass α σ :=
  ⟨.initial (some newest) boundary, .empty, .assemble config.replayWorkers state⟩

theorem Pass.reached_start (app : Application α σ) (ledger : Ledger α) (config : Config)
    (options : RecoveryOptions) (newest : Scanned) (state : σ) :
    Pass.Reached app ledger state
      (.initial (some newest.record.lsn) (options.boundary newest.record)) (ledger.highest + 1)
      (Pass.start config state newest.record.lsn (options.boundary newest.record)) :=
  Pass.reached_assemble app ledger state _ config.replayWorkers

/-- A recovery is a pass over what the scan finds, and its conclusion. -/
theorem recoverWith_eq_run {items : List (Except LogError Scanned)}
    (scan_eq : scan config.formatPolicy regions = items) (begins : items.head? = some (.ok newest))
    {stop : Stop} {pass : Pass α σ}
    (run_eq : (Pass.start config state newest.record.lsn (options.boundary newest.record)).run app
      schedule none items = (stop, pass)) :
    recoverWith app schedule config options regions state = conclude app schedule stop pass := by
  cases items with
  | nil => cases begins
  | cons head older =>
      cases begins
      rw [recoverWith, scan_eq]
      simp only [Pass.start, RecoveryOptions.boundary] at run_eq
      simp only [run_eq]

/-- The scan of regions whose records follow one another for some time. -/
theorem scan_of_descends {front : List Scanned} {lowest : Nat}
    {rest : List (Except LogError Scanned)}
    (found : unpackAll config.formatPolicy 0 regions = front.map .ok ++ rest)
    (begins : front.head? = some newest) (descends : Descends lowest front) :
    scan config.formatPolicy regions =
      front.map .ok ++ checkDescent (some (lowest - 1)) rest := by
  cases front with
  | nil => cases begins
  | cons head older =>
      cases begins
      have lsn_eq := (descends_cons.mp descends).1
      have expected : lowest + (newest :: older).length - 1 = newest.record.lsn := by
        rw [lsn_eq, List.length_cons]
        omega
      rw [scan, found, List.map_cons, List.cons_append, checkDescent_newest, ← expected,
        ← List.cons_append, ← List.map_cons, checkDescent_append descends]

/-- A recovery whose records follow one another down to the boundary. -/
theorem recoverWith_reaching (schedule : Schedule) (state : σ) {front : List Scanned}
    {item : Scanned} {rest : List (Except LogError Scanned)}
    (found : unpackAll config.formatPolicy 0 regions = front.map .ok ++ .ok item :: rest)
    (begins : (front ++ [item]).head? = some newest)
    (descends : Descends (options.boundary newest.record) (front ++ [item]))
    (known : ∀ scanned ∈ front ++ [item],
      ledger.entry scanned.record.lsn = (Entry.decode app scanned.record.payload).toOption)
    (highest : ledger.highest = newest.record.lsn) :
    (∃ pass, recoverWith app schedule config options regions state =
          conclude app schedule .done pass ∧
        Pass.Reached app ledger state
          (.initial (some newest.record.lsn) (options.boundary newest.record))
          (options.boundary newest.record) pass ∧
        pass.report.regions = item.regions) ∨
      ∃ stop pass, recoverWith app schedule config options regions state =
          conclude app schedule stop pass ∧
        Pass.Spoiled app state (front ++ [item]) (stop, pass) := by
  have scan_eq := scan_of_descends (by rw [List.map_append, found, List.append_assoc]; rfl)
    begins descends
  have head_lsn := descends.head begins
  rw [List.length_append, List.length_singleton] at head_lsn
  rw [List.map_append, List.append_assoc, List.map_singleton, List.singleton_append] at scan_eq
  have item_lsn := descends_singleton.mp (descends_append.mp descends).2
  rw [List.forall_mem_append, List.forall_mem_singleton] at known
  have starts : (front.map Except.ok ++ Except.ok item ::
      checkDescent (some (options.boundary newest.record - 1)) rest).head? =
        some (.ok newest) := by
    cases front <;> cases begins <;> rfl
  have reached := Pass.reached_start app ledger config options newest state
  rw [show ledger.highest + 1 = options.boundary newest.record + 1 + front.length by omega]
    at reached
  rcases reached.run_front schedule (descends_append.mp descends).1
    (Nat.lt_succ_self _) (by omega) known.1 with ⟨next, run_eq, reached⟩ | spoiled
  rotate_left
  · refine .inr ⟨_, _, recoverWith_eq_run scan_eq starts rfl, ?_⟩
    exact (spoiled none _).mono fun _ => List.mem_append_left _
  have reached_item : Pass.Reached app ledger state
      (.initial (some newest.record.lsn) (options.boundary newest.record)) (item.record.lsn + 1)
      next := by
    rw [item_lsn]
    exact reached
  rcases reached_item.run_cons schedule (Nat.le_of_eq item_lsn.symm) (by omega)
    known.2 with ⟨last, last_eq, reached, regions⟩ | spoiled
  · refine .inl ⟨last, recoverWith_eq_run scan_eq starts ?_, item_lsn ▸ reached, regions⟩
    rw [run_eq, last_eq]
    exact if_pos item_lsn
  · refine .inr ⟨_, _, recoverWith_eq_run scan_eq starts rfl, ?_⟩
    rw [run_eq]
    exact (spoiled (if front = [] then none else some (options.boundary newest.record + 1))
      _).mono fun _ => List.mem_append_right _

/-- Some records, with none behind the last one that follows it, above the boundary. -/
theorem recoverWith_interrupted (schedule : Schedule) (state : σ) {front : List Scanned}
    {lowest : Nat} {rest : List (Except LogError Scanned)}
    (found : unpackAll config.formatPolicy 0 regions = front.map .ok ++ rest)
    (begins : front.head? = some newest) (descends : Descends lowest front)
    (above : options.boundary newest.record < lowest)
    (ends : ∀ item more, rest = .ok item :: more → item.record.lsn ≠ lowest - 1)
    (known : ∀ scanned ∈ front,
      ledger.entry scanned.record.lsn = (Entry.decode app scanned.record.payload).toOption)
    (highest : ledger.highest = newest.record.lsn) :
    (∃ uses pass, recoverWith app schedule config options regions state =
          conclude app schedule (.failed (interruption lowest rest)) pass ∧
        Crew.Sharing app state uses pass.crew) ∨
      ∃ stop pass, recoverWith app schedule config options regions state =
          conclude app schedule stop pass ∧ Pass.Spoiled app state front (stop, pass) := by
  have scan_eq := scan_of_descends found begins descends
  have head_lsn := descends.head begins
  have some_front : front ≠ [] := by
    rintro rfl
    cases begins
  have starts : (front.map Except.ok ++ checkDescent (some (lowest - 1)) rest).head? =
      some (.ok newest) := by
    cases front <;> cases begins
    rfl
  have reached := Pass.reached_start app ledger config options newest state
  rw [show ledger.highest + 1 = lowest + front.length by omega] at reached
  rcases reached.run_front schedule descends above (by omega) known with
    ⟨next, run_eq, reached⟩ | spoiled
  · refine .inl ⟨_, next, recoverWith_eq_run scan_eq starts ?_, reached.sharing⟩
    rw [run_eq, if_neg some_front]
    exact run_interrupted next ends
  · exact .inr ⟨_, _, recoverWith_eq_run scan_eq starts rfl, spoiled none _⟩

/-- A recovery whose boundary is above the newest record looks at no record. -/
theorem recoverWith_above_eq (app : Application α σ) (schedule : Schedule) (state : σ)
    {older : List (Except LogError Scanned)}
    (found : unpackAll config.formatPolicy 0 regions = .ok newest :: older)
    (above : newest.record.lsn < options.boundary newest.record) :
    ∃ pass, recoverWith app schedule config options regions state =
        conclude app schedule .done pass ∧
      Crew.Sharing app state [] pass.crew ∧ pass.report.highest = some newest.record.lsn ∧
        pass.report.boundary = options.boundary newest.record := by
  have scan_eq : scan config.formatPolicy regions =
      .ok newest :: checkDescent (some (newest.record.lsn - 1)) older := by
    rw [scan, found]
    rfl
  let start : Pass α σ :=
    .start config state newest.record.lsn (options.boundary newest.record)
  have run_eq : start.run app schedule none
        (.ok newest :: checkDescent (some (newest.record.lsn - 1)) older) =
      (.done, { start with report := { start.report with regions := newest.regions } }) := by
    rw [Pass.run]
    exact if_pos above
  exact ⟨_, recoverWith_eq_run scan_eq rfl run_eq,
    Crew.sharing_assemble config.replayWorkers state, rfl, rfl⟩

/-- A recovery that stops above the newest record consumes nothing. -/
theorem recoverWith_above {older : List (Except LogError Scanned)}
    (found : unpackAll config.formatPolicy 0 regions = .ok newest :: older)
    (above : newest.record.lsn < options.boundary newest.record) {report : RecoveryReport}
    (recovered : (recoverWith app schedule config options regions state).outcome = .ok report) :
    report.highest = some newest.record.lsn ∧
      report.boundary = options.boundary newest.record ∧
        (recoverWith app schedule config options regions state).uses = [] := by
  rcases recoverWith_above_eq app schedule state found above with
    ⟨pass, recover_eq, sharing, highest_eq, boundary_eq⟩
  have joined := sharing.join_cases schedule.after
  rw [recover_eq] at recovered ⊢
  unfold conclude at recovered ⊢
  dsimp only at recovered ⊢
  split at recovered
  · cases recovered
  · rename_i no_error
    cases recovered
    rcases joined with done | ⟨_, noted⟩
    · exact ⟨highest_eq, boundary_eq, done.shared.eq_nil⟩
    · exact absurd no_error noted

end Recover

section Accounts

variable {state : σ} {schedule : Schedule} {config : Config} {options : RecoveryOptions}
  {chunks : List Chunk} {report : RecoveryReport} {highest : Nat}

/-- The regions that a recovery has read, and their records. -/
structure Readings (policy : FormatPolicy) (report : RecoveryReport) (highest : Nat)
    (chunks unread read : List Chunk) (parts : List (List Record)) (first : Nat) : Prop where
  chunks_eq : chunks = unread ++ read
  regions : read.length = report.regions
  unpacks : Unpacks policy read parts
  consecutive : Record.Consecutive first parts.flatten
  first_le : first ≤ report.boundary
  ends : first + parts.flatten.length = highest + 1

/-- What a recovery that succeeded has made of a log. -/
structure Accounts (app : Application α σ) (ledger : Ledger α) (state : σ)
    (report : RecoveryReport) (result : Result α σ) : Prop where
  entries : ∀ lsn ∈ descent report.boundary ledger.highest, ∃ entry, ledger.entry lsn = some entry
  reported : Reported app ledger (descent report.boundary ledger.highest)
    (.initial (some ledger.highest) report.boundary) report
  replayed : report.replayed =
    ledger.count app .survives (descent report.boundary ledger.highest)
  uses : result.uses.Perm (ledger.uses app (descent report.boundary ledger.highest))
  carried : Use.carryOutAll app result.uses.reverse state = .ok result.state

theorem decode_of_toOption {payload : Bytes} {entry : Entry α}
    (found : (Entry.decode app payload).toOption = some entry) :
    Entry.decode app payload = .ok entry := by
  cases decoded : Entry.decode app payload with
  | error cause =>
      rw [decoded] at found
      cases found
  | ok other =>
      rw [decoded] at found
      cases found
      rfl

/-- Consecutive records are known by their entries. -/
theorem Ledger.entry_ofRecords {first : Nat} {records : List Record}
    (consecutive : Record.Consecutive first records) {record : Record} (member : record ∈ records)
    (app : Application α σ) (highest : Nat) :
    (Ledger.ofRecords app highest records).entry record.lsn =
      (Entry.decode app record.payload).toOption := by
  simp only [Ledger.ofRecords, consecutive.find?_lsn member, Option.bind_some]

theorem consecutive_of_descends {lowest : Nat} {items : List Scanned}
    (descends : Descends lowest items) :
    Record.Consecutive lowest (items.map (·.record)).reverse := by
  rw [Record.Consecutive, List.map_reverse, List.map_map, List.length_reverse, List.length_map,
    ← List.reverse_inj, List.reverse_reverse]
  exact descends

/-- A pass that went down to the boundary and ended well. -/
theorem accounts_of_conclude {ledger : Ledger α} {pass : Pass α σ} {boundary : Nat}
    (reached :
      Pass.Reached app ledger state (.initial (some ledger.highest) boundary) boundary pass)
    (concluded : (conclude app schedule .done pass).outcome = .ok report) :
    report.highest = some ledger.highest ∧ report.boundary = boundary ∧
      report.regions = pass.report.regions ∧
      Accounts app ledger state report (conclude app schedule .done pass) := by
  have joined := reached.sharing.join_cases schedule.after
  unfold conclude at concluded ⊢
  dsimp only at concluded ⊢
  split at concluded
  · cases concluded
  · rename_i no_error
    rcases joined with done | ⟨_, noted⟩
    rotate_left
    · exact absurd no_error noted
    cases concluded
    obtain rfl : pass.report.boundary = boundary := reached.reported.boundary
    refine ⟨reached.reported.highest, rfl, rfl, ?_⟩
    exact {
      entries := reached.entries
      reported := reached.reported.with_replayed _
      replayed := by
        rw [← Ledger.countP_uses]
        exact done.counted
      uses := done.shared
      carried := done.carried }

/-- The newest of some consecutive records have known entries. -/
theorem known_of_seen {first : Nat} {records : List Record} {items : List Scanned}
    (consecutive : Record.Consecutive first records)
    (seen : items.map (·.record) <+: records.reverse) (app : Application α σ)
    (highest : Nat) :
    ∀ scanned ∈ items, (Ledger.ofRecords app highest records).entry scanned.record.lsn =
      (Entry.decode app scanned.record.payload).toOption := by
  intro scanned member
  have inside := seen.subset (List.mem_map.mpr ⟨scanned, member, rfl⟩)
  exact Ledger.entry_ofRecords consecutive (List.mem_reverse.mp inside) app highest

/-- A recovery whose records follow one another down to the boundary accounts for them, if
it succeeds. -/
theorem recoverWith_ok_of_reaching {newest : Scanned} {front : List Scanned} {item : Scanned}
    {rest : List (Except LogError Scanned)}
    (found : unpackAll config.formatPolicy 0 (chunks.reverse.map .ok) =
      front.map .ok ++ .ok item :: rest)
    (begins : (front ++ [item]).head? = some newest)
    (item_lsn : item.record.lsn = options.boundary newest.record)
    (descends : Descends (options.boundary newest.record) (front ++ [item]))
    (recovered : (recoverWith app schedule config options (chunks.reverse.map .ok) state).outcome =
      .ok report) :
    report.highest = some newest.record.lsn ∧
      report.boundary = options.boundary newest.record ∧ ∃ unread read parts first,
      Readings config.formatPolicy report newest.record.lsn chunks unread read parts first ∧
      Accounts app (Ledger.ofRecords app newest.record.lsn parts.flatten) state report
        (recoverWith app schedule config options (chunks.reverse.map .ok) state) := by
  have head_lsn := descends.head begins
  rw [List.length_append, List.length_singleton] at head_lsn
  rcases read_of_unpackAll found (item_lsn.symm ▸ descends) with
    ⟨read, unread, parts, first, chunks_eq, regions, unpacks, consecutive, first_le, ends, seen⟩
  rcases recoverWith_reaching schedule state found begins descends
    (known_of_seen consecutive seen app newest.record.lsn) rfl with
    ⟨pass, recover_eq, reached, regions_eq⟩ | ⟨stop, pass, recover_eq, spoiled⟩
  · rw [recover_eq] at recovered ⊢
    rcases accounts_of_conclude reached recovered with
      ⟨highest_eq, boundary_eq, same_regions, accounts⟩
    refine ⟨highest_eq, boundary_eq, unread.reverse, read.reverse, parts.reverse, first, ?_,
      accounts⟩
    constructor
    · rw [← List.reverse_append, ← chunks_eq, List.reverse_reverse]
    · rw [List.length_reverse, same_regions, regions_eq, ← regions, Nat.zero_add]
    · rw [Unpacks, List.map_reverse, unpacks, List.map_reverse]
    · exact consecutive
    · rw [boundary_eq, ← item_lsn]
      exact first_le
    · omega
  · rw [recover_eq] at recovered
    exact absurd recovered (outcome_ne_ok_of_spoiled schedule spoiled report)

/-- A recovery whose records end or have a gap above the boundary does not succeed. -/
theorem recoverWith_ne_ok_of_interrupted {newest : Scanned} {front : List Scanned}
    {lowest : Nat} {rest : List (Except LogError Scanned)}
    (found : unpackAll config.formatPolicy 0 (chunks.reverse.map .ok) = front.map .ok ++ rest)
    (begins : front.head? = some newest) (descends : Descends lowest front)
    (above : options.boundary newest.record < lowest)
    (ends : ∀ item more, rest = .ok item :: more → item.record.lsn ≠ lowest - 1) :
    (recoverWith app schedule config options (chunks.reverse.map .ok) state).outcome ≠
      .ok report := by
  have seen : front.map (·.record) <+: (front.map (·.record)).reverse.reverse := by
    simp only [List.reverse_reverse, List.prefix_rfl]
  have known := known_of_seen (consecutive_of_descends descends) seen app newest.record.lsn
  rcases recoverWith_interrupted schedule state found begins descends above ends known rfl with
    ⟨_, pass, recover_eq, _⟩ | ⟨stop, pass, recover_eq, spoiled⟩
  · rw [recover_eq]
    exact nofun
  · rw [recover_eq]
    exact outcome_ne_ok_of_spoiled schedule spoiled report

/-- A recovery that succeeds was to stop above the newest record, if there is any, and has
consumed nothing; or it has read consecutive records down to where it was to stop, and
has accounted for them. -/
theorem recoverWith_ok_cases
    (recovered : (recoverWith app schedule config options (chunks.reverse.map .ok) state).outcome =
      .ok report) :
    ((∀ highest, report.highest = some highest → highest < report.boundary) ∧
        (recoverWith app schedule config options (chunks.reverse.map .ok) state).uses = []) ∨
      ∃ highest, report.highest = some highest ∧ report.boundary ≤ highest ∧
        ∃ unread read parts first,
          Readings config.formatPolicy report highest chunks unread read parts first ∧
          Accounts app (Ledger.ofRecords app highest parts.flatten) state report
            (recoverWith app schedule config options (chunks.reverse.map .ok) state) := by
  cases found : unpackAll config.formatPolicy 0 (chunks.reverse.map .ok) with
  | nil =>
      rw [recoverWith, scan, found] at recovered ⊢
      cases recovered
      refine .inl ⟨?_, rfl⟩
      intro highest same
      cases same
  | cons head older =>
      cases head with
      | error error =>
          rw [recoverWith, scan, found] at recovered
          cases recovered
      | ok newest =>
          rcases Nat.lt_or_ge newest.record.lsn (options.boundary newest.record) with above | below
          · rcases recoverWith_above found above recovered with ⟨highest_eq, boundary_eq, none⟩
            refine .inl ⟨fun highest same => ?_, none⟩
            cases highest_eq.symm.trans same
            exact boundary_eq ▸ above
          rcases descent_of_newest below with
            ⟨front, item, rest, items_eq, begins, item_lsn, descends⟩ |
              ⟨front, lowest, rest, items_eq, begins, descends, lt_lowest, ends⟩
          · rcases recoverWith_ok_of_reaching (items_eq ▸ found) begins item_lsn descends recovered
              with ⟨highest_eq, boundary_eq, accounted⟩
            exact .inr ⟨_, highest_eq, boundary_eq ▸ below, accounted⟩
          · exact absurd recovered
              (recoverWith_ne_ok_of_interrupted (items_eq ▸ found) begins descends lt_lowest ends)

/-- A recovery that succeeds, and was to stop at or below the newest record, has read
consecutive records from there down, and has accounted for them. -/
theorem recoverWith_ok
    (recovered : (recoverWith app schedule config options (chunks.reverse.map .ok) state).outcome =
      .ok report)
    (newest_eq : report.highest = some highest) (boundary_le : report.boundary ≤ highest) :
    ∃ unread read parts first,
      Readings config.formatPolicy report highest chunks unread read parts first ∧
      Accounts app (Ledger.ofRecords app highest parts.flatten) state report
        (recoverWith app schedule config options (chunks.reverse.map .ok) state) := by
  rcases recoverWith_ok_cases recovered with ⟨above, _⟩ | ⟨_, highest_eq, _, accounted⟩
  · exact absurd (above highest newest_eq) (Nat.not_lt.mpr boundary_le)
  · cases highest_eq.symm.trans newest_eq
    exact accounted

/-- What a recovery fails with when the records end or have a gap above the boundary. -/
theorem recoverWith_gap {parts : List (List Record)} {older run : List Record} {newest : Record}
    {lowest : Nat} {final : σ} (unpacks : Unpacks config.formatPolicy chunks parts)
    (decoded : ∀ record ∈ parts.flatten, ∃ entry, Entry.decode app record.payload = .ok entry)
    (records_eq : parts.flatten = older ++ run) (consecutive : Record.Consecutive lowest run)
    (newest_eq : run.getLast? = some newest) (above : options.boundary newest < lowest)
    (stops : ∀ below, older.getLast? = some below → below.lsn ≠ lowest - 1)
    (carried : Use.carryOutAll app
      (recoverWith app schedule config options (chunks.reverse.map .ok) state).uses.reverse state =
        .ok final) :
    (recoverWith app schedule config options (chunks.reverse.map .ok) state).outcome =
      .failed (.recovery (.gap (lowest - 1) ((older.getLast?.map (·.lsn)).getD Lsn.none))) := by
  have unpacks_reversed : Unpacks config.formatPolicy chunks.reverse parts.reverse := by
    rw [Unpacks, List.map_reverse, unpacks, List.map_reverse]
  rcases unpackAll_append_of_unpacks unpacks_reversed 0 [] with ⟨items, found, items_eq⟩
  rw [List.append_nil, unpackAll, List.append_nil] at found
  rw [List.reverse_reverse] at items_eq
  have decoded_items : ∀ item ∈ items,
      ∃ entry, Entry.decode app item.record.payload = .ok entry := by
    intro item member
    have inside : item.record ∈ parts.flatten.reverse :=
      items_eq ▸ List.mem_map.mpr ⟨item, member, rfl⟩
    exact decoded item.record (List.mem_reverse.mp inside)
  rw [records_eq, List.reverse_append] at items_eq
  rcases List.map_eq_append_iff.mp items_eq with ⟨front, rest, rfl, front_eq, rest_eq⟩
  rw [List.map_append] at found
  have descends : Descends lowest front := by
    have lsns := congrArg (List.map (·.lsn)) front_eq
    have length := congrArg List.length front_eq
    rw [List.length_map, List.length_reverse] at length
    rw [List.map_map, List.map_reverse, consecutive, ← length] at lsns
    exact lsns
  have begins : ∃ head, front.head? = some head ∧ head.record = newest := by
    rw [← List.head?_reverse, ← front_eq, List.head?_map, Option.map_eq_some_iff] at newest_eq
    exact newest_eq
  have ends : (rest.map (·.record)).head? = older.getLast? := by
    rw [rest_eq, List.head?_reverse]
  rcases begins with ⟨head, begins, rfl⟩
  have seen : front.map (·.record) <+: run.reverse := by
    simp only [front_eq, List.prefix_rfl]
  have known := known_of_seen consecutive seen app head.record.lsn
  have missing : ∀ item more, (rest.map .ok : List (Except LogError Scanned)) = .ok item :: more →
      item.record.lsn ≠ lowest - 1 := by
    intro item more same
    cases rest with
    | nil => cases same
    | cons other rest =>
        cases same
        exact stops item.record ends.symm
  rcases recoverWith_interrupted schedule state found begins descends above missing known rfl with
    ⟨uses, pass, recover_eq, sharing⟩ | ⟨stop, pass, recover_eq, spoiled⟩
  · rw [recover_eq, conclude] at carried ⊢
    dsimp only at carried ⊢
    rcases sharing.abort_cases schedule.after with unfailed | ⟨fault, failed⟩
    · rw [unfailed, ← ends]
      cases rest <;> rfl
    · rw [failed] at carried
      cases carried
  · have decoded_front : ∀ item ∈ front, ∃ entry,
        Entry.decode app item.record.payload = .ok entry :=
      fun item member => decoded_items item (List.mem_append_left _ member)
    rcases faulted_conclude schedule (spoiled.broken decoded_front) with
      ⟨fault, failed⟩
    rw [recover_eq, failed] at carried
    cases carried

/-- Recovery never succeeds over a hole. If it succeeds, and was to stop at or below the
newest record, then the regions it has read hold each number from there to the newest
record once, and the fates of these records add up. If all regions are unpacked, all
entries are decoded and all replays take effect, but the numbers stop above the boundary,
then recovery names the missing number and the next one that there is. -/
theorem recover_gapless (app : Application α σ) {δ : Type} [Device δ] {device : δ}
    {chunks : List Chunk} (reads : Device.Reads device chunks) (schedule : Schedule)
    (config : Config) (options : RecoveryOptions) (state : σ) :
    (∀ report highest,
      (recoverWith app schedule config options (Device.newestFirst device) state).outcome =
        .ok report →
      report.highest = some highest → report.boundary ≤ highest →
      ∃ unread read parts, chunks = unread ++ read ∧ read.length = report.regions ∧
        Unpacks config.formatPolicy read parts ∧
        (parts.flatten.filter (report.boundary ≤ ·.lsn)).map (·.lsn) =
          List.range' report.boundary (highest + 1 - report.boundary) ∧
        report.lowest = some report.boundary ∧
        report.scanned = highest - report.boundary + 1 ∧
        report.scanned = report.replayed + report.skipped + report.voided + report.deleted +
          (Ledger.ofRecords app highest parts.flatten).count app .commits
            (descent report.boundary highest)) ∧
    ∀ parts older run newest lowest final, Unpacks config.formatPolicy chunks parts →
      (∀ record ∈ parts.flatten, ∃ entry, Entry.decode app record.payload = .ok entry) →
      parts.flatten = older ++ run → Record.Consecutive lowest run →
      run.getLast? = some newest →
      max (options.lowestLive.getD newest.lowest) Lsn.first < lowest →
      (∀ below, older.getLast? = some below → below.lsn ≠ lowest - 1) →
      Use.carryOutAll app
        (recoverWith app schedule config options (Device.newestFirst device) state).uses.reverse
        state = .ok final →
      (recoverWith app schedule config options (Device.newestFirst device) state).outcome =
        .failed (.recovery (.gap (lowest - 1) ((older.getLast?.map (·.lsn)).getD Lsn.none))) := by
  rw [reads]
  constructor
  · intro report highest recovered newest_eq boundary_le
    rcases recoverWith_ok recovered newest_eq boundary_le with
      ⟨unread, read, parts, first, readings, accounts⟩
    have reported : Reported app (.ofRecords app highest parts.flatten)
        (descent report.boundary highest) (.initial (some highest) report.boundary) report :=
      accounts.reported
    refine ⟨unread, read, parts, readings.chunks_eq, readings.regions, readings.unpacks, ?_, ?_,
      ?_, ?_⟩
    · rw [← readings.ends]
      exact readings.consecutive.filter_ge readings.first_le
    · rw [reported.lowest, getLast?_descent boundary_le]
      rfl
    · rw [reported.scanned, length_descent, Nat.sub_add_comm boundary_le]
      exact Nat.zero_add _
    · have added := Ledger.length_eq_counts app accounts.entries
      rw [reported.scanned, accounts.replayed, reported.skipped, reported.voided,
        reported.deleted]
      simp only [RecoveryReport.initial, Nat.zero_add]
      exact added
  · intro parts older run newest lowest final unpacks decoded records_eq consecutive newest_eq above
      stops carried
    exact recoverWith_gap unpacks decoded records_eq consecutive newest_eq above stops carried

/-- A plain probe without a scope. -/
def plainProbe (lsn id : Nat) : Record :=
  ⟨lsn, 100, 1 :: (Bytes.ofNat 8 id ++ Bytes.ofNat 8 0 ++ [0])⟩

/-- Plain probes in two regions, with a number missing in between. -/
def holedPair : List Piece :=
  [⟨.current, .adler32, [plainProbe 100 7]⟩,
    ⟨.current, .none, [plainProbe 102 8, plainProbe 103 9]⟩]

theorem unpacks_holedPair :
    Unpacks .auto (holedPair.map Piece.chunk) (holedPair.map Piece.received) := by
  have fits : ∀ {lsn id}, lsn ≤ 103 → (plainProbe lsn id).Fits := fun le =>
    ⟨Nat.lt_of_le_of_lt le (by decide), show 100 < 256 ^ 8 by decide, by simp [plainProbe]⟩
  have older : Piece.Cut .auto 100 [⟨.current, .adler32, [plainProbe 100 7]⟩] :=
    ⟨rfl, by simp, by simp [FormatPolicy.Admits], by simpa using fits (by decide)⟩
  have newer : Piece.Cut .auto 102 [⟨.current, .none, [plainProbe 102 8, plainProbe 103 9]⟩] :=
    ⟨rfl, by simp, by simp [FormatPolicy.Admits],
      by simpa using ⟨fits (by decide), fits (by decide)⟩⟩
  have unpacked := List.forall_mem_append.mpr ⟨older.unpack, newer.unpack⟩
  rw [Unpacks, List.map_map, List.map_map]
  exact List.map_congr_left unpacked

theorem recover_gapless_pairs :
    (∃ unread read parts, supersedingPair.map Piece.chunk = unread ++ read ∧ read.length = 2 ∧
      Unpacks .auto read parts ∧
      (parts.flatten.filter (100 ≤ ·.lsn)).map (·.lsn) = [100, 101] ∧
      2 = 1 + 1 + 0 + 0 +
        (Ledger.ofRecords Probe.app 101 parts.flatten).count Probe.app .commits
          (descent 100 101)) ∧
    (recoverWith Probe.app .late Config.standard {}
      (Device.newestFirst (MemoryDevice.onDisk ⟨holedPair.map Piece.chunk, 0⟩)) .empty).outcome =
        .failed (.recovery (.gap 101 100)) := by
  constructor
  · have covered := (recover_gapless Probe.app
      (MemoryDevice.reads (.onDisk ⟨supersedingPair.map Piece.chunk, 0⟩)) .late Config.standard {}
      .empty).1 ⟨some 101, some 100, 100, 2, 2, 1, 1, 0, 0, none⟩ 101 (by decide +kernel) rfl
      (by decide)
    rcases covered with
      ⟨unread, read, parts, chunks_eq, length, unpacks, lsns, _, _, accounted⟩
    exact ⟨unread, read, parts, chunks_eq, length, unpacks, lsns, accounted⟩
  · have decoded : ∀ record ∈ (holedPair.map Piece.received).flatten,
        ∃ entry, Entry.decode Probe.app record.payload = .ok entry := by
      have records_eq : (holedPair.map Piece.received).flatten =
          [plainProbe 100 7, plainProbe 102 8, plainProbe 103 9] := rfl
      simp only [records_eq, List.forall_mem_cons]
      exact ⟨⟨.plain ⟨7, 0, 0, none, none, []⟩, rfl⟩, ⟨.plain ⟨8, 0, 0, none, none, []⟩, rfl⟩,
        ⟨.plain ⟨9, 0, 0, none, none, []⟩, rfl⟩, nofun⟩
    have uses_eq : (recoverWith Probe.app .late Config.standard {}
        (Device.newestFirst (MemoryDevice.onDisk ⟨holedPair.map Piece.chunk, 0⟩)) .empty).uses =
          [.disposed ⟨⟨8, 0, 0, none, none, []⟩, 102⟩,
            .disposed ⟨⟨9, 0, 0, none, none, []⟩, 103⟩] := by
      decide +kernel
    exact (recover_gapless Probe.app
      (MemoryDevice.reads (.onDisk ⟨holedPair.map Piece.chunk, 0⟩)) .late Config.standard {}
      .empty).2 _ [plainProbe 100 7] [plainProbe 102 8, plainProbe 103 9]
      (plainProbe 103 9) 102 ⟨[], [], [9, 8]⟩ unpacks_holedPair decoded rfl rfl rfl (by decide)
      (by simp [plainProbe]) (by rw [uses_eq]; rfl)

end Accounts

end Recovery

end Logbook

import Logbook.Proofs.KeyValue.Survivors

/-!
# Replay in any order

The survivors of a history do not cover one another, so their order does not matter:
a store to which they are applied shows what stands of the history, and so does one
to which the whole history is applied.
-/

namespace Logbook.KeyValue

open Recovery

/-- Mutations with numbers of their own, of which none comes after one that covers
it. -/
def InOrder (history : List Stamped) : Prop :=
  history.Pairwise fun earlier later => earlier.lsn ≠ later.lsn ∧
    (later.lsn < earlier.lsn → ¬ earlier.operation.Covers later.operation)

/-- The mutations that were replayed, one after the other. -/
def replayedOf (uses : List (Use Action)) : List Stamped :=
  uses.filterMap fun
    | .replayed job => some ⟨job.lsn, job.action.operation⟩
    | .disposed _ => none

variable {history front back : List Stamped} {stamped : Stamped}

theorem inOrder_of_ordered (ordered : history.Pairwise (·.lsn < ·.lsn)) : InOrder history :=
  ordered.imp fun lt => ⟨Nat.ne_of_lt lt, fun gt => absurd gt (Nat.lt_asymm lt)⟩

theorem timely_of_inOrder (inOrder : InOrder (front ++ stamped :: back)) :
    Timely front stamped := by
  intro earlier member
  exact (List.pairwise_append.mp inOrder).2.2 earlier member stamped List.mem_cons_self

namespace Store.Shows

variable {store final : Store}

/-- Applying mutations one after the other. -/
theorem applyAll (shows : Shows store front) (inOrder : InOrder (front ++ back)) :
    Shows (store.applyAll back) (front ++ back) := by
  induction back generalizing store front with
  | nil =>
      rw [List.append_nil]
      exact shows
  | cons next rest ih =>
      have applied := shows.apply (timely_of_inOrder inOrder)
      rw [← List.singleton_append, ← List.append_assoc] at inOrder ⊢
      exact ih applied inOrder

/-- Only the tables of a store matter. -/
theorem of_tables {other : Store} (shows : Shows store history)
    (entries : other.entries = store.entries) (lastWrite : other.lastWrite = store.lastWrite)
    (scopeDeletes : other.scopeDeletes = store.scopeDeletes) : Shows other history where
  entries := by
    rw [entries]
    exact shows.entries
  lastWrite := by
    rw [lastWrite]
    exact shows.lastWrite
  scopeDeletes := by
    rw [scopeDeletes]
    exact shows.scopeDeletes

/-- Consuming actions one after the other. -/
theorem carryOutAll {uses : List (Use Action)} (shows : Shows store front)
    (inOrder : InOrder (front ++ replayedOf uses))
    (carried : Use.carryOutAll app uses store = .ok final) :
    Shows final (front ++ replayedOf uses) := by
  induction uses generalizing store front with
  | nil =>
      cases carried
      rw [replayedOf, List.filterMap_nil, List.append_nil]
      exact shows
  | cons use uses ih =>
      cases use with
      | disposed job =>
          have disposed : Shows store.dispose front := shows.of_tables rfl rfl rfl
          exact ih disposed inOrder carried
      | replayed job =>
          have split : replayedOf (.replayed job :: uses) =
              [⟨job.lsn, job.action.operation⟩] ++ replayedOf uses := rfl
          rw [split] at inOrder ⊢
          have applied := shows.apply (timely_of_inOrder inOrder)
          have replayed : Shows (store.replay job.action.operation job.lsn)
              (front ++ [⟨job.lsn, job.action.operation⟩]) := applied.of_tables rfl rfl rfl
          rw [← List.append_assoc] at inOrder ⊢
          exact ih replayed inOrder carried

/-- Histories of which the same stands. -/
theorem of_stands_iff (shows : Shows store front)
    (same : ∀ stamped, Stands front stamped ↔ Stands back stamped) : Shows store back where
  entries key value version := (shows.entries key value version).trans (same _)
  lastWrite key lsn := by
    rw [shows.lastWrite]
    simp only [same]
  scopeDeletes scope lsn := (shows.scopeDeletes scope lsn).trans (same _)

end Store.Shows

/-- Mutations with consecutive numbers come in the order of these. -/
theorem ordered_of_consecutive {first count : Nat}
    (consecutive : history.map (·.lsn) = List.range' first count) :
    history.Pairwise (·.lsn < ·.lsn) := by
  have ascending : (List.range' first count).Pairwise (· < ·) := List.pairwise_lt_range'
  rw [← consecutive, List.pairwise_map] at ascending
  exact ascending

/-- An empty store to which a history was applied shows it. -/
theorem shows_of_ordered (ordered : history.Pairwise (·.lsn < ·.lsn)) :
    (Store.empty.applyAll history).Shows history :=
  Store.Shows.empty.applyAll (inOrder_of_ordered ordered)

theorem replays : app.Replays := fun _ _ _ => ⟨_, rfl⟩

variable {ledger : Ledger Action} {lsns : List Nat}

theorem mem_replayedOf_iff {uses : List (Use Action)} :
    stamped ∈ replayedOf uses ↔
      ∃ action : Action, .replayed ⟨action, stamped.lsn⟩ ∈ uses ∧
        action.operation = stamped.operation := by
  rw [replayedOf, List.mem_filterMap]
  constructor
  · rintro ⟨use, member, seen⟩
    cases use with
    | disposed job => cases seen
    | replayed job =>
        cases seen
        exact ⟨job.action, member, rfl⟩
  · rintro ⟨action, member, same⟩
    refine ⟨_, member, ?_⟩
    change some (Stamped.mk stamped.lsn action.operation) = some stamped
    rw [same]

/-- What is prescribed to be replayed, where the records scanned are those of some
mutations. -/
theorem mem_replayedOf_uses
    (logged : ∀ stamped ∈ history, ∃ action : Action, action.operation = stamped.operation ∧
      (ledger.entry stamped.lsn).bind Entry.action? = some action)
    (complete : ∀ lsn ∈ lsns, ∀ action, (ledger.entry lsn).bind Entry.action? = some action →
      ∃ stamped ∈ history, stamped.lsn = lsn)
    (all : ∀ stamped ∈ history, stamped.lsn ∈ lsns) :
    stamped ∈ replayedOf (ledger.uses app lsns) ↔
      stamped ∈ history ∧ ledger.Replayed app stamped.lsn := by
  rw [mem_replayedOf_iff]
  simp only [Ledger.uses, List.mem_filterMap, Ledger.use?_eq_replayed_iff]
  constructor
  · rintro ⟨action, ⟨lsn, inside, rfl, replayed, has_action⟩, operation_eq⟩
    refine ⟨?_, replayed⟩
    rcases complete _ inside action has_action with ⟨other, member, lsn_eq⟩
    rcases logged other member with ⟨twin, same, has_action'⟩
    rw [lsn_eq, has_action] at has_action'
    cases has_action'
    have here : other = stamped :=
      (Stamped.mk.injEq _ _ _ _).mpr ⟨lsn_eq, same.symm.trans operation_eq⟩
    exact here ▸ member
  · rintro ⟨member, replayed⟩
    rcases logged stamped member with ⟨action, same, has_action⟩
    exact ⟨action, ⟨stamped.lsn, all stamped member, rfl, replayed, has_action⟩, same⟩

/-- What is prescribed to be replayed are the mutations that are. -/
theorem Attests.mem_replayedOf_uses {history : List Logged} (attests : Attests ledger history)
    (all : ∀ logged ∈ history, logged.lsn ∈ lsns) :
    stamped ∈ replayedOf (ledger.uses app lsns) ↔
      stamped ∈ mutations history ∧ ledger.Replayed app stamped.lsn := by
  apply KeyValue.mem_replayedOf_uses
  · intro stamped member
    rcases attests.entry_of_mem member with ⟨store, _, logged, _, _, found, has_action⟩
    refine ⟨store.build stamped.operation, rfl, ?_⟩
    rw [found]
    exact has_action
  · intro lsn _ action has_action
    rcases Option.bind_eq_some_iff.mp has_action with ⟨entry, found, has_action⟩
    rcases attests.complete _ entry found with ⟨logged, member, lsn_eq⟩
    rcases attests.entry logged member with ⟨store, _, found'⟩
    rw [lsn_eq, found] at found'
    cases found'
    rw [Entry.action?_map, Option.map_eq_some_iff] at has_action
    rcases has_action with ⟨operation, logged_action, _⟩
    exact ⟨⟨lsn, operation⟩, mem_mutations_iff.mpr ⟨logged, member,
      stamped?_eq_some_iff.mpr ⟨lsn_eq, logged_action⟩⟩, rfl⟩
  · intro stamped member
    rcases mem_mutations_iff.mp member with ⟨logged, inside, has⟩
    rw [← (stamped?_eq_some_iff.mp has).1]
    exact all logged inside

/-- What is prescribed to be replayed is what stands. -/
theorem Tells.mem_replayedOf_uses (tells : Tells ledger history)
    (all : ∀ stamped ∈ history, stamped.lsn ∈ lsns) :
    stamped ∈ replayedOf (ledger.uses app lsns) ↔ Stands history stamped := by
  rw [tells.attests.mem_replayedOf_uses (List.forall_mem_map.mpr all), mutations_alone]
  constructor
  · exact fun replayed => (tells.replayed_iff_stands replayed.1).mp replayed.2
  · exact fun stands => ⟨stands.1, (tells.replayed_iff_stands stands.1).mpr stands⟩

/-- What is prescribed to be replayed comes in the order of the records. -/
theorem pairwise_replayedOf_uses {relation : Nat → Nat → Prop} (pairwise : lsns.Pairwise relation) :
    (replayedOf (ledger.uses app lsns)).Pairwise fun stamped other =>
      relation stamped.lsn other.lsn := by
  rw [replayedOf, Ledger.uses, List.pairwise_filterMap, List.pairwise_filterMap]
  apply pairwise.imp
  intro lsn other related use used use' used' seen_as seen seen_as' seen'
  cases use with
  | disposed => cases seen
  | replayed job =>
      cases use' with
      | disposed => cases seen'
      | replayed job' =>
          cases seen
          cases seen'
          rw [Ledger.use?_eq_replayed_iff] at used used'
          rw [used.1, used'.1]
          exact related

/-- The writes of a key are replayed in the bucket of the key. -/
theorem filter_replayedOf (uses : List (Use Action)) (key : Key) :
    (replayedOf uses).filter (·.operation.key? = some key) =
      (replayedOf (uses.filter (Use.replaysIn app key.bucket))).filter
        (·.operation.key? = some key) := by
  rw [replayedOf, replayedOf, List.filter_filterMap, List.filter_filterMap, List.filterMap_filter]
  congr 1
  funext use
  cases use with
  | disposed job => simp [Use.replaysIn]
  | replayed job =>
      by_cases writes : job.action.operation.key? = some key
      · have inside : Use.replaysIn app key.bucket (.replayed job) = true :=
          decide_eq_true (Operation.bucket_of_key writes)
        rw [if_pos inside]
      · simp [writes]

/-- The mutations that a recovery replays, one after the other. -/
structure Rerun (ledger : Ledger Action) (history : List Logged) (applied : List Stamped) :
    Prop where
  member_iff : ∀ stamped, stamped ∈ applied ↔
    stamped ∈ mutations history ∧ ledger.Replayed app stamped.lsn
  differ : applied.Pairwise (·.lsn ≠ ·.lsn)
  newest_first : ∀ key, applied.Pairwise fun newer older =>
    newer.operation.key? = some key → older.operation.key? = some key → older.lsn < newer.lsn

/-- What is prescribed is replayed, and of each bucket in the order in which the records
were scanned. -/
theorem Attests.rerun {history : List Logged} (attests : Attests ledger history)
    (all : ∀ logged ∈ history, logged.lsn ∈ lsns)
    (descends : lsns.Pairwise fun newer older => older < newer) {uses : List (Use Action)}
    (shuffled : uses.Perm (ledger.uses app lsns))
    (ordered : ∀ bucket, uses.reverse.filter (Use.replaysIn app bucket) =
      (ledger.uses app lsns).filter (Use.replaysIn app bucket)) :
    Rerun ledger history (replayedOf uses.reverse) := by
  have same : (replayedOf uses.reverse).Perm (replayedOf (ledger.uses app lsns)) :=
    (uses.reverse_perm.trans shuffled).filterMap _
  constructor
  · exact fun stamped => same.mem_iff.trans (attests.mem_replayedOf_uses all)
  · exact (same.pairwise_iff Ne.symm).mpr (pairwise_replayedOf_uses (descends.imp Nat.ne_of_gt))
  · intro key
    have writes : ((replayedOf uses.reverse).filter (·.operation.key? = some key)).Pairwise
        fun newer older => older.lsn < newer.lsn := by
      rw [filter_replayedOf, ordered, ← filter_replayedOf]
      exact (pairwise_replayedOf_uses descends).filter _
    simpa only [List.pairwise_filter, decide_eq_true_eq] using writes

/-- A store that consumes what is prescribed, in any order, shows a history of which that
stands. -/
theorem shows_of_carryOutAll
    (prescribed : ∀ stamped, stamped ∈ replayedOf (ledger.uses app lsns) ↔ Stands history stamped)
    (descends : lsns.Pairwise fun newer older => older < newer)
    {uses : List (Use Action)} (shuffled : uses.Perm (ledger.uses app lsns)) {final : Store}
    (carried : Use.carryOutAll app uses.reverse .empty = .ok final) : final.Shows history := by
  have same : (replayedOf uses.reverse).Perm (replayedOf (ledger.uses app lsns)) :=
    (uses.reverse_perm.trans shuffled).filterMap _
  have member_iff : ∀ stamped, stamped ∈ replayedOf uses.reverse ↔ Stands history stamped :=
    fun stamped => same.mem_iff.trans (prescribed stamped)
  have differ : (replayedOf uses.reverse).Pairwise (·.lsn ≠ ·.lsn) :=
    (same.pairwise_iff Ne.symm).mpr (pairwise_replayedOf_uses (descends.imp Nat.ne_of_gt))
  have inOrder : InOrder (replayedOf uses.reverse) := by
    apply differ.imp_of_mem
    intro earlier later member later_member differs
    constructor
    · exact differs
    · intro gt covers
      have stands := (member_iff later).mp later_member
      exact stands.2 earlier ((member_iff earlier).mp member).1 gt covers
  apply (Store.Shows.empty.carryOutAll inOrder carried).of_stands_iff
  intro stamped
  rw [List.nil_append]
  constructor
  · exact fun stands => (member_iff stamped).mp stands.1
  · intro stands
    constructor
    · exact (member_iff stamped).mpr stands
    · intro later member lt
      exact stands.2 later ((member_iff later).mp member).1 lt

end Logbook.KeyValue

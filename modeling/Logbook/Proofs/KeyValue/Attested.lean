import Logbook.KeyValue.Transcript
import Logbook.Proofs.KeyValue.Standing
import Logbook.Proofs.Recovery.Judged

/-!
# Which mutations are replayed

In the log of a store every mutation lists what stood of its key or scope when it was
logged. What stood then was decided by all mutations, those of transactions that were
given up later included, while recovery only goes by those that take effect. So a
mutation that was renewed is found through the next mutation that renewed it, as long
as no deletion of its scope came between the two.
-/

namespace Logbook

namespace Entry

variable {α β : Type} {entry : Entry α} {txn : Nat}

@[simp]
theorem action?_map (change : α → β) (entry : Entry α) :
    (entry.map change).action? = entry.action?.map change := by
  cases entry <;> rfl

@[simp]
theorem txn?_map (change : α → β) (entry : Entry α) : (entry.map change).txn? = entry.txn? := by
  cases entry <;> rfl

theorem map_eq_commit_iff {change : α → β} :
    entry.map change = .commit txn ↔ entry = .commit txn := by
  cases entry <;> simp [map]

/-- An entry of a transaction that has an action is a member. -/
theorem eq_member {action : α} (names : entry.txn? = some txn)
    (has_action : entry.action? = some action) : entry = .member txn action := by
  cases entry with
  | plain => cases names
  | member =>
      cases names
      cases has_action
      rfl
  | commit => cases has_action

end Entry

namespace KeyValue

open Recovery

/-! ### Ordered histories -/

/-- A later mutation of the history takes the place of this one. -/
def Renewed (history : List Stamped) (stamped : Stamped) : Prop :=
  ∃ later ∈ history, stamped.lsn < later.lsn ∧ later.operation.Renews stamped.operation

/-- A later mutation of the history deletes the scope of this one, of a key. -/
def Wiped (history : List Stamped) (stamped : Stamped) : Prop :=
  ∃ later ∈ history, stamped.lsn < later.lsn ∧
    later.operation.deletedScope = some stamped.operation.scope ∧
    ¬ later.operation.Renews stamped.operation

section Ordered

variable {history : List Stamped} {stamped : Stamped} {property : Stamped → Prop}

theorem stands_iff :
    Stands history stamped ↔
      stamped ∈ history ∧ ¬ Renewed history stamped ∧ ¬ Wiped history stamped := by
  constructor
  · rintro ⟨member, uncovered⟩
    refine ⟨member, ?_, ?_⟩
    · rintro ⟨later, inside, lt, renews⟩
      exact uncovered later inside lt (.inl renews)
    · rintro ⟨later, inside, lt, deletes, _⟩
      exact uncovered later inside lt (.inr deletes)
  · rintro ⟨member, not_renewed, not_wiped⟩
    constructor
    · exact member
    · intro later inside lt covers
      by_cases renews : later.operation.Renews stamped.operation
      · exact not_renewed ⟨later, inside, lt, renews⟩
      · exact not_wiped ⟨later, inside, lt, covers.resolve_left renews, renews⟩

/-- The deletion of a scope is not wiped, but renewed. -/
theorem not_wiped_of_deletes {scope : UInt64}
    (deletes : stamped.operation.deletedScope = some scope) : ¬ Wiped history stamped := by
  rintro ⟨later, _, _, deletes', differs⟩
  rw [Operation.eq_deleteScope_of_deletedScope deletes] at deletes' differs
  rw [Operation.eq_deleteScope_of_deletedScope deletes'] at differs
  exact differs ⟨rfl, rfl⟩

/-- Mutations of an ordered history are told apart by their numbers. -/
theorem eq_of_lsn_eq (ordered : history.Pairwise (·.lsn < ·.lsn)) {other : Stamped}
    (member : stamped ∈ history) (other_member : other ∈ history)
    (same : stamped.lsn = other.lsn) : stamped = other := by
  induction history with
  | nil => cases member
  | cons head tail ih =>
      rw [List.pairwise_cons] at ordered
      rcases List.mem_cons.mp member with rfl | inside
      · rcases List.mem_cons.mp other_member with rfl | other_inside
        · rfl
        · exact absurd same (Nat.ne_of_lt (ordered.1 other other_inside))
      · rcases List.mem_cons.mp other_member with rfl | other_inside
        · exact absurd same.symm (Nat.ne_of_lt (ordered.1 stamped inside))
        · exact ih ordered.2 inside other_inside

theorem exists_first (ordered : history.Pairwise (·.lsn < ·.lsn))
    (some_has : ∃ stamped ∈ history, property stamped) :
    ∃ stamped ∈ history, property stamped ∧
      ∀ other ∈ history, property other → stamped.lsn ≤ other.lsn := by
  induction history with
  | nil =>
      rcases some_has with ⟨_, member, _⟩
      cases member
  | cons head tail ih =>
      rw [List.pairwise_cons] at ordered
      by_cases here : property head
      · refine ⟨head, List.mem_cons_self, here, ?_⟩
        intro other member _
        rcases List.mem_cons.mp member with rfl | inside
        · exact Nat.le_refl _
        · exact Nat.le_of_lt (ordered.1 other inside)
      · rcases some_has with ⟨stamped, member, has⟩
        rcases List.mem_cons.mp member with rfl | inside
        · exact absurd has here
        · rcases ih ordered.2 ⟨stamped, inside, has⟩ with ⟨first, first_inside, has, least⟩
          refine ⟨first, List.mem_cons_of_mem _ first_inside, has, ?_⟩
          intro other member holds
          rcases List.mem_cons.mp member with rfl | other_inside
          · exact absurd holds here
          · exact least other other_inside holds

theorem exists_last (ordered : history.Pairwise (·.lsn < ·.lsn))
    (some_has : ∃ stamped ∈ history, property stamped) :
    ∃ stamped ∈ history, property stamped ∧
      ∀ other ∈ history, property other → other.lsn ≤ stamped.lsn := by
  induction history with
  | nil =>
      rcases some_has with ⟨_, member, _⟩
      cases member
  | cons head tail ih =>
      rw [List.pairwise_cons] at ordered
      by_cases behind : ∃ stamped ∈ tail, property stamped
      · rcases ih ordered.2 behind with ⟨last, inside, has, greatest⟩
        refine ⟨last, List.mem_cons_of_mem _ inside, has, ?_⟩
        intro other member holds
        rcases List.mem_cons.mp member with rfl | other_inside
        · exact Nat.le_of_lt (ordered.1 last inside)
        · exact greatest other other_inside holds
      · rcases some_has with ⟨stamped, member, has⟩
        rcases List.mem_cons.mp member with rfl | inside
        · refine ⟨stamped, List.mem_cons_self, has, ?_⟩
          intro other other_member holds
          rcases List.mem_cons.mp other_member with rfl | other_inside
          · exact Nat.le_refl _
          · exact absurd ⟨other, other_inside, holds⟩ behind
        · exact absurd ⟨stamped, inside, has⟩ behind

end Ordered

/-! ### Mutations and their entries -/

section Mutations

variable {history front back : List Logged} {logged : Logged} {stamped : Stamped}

theorem stamped?_eq_some_iff :
    logged.stamped? = some stamped ↔
      logged.lsn = stamped.lsn ∧ logged.entry.action? = some stamped.operation := by
  rw [Logged.stamped?, Option.map_eq_some_iff]
  constructor
  · rintro ⟨operation, has_action, rfl⟩
    exact ⟨rfl, has_action⟩
  · rintro ⟨lsn_eq, has_action⟩
    refine ⟨stamped.operation, has_action, ?_⟩
    rw [lsn_eq]

theorem mem_mutations_iff :
    stamped ∈ mutations history ↔ ∃ logged ∈ history, logged.stamped? = some stamped :=
  List.mem_filterMap

theorem mem_effective_iff :
    stamped ∈ effective history ↔
      ∃ logged ∈ history, logged.TakesEffect history ∧ logged.stamped? = some stamped := by
  rw [effective, mem_mutations_iff]
  simp only [List.mem_filter, decide_eq_true_eq, and_assoc]

/-- What takes effect was logged. -/
theorem mem_mutations_of_effective (member : stamped ∈ effective history) :
    stamped ∈ mutations history := by
  rcases mem_effective_iff.mp member with ⟨logged, inside, _, has⟩
  exact mem_mutations_iff.mpr ⟨logged, inside, has⟩

theorem mutations_append (front back : List Logged) :
    mutations (front ++ back) = mutations front ++ mutations back :=
  List.filterMap_append

theorem mutations_concat (history : List Logged) (logged : Logged) :
    mutations (history ++ [logged]) = mutations history ++ logged.stamped?.toList := by
  have last : mutations [logged] = logged.stamped?.toList := by
    rw [mutations, List.filterMap_cons, List.filterMap_nil]
    cases logged.stamped? <;> rfl
  rw [mutations_append, last]

theorem ordered_mutations (ordered : history.Pairwise (·.lsn < ·.lsn)) :
    (mutations history).Pairwise (·.lsn < ·.lsn) := by
  rw [mutations, List.pairwise_filterMap]
  apply ordered.imp
  intro earlier later lt stamped has stamped' has'
  rw [← (stamped?_eq_some_iff.mp has).1, ← (stamped?_eq_some_iff.mp has').1]
  exact lt

theorem ordered_effective (ordered : history.Pairwise (·.lsn < ·.lsn)) :
    (effective history).Pairwise (·.lsn < ·.lsn) :=
  ordered_mutations (ordered.filter _)

end Mutations

/-- The log of a history: each mutation was built from a store that showed those before
it, and a transaction has no members behind its commit. -/
structure Attests (ledger : Ledger Action) (history : List Logged) : Prop where
  ordered : history.Pairwise (·.lsn < ·.lsn)
  entry : ∀ logged ∈ history, ∃ store : Store,
    store.Shows ((mutations history).filter (·.lsn < logged.lsn)) ∧
      ledger.entry logged.lsn = some (logged.entry.map store.build)
  le_highest : ∀ logged ∈ history, logged.lsn ≤ ledger.highest
  complete : ∀ lsn entry, ledger.entry lsn = some entry → ∃ logged ∈ history, logged.lsn = lsn
  before_commit : ∀ member ∈ history, ∀ commit ∈ history, ∀ txn operation,
    member.entry = .member txn operation → commit.entry = .commit txn → member.lsn < commit.lsn

namespace Attests

variable {ledger : Ledger Action} {history : List Logged} {logged : Logged} {stamped : Stamped}

/-- Entries of an ordered history are told apart by their numbers. -/
theorem logged_eq (attests : Attests ledger history) {other : Logged} (member : logged ∈ history)
    (other_member : other ∈ history) (same : logged.lsn = other.lsn) : logged = other := by
  rcases List.getElem_of_mem member with ⟨place, here, rfl⟩
  rcases List.getElem_of_mem other_member with ⟨place', here', rfl⟩
  have ordered := List.pairwise_iff_getElem.mp attests.ordered
  rcases Nat.lt_trichotomy place place' with lt | rfl | gt
  · exact absurd same (Nat.ne_of_lt (ordered place place' here here' lt))
  · rfl
  · exact absurd same.symm (Nat.ne_of_lt (ordered place' place here' here gt))

/-- The entry of a mutation in the log. -/
theorem entry_of_mem (attests : Attests ledger history) (member : stamped ∈ mutations history) :
    ∃ store : Store, store.Shows ((mutations history).filter (·.lsn < stamped.lsn)) ∧
      ∃ logged ∈ history, logged.stamped? = some stamped ∧
        ledger.entry stamped.lsn = some (logged.entry.map store.build) ∧
        (logged.entry.map store.build).action? = some (store.build stamped.operation) := by
  rcases mem_mutations_iff.mp member with ⟨logged, inside, has⟩
  rcases attests.entry logged inside with ⟨store, shows, found⟩
  rcases stamped?_eq_some_iff.mp has with ⟨lsn_eq, has_action⟩
  rw [lsn_eq] at shows found
  refine ⟨store, shows, logged, inside, has, found, ?_⟩
  rw [Entry.action?_map, has_action]
  rfl

theorem lsn_le_highest (attests : Attests ledger history) (member : stamped ∈ mutations history) :
    stamped.lsn ≤ ledger.highest := by
  rcases mem_mutations_iff.mp member with ⟨logged, inside, has⟩
  rw [← (stamped?_eq_some_iff.mp has).1]
  exact attests.le_highest logged inside

/-- What the record of a mutation lists is what stood before it and is renewed. -/
theorem lists_iff (attests : Attests ledger history) (member : stamped ∈ mutations history)
    {listed : Nat} :
    ledger.Lists app stamped.lsn listed ↔
      ∃ older, stamped.operation.Renews older ∧
        Stands ((mutations history).filter (·.lsn < stamped.lsn)) ⟨listed, older⟩ := by
  rcases attests.entry_of_mem member with ⟨store, shows, _, _, _, found, has_action⟩
  rw [Tables.lists_iff found, Entry.invalidated, has_action]
  exact shows.mem_supersededBy_iff

/-- Only mutations list others, and they list earlier mutations that they renew. -/
theorem renews_of_lists (attests : Attests ledger history) {lsn listed : Nat}
    (lists : ledger.Lists app lsn listed) :
    ∃ later ∈ mutations history, later.lsn = lsn ∧ ∃ earlier ∈ mutations history,
      earlier.lsn = listed ∧ later.operation.Renews earlier.operation := by
  rcases id lists with ⟨entry, found, inside⟩
  rcases attests.complete lsn entry found with ⟨logged, member, rfl⟩
  rcases attests.entry logged member with ⟨store, _, found'⟩
  cases found.symm.trans found'
  rw [Entry.invalidated, Entry.action?_map] at inside
  cases has_action : logged.entry.action? with
  | none =>
      rw [has_action] at inside
      cases inside
  | some operation =>
      have has : logged.stamped? = some ⟨logged.lsn, operation⟩ :=
        stamped?_eq_some_iff.mpr ⟨rfl, has_action⟩
      have later_member := mem_mutations_iff.mpr ⟨logged, member, has⟩
      rcases (attests.lists_iff later_member).mp lists with ⟨older, renews, stands⟩
      exact ⟨_, later_member, rfl, _, (List.mem_filter.mp stands.1).1, rfl, renews⟩

/-! ### What takes effect -/

/-- A mutation that is replayed takes effect. -/
theorem effective_of_replayed (attests : Attests ledger history)
    (member : stamped ∈ mutations history) (replayed : ledger.Replayed app stamped.lsn) :
    stamped ∈ effective history := by
  rcases attests.entry_of_mem member with ⟨store, _, logged, inside, has, found, has_action⟩
  rcases Ledger.replayed_iff.mp replayed with ⟨_, _, found', has_action', _, commits, _⟩
  cases found.symm.trans found'
  cases has_action.symm.trans has_action'
  refine mem_effective_iff.mpr ⟨logged, inside, ?_, has⟩
  intro txn names
  have is_member := Entry.eq_member names (stamped?_eq_some_iff.mp has).2
  rw [is_member] at commits
  rcases commits txn rfl with ⟨newer, _, _, committed⟩
  rcases attests.complete newer _ committed with ⟨commit, commit_member, rfl⟩
  rcases attests.entry commit commit_member with ⟨_, _, found''⟩
  have commits := Option.some.inj (found''.symm.trans committed)
  exact ⟨commit, commit_member, Entry.map_eq_commit_iff.mp commits⟩

/-- A mutation that is superseded was renewed by one that takes effect. -/
theorem renewed_of_superseded (attests : Attests ledger history) {stamped : Stamped}
    (member : stamped ∈ mutations history) (superseded : ledger.Superseded app stamped.lsn) :
    Renewed (effective history) stamped := by
  have ordered := ordered_mutations attests.ordered
  rcases Ledger.superseded_iff.mp superseded with ⟨newer, ⟨lt, le_highest⟩, taken, lists⟩
  rcases attests.renews_of_lists lists with
    ⟨later, later_member, rfl, earlier, earlier_member, same, renews⟩
  cases eq_of_lsn_eq ordered earlier_member member same
  rcases taken with replayed | superseded
  · exact ⟨later, attests.effective_of_replayed later_member replayed, lt, renews⟩
  · rcases attests.renewed_of_superseded later_member superseded with
      ⟨last, last_member, after, renews'⟩
    refine ⟨last, last_member, Nat.lt_trans lt after, ?_⟩
    exact ⟨renews'.1.trans renews.1, renews'.2.trans renews.2⟩
termination_by ledger.highest - stamped.lsn
decreasing_by omega

/-- The commit of a transaction ends it. -/
theorem commits_of_mem (attests : Attests ledger history) {commit : Logged} {txn : Nat}
    (member : commit ∈ history) (commits : commit.entry = .commit txn) :
    ledger.Commits app commit.lsn txn := by
  rcases attests.entry commit member with ⟨store, _, found⟩
  constructor
  · intro superseded
    rcases Ledger.superseded_iff.mp superseded with ⟨newer, _, _, lists⟩
    rcases attests.renews_of_lists lists with ⟨_, _, _, earlier, earlier_member, same, _⟩
    rcases mem_mutations_iff.mp earlier_member with ⟨logged, inside, has⟩
    rw [← (stamped?_eq_some_iff.mp has).1] at same
    cases attests.logged_eq inside member same
    rw [Logged.stamped?, commits] at has
    cases has
  · rw [found, commits]
    rfl

/-- A mutation that takes effect is replayed, unless it is superseded or its scope is
deleted. -/
theorem replayed_of_effective (attests : Attests ledger history)
    (member : stamped ∈ effective history) (live : ¬ ledger.Superseded app stamped.lsn)
    (kept : ¬ ledger.SomeFrom (ledger.Deletes app · stamped.operation.scope) (stamped.lsn + 1)) :
    ledger.Replayed app stamped.lsn := by
  rcases mem_effective_iff.mp member with ⟨logged, inside, takes_effect, has⟩
  rcases attests.entry_of_mem (mem_mutations_of_effective member) with
    ⟨store, _, logged', inside', has', found, has_action⟩
  have same_lsn : logged'.lsn = logged.lsn :=
    (stamped?_eq_some_iff.mp has').1.trans (stamped?_eq_some_iff.mp has).1.symm
  cases attests.logged_eq inside' inside same_lsn
  refine Ledger.replayed_iff.mpr ⟨_, _, found, has_action, live, ?_, ?_⟩
  · intro txn is_member
    have names : logged.entry.txn? = some txn := by
      rw [← Entry.txn?_map store.build, is_member]
      rfl
    rcases takes_effect txn names with ⟨commit, commit_member, commits⟩
    have lt := attests.before_commit logged inside commit commit_member txn _
      (Entry.eq_member names (stamped?_eq_some_iff.mp has).2) commits
    rw [(stamped?_eq_some_iff.mp has).1] at lt
    exact ⟨commit.lsn, ⟨lt, attests.le_highest commit commit_member⟩,
      attests.commits_of_mem commit_member commits⟩
  · intro scope in_scope
    cases in_scope
    exact kept

/-- A scope is deleted by recovery just if a mutation that takes effect deletes it. -/
theorem deletes_iff (attests : Attests ledger history) {lsn : Nat} {scope : UInt64} :
    ledger.SomeFrom (ledger.Deletes app · scope) (lsn + 1) ↔
      ∃ later ∈ effective history, lsn < later.lsn ∧
        later.operation.deletedScope = some scope := by
  have only_if : ∀ lsn, ledger.SomeFrom (ledger.Deletes app · scope) (lsn + 1) →
      ∃ later ∈ effective history, lsn < later.lsn ∧
        later.operation.deletedScope = some scope := by
    rintro lsn ⟨newer, ⟨lt, _⟩, replayed, entry, action, found, has_action, deletes⟩
    rcases attests.complete newer entry found with ⟨logged, member, rfl⟩
    rcases attests.entry logged member with ⟨store, _, found'⟩
    cases found.symm.trans found'
    rw [Entry.action?_map, Option.map_eq_some_iff] at has_action
    rcases has_action with ⟨operation, has_action, rfl⟩
    have has : logged.stamped? = some ⟨logged.lsn, operation⟩ :=
      stamped?_eq_some_iff.mpr ⟨rfl, has_action⟩
    have inside := mem_mutations_iff.mpr ⟨logged, member, has⟩
    exact ⟨_, attests.effective_of_replayed inside replayed, lt, deletes⟩
  constructor
  · exact only_if lsn
  · rintro ⟨later, later_member, lt, deletes⟩
    have some_deletes : ∃ later ∈ effective history,
        later.operation.deletedScope = some scope := ⟨later, later_member, deletes⟩
    rcases exists_last (ordered_effective attests.ordered) some_deletes with
      ⟨last, last_member, deletes', greatest⟩
    have le := greatest later later_member deletes
    have inside := mem_mutations_of_effective last_member
    rcases attests.entry_of_mem inside with ⟨store, _, _, _, _, found, has_action⟩
    have le_highest := attests.lsn_le_highest inside
    refine ⟨last.lsn, ⟨by omega, by omega⟩, ?_, _, _, found, has_action, deletes'⟩
    rw [Operation.eq_deleteScope_of_deletedScope deletes'] at has_action
    apply attests.replayed_of_effective last_member
    · intro superseded
      rcases attests.renewed_of_superseded inside superseded with ⟨next, next_member, after, renews⟩
      have := greatest next next_member (renews.2.trans deletes')
      omega
    · intro deleted
      rw [Operation.eq_deleteScope_of_deletedScope deletes'] at deleted
      rcases only_if last.lsn deleted with ⟨next, next_member, after, deletes''⟩
      have := greatest next next_member deletes''
      omega

/-- Recovery replays a mutation that takes effect, unless it is superseded or its scope is
deleted by another one that takes effect. -/
theorem replayed_iff (attests : Attests ledger history) (member : stamped ∈ mutations history) :
    ledger.Replayed app stamped.lsn ↔
      stamped ∈ effective history ∧ ¬ ledger.Superseded app stamped.lsn ∧
        ¬ ∃ later ∈ effective history, stamped.lsn < later.lsn ∧
          later.operation.deletedScope = some stamped.operation.scope := by
  rw [← attests.deletes_iff]
  constructor
  · intro replayed
    rcases attests.entry_of_mem member with ⟨store, _, _, _, _, found, has_action⟩
    rcases Ledger.replayed_iff.mp replayed with ⟨_, _, found', has_action', live, _, kept⟩
    cases found.symm.trans found'
    cases has_action.symm.trans has_action'
    exact ⟨attests.effective_of_replayed member replayed, live, kept _ rfl⟩
  · rintro ⟨effective, live, kept⟩
    exact attests.replayed_of_effective effective live kept

/-- A mutation that was renewed by one that takes effect is superseded, if no deletion of
its scope came between the two, and none that takes effect came after it. -/
theorem superseded_of_renewed (attests : Attests ledger history) {stamped later : Stamped}
    (member : stamped ∈ mutations history) (later_member : later ∈ effective history)
    (lt : stamped.lsn < later.lsn) (renews : later.operation.Renews stamped.operation)
    (between : ¬ Wiped ((mutations history).filter (·.lsn < later.lsn)) stamped)
    (kept : ¬ Wiped (effective history) stamped) : ledger.Superseded app stamped.lsn := by
  have ordered := ordered_mutations attests.ordered
  have some_renews : Renewed (mutations history) stamped :=
    ⟨later, mem_mutations_of_effective later_member, lt, renews⟩
  rcases exists_first ordered some_renews with ⟨next, next_member, ⟨after, renews'⟩, least⟩
  have next_le := least later (mem_mutations_of_effective later_member) ⟨lt, renews⟩
  have lists : ledger.Lists app next.lsn stamped.lsn := by
    apply (attests.lists_iff next_member).mpr
    refine ⟨stamped.operation, renews', List.mem_filter.mpr ⟨member, decide_eq_true after⟩, ?_⟩
    intro other inside behind covers
    rcases List.mem_filter.mp inside with ⟨other_member, before⟩
    have before := of_decide_eq_true before
    by_cases again : other.operation.Renews stamped.operation
    · exact absurd before (Nat.not_lt.mpr (least other other_member ⟨behind, again⟩))
    · apply between
      refine ⟨other, List.mem_filter.mpr ⟨other_member, ?_⟩, behind,
        covers.resolve_left again, again⟩
      exact decide_eq_true (Nat.lt_of_lt_of_le before next_le)
  -- What would wipe the next one would have wiped this one.
  have wipes : ∀ history, Wiped history next → Wiped history stamped := by
    rintro history ⟨other, other_member, behind, deletes, differs⟩
    rw [renews'.scope_eq] at deletes
    refine ⟨other, other_member, Nat.lt_trans after behind, deletes, ?_⟩
    intro again
    exact differs ⟨again.1.trans renews'.1.symm, again.2.trans renews'.2.symm⟩
  have next_highest := attests.lsn_le_highest next_member
  have taken : ledger.Replayed app next.lsn ∨ ledger.Superseded app next.lsn := by
    rcases Nat.lt_or_eq_of_le next_le with before | same
    · right
      apply attests.superseded_of_renewed next_member later_member before
      · exact ⟨renews.1.trans renews'.1.symm, renews.2.trans renews'.2.symm⟩
      · exact fun wiped => between (wipes _ wiped)
      · exact fun wiped => kept (wipes _ wiped)
    · cases eq_of_lsn_eq ordered next_member (mem_mutations_of_effective later_member) same
      by_cases superseded : ledger.Superseded app later.lsn
      · exact .inr superseded
      · left
        refine (attests.replayed_iff next_member).mpr ⟨later_member, superseded, ?_⟩
        rintro ⟨last, last_member, behind, deletes⟩
        by_cases again : last.operation.Renews later.operation
        · have next_deletes := again.2.symm.trans deletes
          exact superseded (attests.superseded_of_renewed next_member last_member behind again
            (not_wiped_of_deletes next_deletes) (not_wiped_of_deletes next_deletes))
        · exact kept (wipes _ ⟨last, last_member, behind, deletes, again⟩)
  exact Ledger.superseded_iff.mpr ⟨next.lsn, ⟨after, next_highest⟩, taken, lists⟩
termination_by ledger.highest - stamped.lsn
decreasing_by all_goals omega

end Attests

end KeyValue

end Logbook

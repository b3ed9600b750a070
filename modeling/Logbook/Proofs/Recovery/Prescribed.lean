import Logbook.Record
import Logbook.Recovery.Crew
import Logbook.Recovery.Fate

/-!
# What a log prescribes

Which records recovery has to replay is a matter of what the newer ones say, and
can be said without a pass and its tables. Going down from the newest record: a
record is superseded by a newer one that lists its number and is itself replayed
or superseded; an action is replayed unless it is superseded, belongs to a
transaction that no newer commit ends, or belongs to a scope that a newer replayed
action deletes. A superseded commit ends no transaction.

The two predicates call each other only for newer records, so they are defined by
recursion on the distance from the newest one.
-/

namespace Logbook.Recovery

variable {α σ : Type}

/-- The entries of a log by their numbers, and the highest number. -/
structure Ledger (α : Type) where
  highest : Nat
  entry : Nat → Option (Entry α)

namespace Ledger

/-- The entries of some records. -/
def ofRecords (app : Application α σ) (highest : Nat) (records : List Record) : Ledger α where
  highest := highest
  entry lsn :=
    (records.find? (·.lsn = lsn)).bind fun record => (Entry.decode app record.payload).toOption

variable (app : Application α σ) (ledger : Ledger α)

/-- The record has an entry that lists a number. -/
def Lists (lsn listed : Nat) : Prop :=
  ∃ entry, ledger.entry lsn = some entry ∧ listed ∈ entry.invalidated app

/-- The record has an action that deletes a scope. -/
def DeletesScope (lsn : Nat) (scope : UInt64) : Prop :=
  ∃ entry action, ledger.entry lsn = some entry ∧ entry.action? = some action ∧
    app.deletedScope action = some scope

mutual

/-- A newer record that is replayed or superseded lists the number. -/
def Superseded (lsn : Nat) : Prop :=
  ∃ newer, ∃ _ : lsn < newer ∧ newer ≤ ledger.highest,
    (Replayed newer ∨ Superseded newer) ∧ ledger.Lists app newer lsn
termination_by (ledger.highest - lsn, 0)
decreasing_by all_goals omega

/-- The record has an action, which is not superseded, and whose transaction, if it
has one, is committed, and whose scope, if it has one, is not deleted. -/
def Replayed (lsn : Nat) : Prop :=
  ∃ entry action, ledger.entry lsn = some entry ∧ entry.action? = some action ∧
    ¬ Superseded lsn ∧
    (∀ txn, entry = .member txn action →
      ∃ newer, ∃ _ : lsn < newer ∧ newer ≤ ledger.highest,
        ¬ Superseded newer ∧ ledger.entry newer = some (.commit txn)) ∧
    ∀ scope, app.scope action = some scope →
      ¬ ∃ newer, ∃ _ : lsn < newer ∧ newer ≤ ledger.highest,
        Replayed newer ∧ ledger.DeletesScope app newer scope
termination_by (ledger.highest - lsn, 1)
decreasing_by all_goals omega

end

/-- Some record from `lsn` up to the newest one has a property. -/
def SomeFrom (property : Nat → Prop) (lsn : Nat) : Prop :=
  ∃ newer, (lsn ≤ newer ∧ newer ≤ ledger.highest) ∧ property newer

/-- The record supersedes a number. -/
def Supersedes (lsn listed : Nat) : Prop :=
  (ledger.Replayed app lsn ∨ ledger.Superseded app lsn) ∧ ledger.Lists app lsn listed

/-- The record commits a transaction. -/
def Commits (lsn txn : Nat) : Prop :=
  ¬ ledger.Superseded app lsn ∧ ledger.entry lsn = some (.commit txn)

/-- The record is replayed and deletes a scope. -/
def Deletes (lsn : Nat) (scope : UInt64) : Prop :=
  ledger.Replayed app lsn ∧ ledger.DeletesScope app lsn scope

/-- The record is a member, which is not superseded, of a transaction that no newer
record commits. -/
def Voided (lsn : Nat) : Prop :=
  ∃ txn action, ledger.entry lsn = some (.member txn action) ∧
    ¬ ledger.Superseded app lsn ∧ ¬ ledger.SomeFrom (ledger.Commits app · txn) (lsn + 1)

/-- The record has an action, which is neither superseded nor voided, and a newer
replayed one deletes its scope. -/
def Deleted (lsn : Nat) : Prop :=
  ∃ entry action scope, ledger.entry lsn = some entry ∧ entry.action? = some action ∧
    ¬ ledger.Superseded app lsn ∧ ¬ ledger.Voided app lsn ∧ app.scope action = some scope ∧
    ledger.SomeFrom (ledger.Deletes app · scope) (lsn + 1)

/-- What becomes of a record. -/
def HasFate (lsn : Nat) : Fate → Prop
  | .superseded => ledger.Superseded app lsn
  | .commits => ∃ txn, ledger.Commits app lsn txn
  | .voided => ledger.Voided app lsn
  | .deleted => ledger.Deleted app lsn
  | .survives => ledger.Replayed app lsn

open Classical in
/-- How the action of a record, if it has one, is consumed. -/
noncomputable def use? (lsn : Nat) : Option (Use α) :=
  ((ledger.entry lsn).bind Entry.action?).map fun action =>
    if ledger.Replayed app lsn then .replayed ⟨action, lsn⟩ else .disposed ⟨action, lsn⟩

/-- How the actions of some records are consumed, one after the other. -/
noncomputable def uses (lsns : List Nat) : List (Use α) :=
  lsns.filterMap (ledger.use? app)

variable {app ledger} {lsn : Nat}

theorem superseded_iff :
    ledger.Superseded app lsn ↔ ledger.SomeFrom (ledger.Supersedes app · lsn) (lsn + 1) := by
  rw [Superseded]
  simp only [SomeFrom, Supersedes, exists_prop, Nat.succ_le_iff]

theorem replayed_iff :
    ledger.Replayed app lsn ↔
      ∃ entry action, ledger.entry lsn = some entry ∧ entry.action? = some action ∧
        ¬ ledger.Superseded app lsn ∧
        (∀ txn, entry = .member txn action →
          ledger.SomeFrom (ledger.Commits app · txn) (lsn + 1)) ∧
        ∀ scope, app.scope action = some scope →
          ¬ ledger.SomeFrom (ledger.Deletes app · scope) (lsn + 1) := by
  rw [Replayed]
  simp only [SomeFrom, Commits, Deletes, exists_prop, Nat.succ_le_iff]

theorem uses_append (front back : List Nat) :
    ledger.uses app (front ++ back) = ledger.uses app front ++ ledger.uses app back :=
  List.filterMap_append

theorem uses_of_replayed (replayed : ledger.Replayed app lsn) {entry : Entry α} {action : α}
    (found : ledger.entry lsn = some entry) (has_action : entry.action? = some action) :
    ledger.uses app [lsn] = [.replayed ⟨action, lsn⟩] := by
  simp [uses, use?, found, has_action, replayed]

theorem uses_of_not_replayed (gone : ¬ ledger.Replayed app lsn) {entry : Entry α} {action : α}
    (found : ledger.entry lsn = some entry) (has_action : entry.action? = some action) :
    ledger.uses app [lsn] = [.disposed ⟨action, lsn⟩] := by
  simp [uses, use?, found, has_action, gone]

theorem use?_eq_replayed_iff {job : Job α} :
    ledger.use? app lsn = some (.replayed job) ↔
      job.lsn = lsn ∧ ledger.Replayed app lsn ∧
        (ledger.entry lsn).bind Entry.action? = some job.action := by
  unfold use?
  cases (ledger.entry lsn).bind Entry.action? with
  | none => simp
  | some action =>
      rcases job with ⟨action', lsn'⟩
      by_cases replayed : ledger.Replayed app lsn
      · simp [replayed, and_comm, eq_comm]
      · simp [replayed]

theorem someFrom_iff {property : Nat → Prop} (le : lsn ≤ ledger.highest) :
    ledger.SomeFrom property lsn ↔ property lsn ∨ ledger.SomeFrom property (lsn + 1) := by
  constructor
  · rintro ⟨newer, ⟨lsn_le, le_highest⟩, holds⟩
    rcases Nat.eq_or_lt_of_le lsn_le with rfl | lt
    · exact .inl holds
    · exact .inr ⟨newer, ⟨lt, le_highest⟩, holds⟩
  · rintro (here | ⟨newer, ⟨lsn_lt, le_highest⟩, holds⟩)
    · exact ⟨lsn, ⟨Nat.le_refl lsn, le⟩, here⟩
    · exact ⟨newer, ⟨Nat.le_of_succ_le lsn_lt, le_highest⟩, holds⟩

theorem not_someFrom {property : Nat → Prop} (lt : ledger.highest < lsn) :
    ¬ ledger.SomeFrom property lsn := by
  rintro ⟨newer, ⟨lsn_le, le_highest⟩, _⟩
  omega

/-- A record with an action commits nothing. -/
theorem not_commits {entry : Entry α} {action : α} (found : ledger.entry lsn = some entry)
    (has_action : entry.action? = some action) : ¬ ∃ txn, ledger.Commits app lsn txn := by
  rintro ⟨txn, _, commit⟩
  rw [found] at commit
  cases commit
  cases has_action

theorem Superseded.not_replayed (superseded : ledger.Superseded app lsn) :
    ¬ ledger.Replayed app lsn := by
  intro replayed
  rcases replayed_iff.mp replayed with ⟨_, _, _, _, live, _⟩
  exact live superseded

theorem Commits.not_replayed {txn : Nat} (commits : ledger.Commits app lsn txn) :
    ¬ ledger.Replayed app lsn := by
  intro replayed
  rcases replayed_iff.mp replayed with ⟨entry, action, found, has_action, _⟩
  exact not_commits found has_action ⟨txn, commits⟩

theorem Voided.not_replayed (voided : ledger.Voided app lsn) : ¬ ledger.Replayed app lsn := by
  rcases voided with ⟨txn, action, found, _, uncommitted⟩
  intro replayed
  rcases replayed_iff.mp replayed with ⟨entry, action', found', has_action, _, committed, _⟩
  rw [found] at found'
  cases found'
  cases has_action
  exact uncommitted (committed txn rfl)

theorem Deleted.not_replayed (deleted : ledger.Deleted app lsn) : ¬ ledger.Replayed app lsn := by
  rcases deleted with ⟨entry, action, scope, found, has_action, _, _, in_scope, deletes⟩
  intro replayed
  rcases replayed_iff.mp replayed with ⟨entry', action', found', has_action', _, _, kept⟩
  rw [found] at found'
  cases found'
  rw [has_action] at has_action'
  cases has_action'
  exact kept scope in_scope deletes

open Classical in
/-- The first fate of a record, in the order in which a pass looks for them. -/
noncomputable def fate (app : Application α σ) (ledger : Ledger α) (lsn : Nat) : Fate :=
  if ledger.Superseded app lsn then .superseded
  else if ∃ txn, ledger.Commits app lsn txn then .commits
  else if ledger.Voided app lsn then .voided
  else if ledger.Replayed app lsn then .survives
  else .deleted

theorem HasFate.fate_eq {fate : Fate} (has_fate : ledger.HasFate app lsn fate) :
    ledger.fate app lsn = fate := by
  unfold Ledger.fate
  cases fate with
  | superseded => exact if_pos has_fate
  | commits =>
      rcases has_fate with ⟨txn, live, commit⟩
      rw [if_neg live, if_pos ⟨txn, live, commit⟩]
  | voided =>
      have voided : ledger.Voided app lsn := has_fate
      rcases has_fate with ⟨txn, action, found, live, _⟩
      rw [if_neg live, if_neg (not_commits found rfl), if_pos voided]
  | survives =>
      have replayed : ledger.Replayed app lsn := has_fate
      rcases replayed_iff.mp replayed with ⟨entry, action, found, has_action, live, _⟩
      rw [if_neg live, if_neg (not_commits found has_action),
        if_neg fun voided => voided.not_replayed replayed, if_pos replayed]
  | deleted =>
      have deleted : ledger.Deleted app lsn := has_fate
      rcases has_fate with ⟨entry, action, scope, found, has_action, live, not_voided, _⟩
      rw [if_neg live, if_neg (not_commits found has_action), if_neg not_voided,
        if_neg deleted.not_replayed]

/-- A record has one fate. -/
theorem HasFate.unique {fate other : Fate} (here : ledger.HasFate app lsn fate)
    (there : ledger.HasFate app lsn other) : fate = other :=
  here.fate_eq.symm.trans there.fate_eq

end Ledger

end Logbook.Recovery

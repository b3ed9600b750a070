import Logbook.Proofs.Recovery.Prescribed

/-!
# The tables know what was said

Judging records from the newest down, the tables hold at each record what the
newer ones say about the older ones, so the fate that they give a record is the
one that the log prescribes.
-/

namespace Logbook.Recovery

variable {α σ : Type} {app : Application α σ} {ledger : Ledger α}

open Ledger

/-- What the tables hold once the records from `lsn` on were judged. -/
structure Tables.Knows (app : Application α σ) (ledger : Ledger α) (lsn : Nat)
    (tables : Tables) : Prop where
  superseded : ∀ listed < lsn,
    listed ∈ tables.superseded ↔ ledger.SomeFrom (ledger.Supersedes app · listed) lsn
  committed : ∀ txn,
    txn ∈ tables.committed ↔ ledger.SomeFrom (ledger.Commits app · txn) lsn
  deletedScopes : ∀ scope,
    scope ∈ tables.deletedScopes ↔ ledger.SomeFrom (ledger.Deletes app · scope) lsn

namespace Tables

theorem knows_empty : Knows app ledger (ledger.highest + 1) .empty where
  superseded listed _ := by
    simp [empty, not_someFrom (Nat.lt_succ_self ledger.highest)]
  committed txn := by
    simp [empty, not_someFrom (Nat.lt_succ_self ledger.highest)]
  deletedScopes scope := by
    simp [empty, not_someFrom (Nat.lt_succ_self ledger.highest)]

variable {tables : Tables} {lsn : Nat} {entry : Entry α}

namespace Knows

theorem superseded_self (knows : Knows app ledger (lsn + 1) tables) :
    lsn ∈ tables.superseded ↔ ledger.Superseded app lsn :=
  (knows.superseded lsn (Nat.lt_succ_self lsn)).trans superseded_iff.symm

/-- Tables that gain what a record says know it, too. -/
theorem of_gained (knows : Knows app ledger (lsn + 1) tables) (le : lsn ≤ ledger.highest)
    {gained : Tables}
    (superseded : ∀ listed < lsn, listed ∈ gained.superseded ↔
      ledger.Supersedes app lsn listed ∨ listed ∈ tables.superseded)
    (committed : ∀ txn, txn ∈ gained.committed ↔
      ledger.Commits app lsn txn ∨ txn ∈ tables.committed)
    (deletedScopes : ∀ scope, scope ∈ gained.deletedScopes ↔
      ledger.Deletes app lsn scope ∨ scope ∈ tables.deletedScopes) :
    Knows app ledger lsn gained where
  superseded listed lt := by
    rw [superseded listed lt, knows.superseded listed (Nat.lt_succ_of_lt lt), someFrom_iff le]
  committed txn := by
    rw [committed, knows.committed, someFrom_iff le]
  deletedScopes scope := by
    rw [deletedScopes, knows.deletedScopes, someFrom_iff le]

end Knows

theorem lists_iff (found : ledger.entry lsn = some entry) {listed : Nat} :
    ledger.Lists app lsn listed ↔ listed ∈ entry.invalidated app := by
  simp [Ledger.Lists, found]

theorem deletesScope_iff (found : ledger.entry lsn = some entry) {action : α}
    (has_action : entry.action? = some action) {scope : UInt64} :
    ledger.DeletesScope app lsn scope ↔ app.deletedScope action = some scope := by
  simp [DeletesScope, found, has_action]

/-- The fate of an action that is neither superseded nor voided. -/
theorem judgeAction_spec (knows : Knows app ledger (lsn + 1) tables)
    (le : lsn ≤ ledger.highest) (found : ledger.entry lsn = some entry) {action : α}
    (has_action : entry.action? = some action) (live : ¬ ledger.Superseded app lsn)
    (committed : ∀ txn, entry = .member txn action →
      ledger.SomeFrom (ledger.Commits app · txn) (lsn + 1)) :
    ledger.HasFate app lsn (tables.judgeAction app action).1 ∧
      (tables.judgeAction app action).2.Knows app ledger lsn := by
  have no_commit : ∀ txn, ¬ ledger.Commits app lsn txn := fun txn commits =>
    not_commits found has_action ⟨txn, commits⟩
  unfold judgeAction
  split
  · rename_i deleted
    rcases deleted with ⟨scope, in_scope, deletes⟩
    rw [Option.mem_def] at in_scope
    rw [knows.deletedScopes] at deletes
    have not_voided : ¬ ledger.Voided app lsn := by
      rintro ⟨txn, action', found', _, uncommitted⟩
      cases found.symm.trans found'
      cases has_action
      exact uncommitted (committed txn rfl)
    have deleted : ledger.Deleted app lsn :=
      ⟨entry, action, scope, found, has_action, live, not_voided, in_scope, deletes⟩
    constructor
    · exact deleted
    · apply knows.of_gained le
      · simp [Supersedes, deleted.not_replayed, live]
      · simp [no_commit]
      · simp [Deletes, deleted.not_replayed]
  · rename_i kept
    have replayed : ledger.Replayed app lsn := by
      refine replayed_iff.mpr ⟨entry, action, found, has_action, live, committed, ?_⟩
      intro scope in_scope deletes
      exact kept ⟨scope, in_scope, (knows.deletedScopes scope).mpr deletes⟩
    constructor
    · exact replayed
    · apply knows.of_gained le
      · intro listed _
        simp [noteAction, Supersedes, replayed, lists_iff found, Entry.invalidated, has_action]
      · simp [noteAction, no_commit]
      · intro scope
        simp [noteAction, Deletes, replayed, deletesScope_iff found has_action]

/-- The tables give a record the fate that the log prescribes. -/
theorem judge_spec (knows : Knows app ledger (lsn + 1) tables) (le : lsn ≤ ledger.highest)
    (found : ledger.entry lsn = some entry) :
    ledger.HasFate app lsn (tables.judge app lsn entry).1 ∧
      (tables.judge app lsn entry).2.Knows app ledger lsn := by
  unfold judge
  split
  · rename_i listed
    have superseded := knows.superseded_self.mp listed
    constructor
    · exact superseded
    · apply knows.of_gained le
      · intro listed lt
        simp [Supersedes, superseded, lists_iff found, Nat.ne_of_lt lt]
      · simp [Commits, superseded]
      · simp [Deletes, superseded.not_replayed]
  · rename_i unlisted
    have live : ¬ ledger.Superseded app lsn := fun superseded =>
      unlisted (knows.superseded_self.mpr superseded)
    cases entry with
    | commit txn =>
        have commits : ledger.Commits app lsn txn := ⟨live, found⟩
        constructor
        · exact ⟨txn, commits⟩
        · apply knows.of_gained le
          · simp [Supersedes, commits.not_replayed, live]
          · intro other
            simp [Commits, live, found, eq_comm]
          · simp [Deletes, commits.not_replayed]
    | member txn action =>
        dsimp only
        split
        · rename_i committed
          refine judgeAction_spec knows le found rfl live ?_
          intro txn' same
          cases same
          exact (knows.committed txn).mp committed
        · rename_i uncommitted
          rw [knows.committed] at uncommitted
          have voided : ledger.Voided app lsn := ⟨txn, action, found, live, uncommitted⟩
          constructor
          · exact voided
          · apply knows.of_gained le
            · simp [Supersedes, voided.not_replayed, live]
            · simp [Commits, found]
            · simp [Deletes, voided.not_replayed]
    | plain action =>
        exact judgeAction_spec knows le found rfl live fun txn same => by cases same

end Tables

end Logbook.Recovery

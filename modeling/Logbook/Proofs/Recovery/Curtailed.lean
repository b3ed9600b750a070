import Logbook.Proofs.Recovery.Judged

/-!
# A log from some number on

What a log prescribes for the records from some number on is a matter of these records
alone, and of the numbers from there on that they list. So a log of which the older
part is not read prescribes for the rest what it would as a whole, and it does not
matter which of the numbers that were not read are listed.
-/

namespace Logbook

variable {α σ : Type}

/-- Two actions say the same to the records from a number on. -/
structure Application.SaysSame (app : Application α σ) (boundary : Nat) (action other : α) :
    Prop where
  scope : app.scope action = app.scope other
  deletedScope : app.deletedScope action = app.deletedScope other
  invalidated : ∀ listed, boundary ≤ listed →
    (listed ∈ app.invalidated action ↔ listed ∈ app.invalidated other)

/-- Two entries are of the same kind, and say the same to the records from a number on. -/
inductive Entry.SaysSame (app : Application α σ) (boundary : Nat) : Entry α → Entry α → Prop where
  | plain {action other : α} (same : app.SaysSame boundary action other) :
      SaysSame app boundary (.plain action) (.plain other)
  | member (txn : Nat) {action other : α} (same : app.SaysSame boundary action other) :
      SaysSame app boundary (.member txn action) (.member txn other)
  | commit (txn : Nat) : SaysSame app boundary (.commit txn) (.commit txn)

variable {app : Application α σ} {boundary : Nat}

theorem Application.SaysSame.symm {action other : α} (same : app.SaysSame boundary action other) :
    app.SaysSame boundary other action where
  scope := same.scope.symm
  deletedScope := same.deletedScope.symm
  invalidated listed le := (same.invalidated listed le).symm

namespace Entry.SaysSame

variable {entry other : Entry α}

theorem symm (same : entry.SaysSame app boundary other) : other.SaysSame app boundary entry := by
  cases same with
  | plain same => exact .plain same.symm
  | member txn same => exact .member txn same.symm
  | commit txn => exact .commit txn

theorem action? (same : entry.SaysSame app boundary other) {action : α}
    (has_action : entry.action? = some action) :
    ∃ twin, other.action? = some twin ∧ app.SaysSame boundary action twin := by
  cases same with
  | plain same =>
      cases has_action
      exact ⟨_, rfl, same⟩
  | member txn same =>
      cases has_action
      exact ⟨_, rfl, same⟩
  | commit txn => cases has_action

theorem mem_invalidated (same : entry.SaysSame app boundary other) {listed : Nat}
    (le : boundary ≤ listed) (inside : listed ∈ entry.invalidated app) :
    listed ∈ other.invalidated app := by
  cases same with
  | plain same => exact (same.invalidated listed le).mp inside
  | member txn same => exact (same.invalidated listed le).mp inside
  | commit txn => exact inside

end Entry.SaysSame

namespace Recovery.Ledger

variable {ledger other : Ledger α} {lsn : Nat}

/-- Two ledgers have the same records from a number on, and these say the same there. -/
structure Alike (app : Application α σ) (boundary : Nat) (ledger other : Ledger α) : Prop where
  highest : ledger.highest = other.highest
  entry : ∀ lsn, boundary ≤ lsn →
    Option.Rel (Entry.SaysSame app boundary) (ledger.entry lsn) (other.entry lsn)

namespace Alike

theorem symm (alike : Alike app boundary ledger other) : Alike app boundary other ledger where
  highest := alike.highest.symm
  entry lsn le := by
    have same := alike.entry lsn le
    generalize ledger.entry lsn = here at same
    generalize other.entry lsn = there at same
    cases same with
    | some same => exact .some same.symm
    | none => exact .none

theorem found (alike : Alike app boundary ledger other) (le : boundary ≤ lsn) {entry : Entry α}
    (found : ledger.entry lsn = some entry) :
    ∃ twin, other.entry lsn = some twin ∧ entry.SaysSame app boundary twin := by
  have same := alike.entry lsn le
  rw [found] at same
  generalize other.entry lsn = there at same
  cases same with
  | some same => exact ⟨_, rfl, same⟩

theorem lists (alike : Alike app boundary ledger other) {listed : Nat} (le : boundary ≤ lsn)
    (le_listed : boundary ≤ listed) (lists : ledger.Lists app lsn listed) :
    other.Lists app lsn listed := by
  rcases lists with ⟨entry, found, inside⟩
  rcases alike.found le found with ⟨twin, found', same⟩
  exact ⟨twin, found', same.mem_invalidated le_listed inside⟩

theorem deletesScope (alike : Alike app boundary ledger other) {scope : UInt64}
    (le : boundary ≤ lsn) (deletes : ledger.DeletesScope app lsn scope) :
    other.DeletesScope app lsn scope := by
  rcases deletes with ⟨entry, action, found, has_action, deletes⟩
  rcases alike.found le found with ⟨twin, found', same⟩
  rcases same.action? has_action with ⟨action', has_action', same⟩
  exact ⟨twin, action', found', has_action', same.deletedScope ▸ deletes⟩

theorem commit (alike : Alike app boundary ledger other) {txn : Nat} (le : boundary ≤ lsn)
    (found : ledger.entry lsn = some (.commit txn)) : other.entry lsn = some (.commit txn) := by
  rcases alike.found le found with ⟨twin, found', same⟩
  cases same
  exact found'

theorem someFrom (alike : Alike app boundary ledger other) {property twin : Nat → Prop}
    (implies : ∀ newer, lsn ≤ newer → newer ≤ ledger.highest → property newer → twin newer)
    (some_from : ledger.SomeFrom property lsn) : other.SomeFrom twin lsn := by
  rcases some_from with ⟨newer, ⟨le, le_highest⟩, holds⟩
  exact ⟨newer, ⟨le, alike.highest ▸ le_highest⟩, implies newer le le_highest holds⟩

/-- What newer records say is what their counterparts say, if the same becomes of them. -/
theorem superseded_of_newer (alike : Alike app boundary ledger other) (le : boundary ≤ lsn)
    (newer_same : ∀ newer, lsn < newer → newer ≤ ledger.highest →
      (ledger.Superseded app newer ↔ other.Superseded app newer) ∧
        (ledger.Replayed app newer ↔ other.Replayed app newer))
    (superseded : ledger.Superseded app lsn) : other.Superseded app lsn := by
  rw [superseded_iff] at superseded ⊢
  apply alike.someFrom _ superseded
  rintro newer lt le_highest ⟨taken, lists⟩
  rcases newer_same newer lt le_highest with ⟨same_superseded, same_replayed⟩
  exact ⟨taken.imp same_replayed.mp same_superseded.mp,
    alike.lists (Nat.le_trans le (Nat.le_of_lt lt)) le lists⟩

theorem replayed_of_newer (alike : Alike app boundary ledger other) (le : boundary ≤ lsn)
    (newer_same : ∀ newer, lsn < newer → newer ≤ ledger.highest →
      (ledger.Superseded app newer ↔ other.Superseded app newer) ∧
        (ledger.Replayed app newer ↔ other.Replayed app newer))
    (same : ledger.Superseded app lsn ↔ other.Superseded app lsn)
    (replayed : ledger.Replayed app lsn) : other.Replayed app lsn := by
  have above : ∀ {newer}, lsn < newer → boundary ≤ newer :=
    fun lt => Nat.le_trans le (Nat.le_of_lt lt)
  rcases replayed_iff.mp replayed with ⟨entry, action, found, has_action, live, commits, kept⟩
  rcases alike.found le found with ⟨twin, found', same_entry⟩
  rcases same_entry.action? has_action with ⟨action', has_action', same_action⟩
  refine replayed_iff.mpr ⟨twin, action', found', has_action', mt same.mpr live, ?_, ?_⟩
  · rintro txn rfl
    cases same_entry with
    | member txn same_member =>
        cases has_action
        apply alike.someFrom _ (commits txn rfl)
        rintro newer lt le_highest ⟨not_superseded, committed⟩
        exact ⟨mt (newer_same newer lt le_highest).1.mpr not_superseded,
          alike.commit (above lt) committed⟩
  · intro scope in_scope deleted
    apply kept scope (same_action.scope.trans in_scope)
    apply alike.symm.someFrom _ deleted
    rintro newer lt le_highest ⟨replayed, deletes⟩
    exact ⟨(newer_same newer lt (alike.highest.symm ▸ le_highest)).2.mpr replayed,
      alike.symm.deletesScope (above lt) deletes⟩

/-- Ledgers that are alike from a number on prescribe the same from there on. -/
theorem same (alike : Alike app boundary ledger other) {lsn : Nat} (le : boundary ≤ lsn) :
    (ledger.Superseded app lsn ↔ other.Superseded app lsn) ∧
      (ledger.Replayed app lsn ↔ other.Replayed app lsn) := by
  -- What becomes of a record is up to newer ones, so the recursion goes towards the newest.
  have newer_same : ∀ newer, lsn < newer → newer ≤ ledger.highest →
      (ledger.Superseded app newer ↔ other.Superseded app newer) ∧
        (ledger.Replayed app newer ↔ other.Replayed app newer) :=
    fun newer lt le_highest => alike.same (Nat.le_trans le (Nat.le_of_lt lt))
  have back : ∀ newer, lsn < newer → newer ≤ other.highest →
      (other.Superseded app newer ↔ ledger.Superseded app newer) ∧
        (other.Replayed app newer ↔ ledger.Replayed app newer) :=
    fun newer lt le_highest =>
      (newer_same newer lt (alike.highest.symm ▸ le_highest)).imp Iff.symm Iff.symm
  have superseded : ledger.Superseded app lsn ↔ other.Superseded app lsn :=
    ⟨alike.superseded_of_newer le newer_same, alike.symm.superseded_of_newer le back⟩
  exact ⟨superseded, alike.replayed_of_newer le newer_same superseded,
    alike.symm.replayed_of_newer le back superseded.symm⟩
termination_by ledger.highest - lsn
decreasing_by omega

end Alike

end Recovery.Ledger

end Logbook

import Logbook.Proofs.KeyValue.Attested
import Logbook.Proofs.Recovery.Shared

/-!
# The survivors of a history

Where every mutation is logged on its own, all of them take effect, and recovery replays
a mutation just if it stands: one that was renewed is superseded, unless the whole scope
was deleted after it.
-/

namespace Logbook.KeyValue

open Recovery

/-- The log of a history: each mutation was built from a store that showed those
before it. -/
structure Tells (ledger : Ledger Action) (history : List Stamped) : Prop where
  ordered : history.Pairwise (·.lsn < ·.lsn)
  entry : ∀ stamped ∈ history, ∃ store : Store,
    store.Shows (history.filter (·.lsn < stamped.lsn)) ∧
      ledger.entry stamped.lsn = some (.plain (store.build stamped.operation))
  le_highest : ∀ stamped ∈ history, stamped.lsn ≤ ledger.highest
  complete : ∀ lsn entry, ledger.entry lsn = some entry → ∃ stamped ∈ history, stamped.lsn = lsn

variable {history : List Stamped} {stamped : Stamped}

/-- The mutation as it is logged on its own. -/
def Stamped.alone (stamped : Stamped) : Logged := ⟨stamped.lsn, .plain stamped.operation⟩

@[simp]
theorem mutations_alone (history : List Stamped) :
    mutations (history.map Stamped.alone) = history := by
  rw [mutations, List.filterMap_map]
  exact List.filterMap_some

@[simp]
theorem effective_alone (history : List Stamped) :
    effective (history.map Stamped.alone) = history := by
  rw [effective, List.filter_eq_self.mpr, mutations_alone]
  intro logged member
  rcases List.mem_map.mp member with ⟨stamped, _, rfl⟩
  apply decide_eq_true
  intro txn names
  cases names

namespace Tells

variable {ledger : Ledger Action}

theorem attests (tells : Tells ledger history) :
    Attests ledger (history.map Stamped.alone) where
  ordered := by
    rw [List.pairwise_map]
    exact tells.ordered
  entry := by
    simp only [List.forall_mem_map, mutations_alone]
    exact tells.entry
  le_highest := by
    simp only [List.forall_mem_map]
    exact tells.le_highest
  complete lsn entry found := by
    rcases tells.complete lsn entry found with ⟨stamped, member, lsn_eq⟩
    exact ⟨_, List.mem_map_of_mem member, lsn_eq⟩
  before_commit := by
    simp only [List.forall_mem_map]
    exact fun _ _ _ _ _ _ => nofun

/-- Recovery replays a mutation just if it stands. -/
theorem replayed_iff_stands (tells : Tells ledger history) (member : stamped ∈ history) :
    ledger.Replayed app stamped.lsn ↔ Stands history stamped := by
  have inside : stamped ∈ mutations (history.map Stamped.alone) := by
    rw [mutations_alone]
    exact member
  rw [tells.attests.replayed_iff inside, effective_alone]
  constructor
  · rintro ⟨_, live, kept⟩
    have not_wiped : ∀ later ∈ history, stamped.lsn < later.lsn →
        later.operation.deletedScope ≠ some stamped.operation.scope :=
      fun later later_member lt deletes => kept ⟨later, later_member, lt, deletes⟩
    refine stands_iff.mpr ⟨member, ?_, ?_⟩
    · rintro ⟨later, later_member, lt, renews⟩
      apply live
      apply tells.attests.superseded_of_renewed inside _ lt renews
      · rintro ⟨between, between_member, after, deletes, _⟩
        rw [mutations_alone] at between_member
        exact not_wiped between (List.mem_filter.mp between_member).1 after deletes
      · rintro ⟨last, last_member, after, deletes, _⟩
        rw [effective_alone] at last_member
        exact not_wiped last last_member after deletes
      · rw [effective_alone]
        exact later_member
    · rintro ⟨later, later_member, lt, deletes, _⟩
      exact not_wiped later later_member lt deletes
  · intro stands
    refine ⟨member, ?_, ?_⟩
    · intro superseded
      rcases tells.attests.renewed_of_superseded inside superseded with
        ⟨later, later_member, lt, renews⟩
      rw [effective_alone] at later_member
      exact stands.2 later later_member lt (.inl renews)
    · rintro ⟨later, later_member, lt, deletes⟩
      exact stands.2 later later_member lt (.inr deletes)

end Tells

end Logbook.KeyValue

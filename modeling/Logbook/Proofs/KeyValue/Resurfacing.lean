import Logbook.Proofs.KeyValue.Rebuilt

/-!
# Deleted keys that come back

A store that deletes a scope forgets the last writes of its keys, also when the deletion
is a member of a transaction that is given up later. The next write of such a key does
not supersede the one before, and recovery replays both, the newer one first. If the
newer one is a deletion, the value of the older one comes back. For all other keys, and
for no such key, the store that recovery leaves has what the mutations that take effect
have left.
-/

namespace Logbook.KeyValue

open Recovery

namespace Store

variable {store other : Store} {history front back : List Stamped} {key : Key}
  {entry : Versioned} {value : Bytes} {operation : Operation} {lsn : Nat}

/-- A value is of the mutation that was applied, or was there before. -/
theorem entries_of_apply (found : (store.apply operation lsn).entries[key]? = some entry) :
    store.entries[key]? = some entry ∨ operation = .put key entry.value ∧ lsn = entry.version := by
  cases operation with
  | put written value =>
      simp only [apply] at found
      split at found
      · exact .inl found
      · rw [Std.TreeMap.getElem?_insert] at found
        simp only [Std.LawfulEqOrd.compare_eq_iff_eq] at found
        split at found
        · rename_i same
          cases found
          exact .inr ⟨same ▸ rfl, rfl⟩
        · exact .inl found
  | delete deleted =>
      simp only [apply] at found
      split at found
      · rw [Std.TreeMap.getElem?_erase] at found
        split at found
        · cases found
        · exact .inl found
      · exact .inl found
  | deleteScope scope =>
      simp only [apply] at found
      rw [Std.TreeMap.getElem?_filter', Option.filter_eq_some_iff] at found
      exact .inl found.1

/-- A value is of one of the mutations that were applied, or was there before. -/
theorem entries_of_applyAll (found : (store.applyAll history).entries[key]? = some entry) :
    store.entries[key]? = some entry ∨ ⟨entry.version, .put key entry.value⟩ ∈ history := by
  induction history generalizing store with
  | nil => exact .inl found
  | cons stamped history ih =>
      rcases ih found with here | later
      · rcases entries_of_apply here with before | ⟨operation_eq, lsn_eq⟩
        · exact .inl before
        · right
          rw [← operation_eq, ← lsn_eq]
          exact List.mem_cons_self
      · exact .inr (List.mem_cons_of_mem _ later)

/-- A value stays while nothing newer covers it. -/
theorem entries_apply_of_older (found : store.entries[key]? = some entry)
    (older : operation.Covers (.put key entry.value) → lsn < entry.version) :
    (store.apply operation lsn).entries[key]? = some entry := by
  cases operation with
  | put written value =>
      simp only [apply]
      by_cases same : written = key
      · subst same
        have lt := older (.inl ⟨rfl, rfl⟩)
        rw [found, Option.any_some, decide_eq_true lt, if_pos rfl]
        exact found
      · split
        · exact found
        · rw [Std.TreeMap.getElem?_insert]
          simp only [Std.LawfulEqOrd.compare_eq_iff_eq, if_neg same]
          exact found
  | delete deleted =>
      simp only [apply]
      by_cases same : deleted = key
      · subst same
        have lt := older (.inl ⟨rfl, rfl⟩)
        rw [found, Option.any_some, decide_eq_false (Nat.lt_asymm lt), if_neg Bool.false_ne_true]
        exact found
      · split
        · rw [Std.TreeMap.getElem?_erase]
          simp only [Std.LawfulEqOrd.compare_eq_iff_eq, if_neg same]
          exact found
        · exact found
  | deleteScope scope =>
      simp only [apply]
      rw [Std.TreeMap.getElem?_filter', Option.filter_eq_some_iff]
      refine ⟨found, decide_eq_true ?_⟩
      by_cases inside : key.scope = scope
      · exact .inr (older (Operation.deleteScope_covers_iff.mpr inside))
      · exact .inl inside

theorem entries_applyAll_of_older (found : store.entries[key]? = some entry)
    (older : ∀ stamped ∈ history, stamped.operation.Covers (.put key entry.value) →
      stamped.lsn < entry.version) :
    (store.applyAll history).entries[key]? = some entry := by
  induction history generalizing store with
  | nil => exact found
  | cons stamped history ih =>
      rw [List.forall_mem_cons] at older
      exact ih (entries_apply_of_older found older.1) older.2

/-- The value of a put is there in the end, if no newer put of the key comes before it and
nothing newer that covers it comes after it. -/
theorem entries_of_newest
    (front_le : ∀ version value', ⟨version, .put key value'⟩ ∈ front → version ≤ lsn)
    (back_lt : ∀ stamped ∈ back, stamped.operation.Covers (.put key value) → stamped.lsn < lsn) :
    (empty.applyAll (front ++ ⟨lsn, .put key value⟩ :: back)).entries[key]? =
      some ⟨value, lsn⟩ := by
  rw [applyAll_append, applyAll_cons]
  have put : ((empty.applyAll front).apply (.put key value) lsn).entries[key]? =
      some ⟨value, lsn⟩ := by
    have none_newer : ((empty.applyAll front).entries[key]?.any (lsn < ·.version)) = false := by
      cases found : (empty.applyAll front).entries[key]? with
      | none => rfl
      | some entry =>
          rcases entries_of_applyAll found with before | inside
          · simp [empty] at before
          · have le := front_le entry.version entry.value inside
            rw [Option.any_some, decide_eq_false (Nat.not_lt.mpr le)]
    simp only [apply, none_newer, Bool.false_eq_true, ↓reduceIte]
    exact Std.TreeMap.getElem?_insert_self
  exact entries_applyAll_of_older put back_lt

/-- The values that a mutation leaves depend on no other table. -/
theorem entries_apply_congr (same : store.entries = other.entries) (operation : Operation)
    (lsn : Nat) : (store.apply operation lsn).entries = (other.apply operation lsn).entries := by
  cases operation <;> simp only [apply, same]

/-- The values that consuming actions leaves are those of the replayed mutations. -/
theorem entries_of_carryOutAll {uses : List (Use Action)} {final : Store}
    (same : store.entries = other.entries)
    (carried : Use.carryOutAll app uses store = .ok final) :
    final.entries = (other.applyAll (replayedOf uses)).entries := by
  induction uses generalizing store other with
  | nil =>
      cases carried
      exact same
  | cons use uses ih =>
      cases use with
      | disposed job =>
          have disposed : store.dispose.entries = other.entries := same
          exact ih disposed carried
      | replayed job =>
          have replayed : (store.replay job.action.operation job.lsn).entries =
              (other.apply job.action.operation job.lsn).entries :=
            entries_apply_congr same _ _
          exact ih replayed carried

end Store

/-- A put of a key takes effect, and so does a later deletion of the key, which is the
last word on it; but in between the scope was deleted by a mutation that does not take
effect, before any other one that does had written the key. -/
structure Resurfacing (history : List Logged) (key : Key) (value : Bytes)
    (put torn delete : Nat) : Prop where
  put_effective : ⟨put, .put key value⟩ ∈ effective history
  delete_stands : Stands (effective history) ⟨delete, .delete key⟩
  torn_logged : ⟨torn, .deleteScope key.scope⟩ ∈ mutations history
  torn_void : ⟨torn, .deleteScope key.scope⟩ ∉ effective history
  put_lt : put < torn
  lt_delete : torn < delete
  unwritten : ∀ stamped ∈ effective history, stamped.operation.key? = some key →
    put < stamped.lsn → torn < stamped.lsn
  kept : ∀ stamped ∈ effective history, stamped.operation.deletedScope = some key.scope →
    stamped.lsn < put

/-- Some put of the key resurfaces. -/
def Resurfaces (history : List Logged) (key : Key) : Prop :=
  ∃ value put torn delete, Resurfacing history key value put torn delete

theorem shows_effective {history : List Logged} (ordered : history.Pairwise (·.lsn < ·.lsn)) :
    (Store.empty.applyAll (effective history)).Shows (effective history) :=
  Store.Shows.empty.applyAll (inOrder_of_ordered (ordered_effective ordered))

/-- A key with a put that resurfaces was deleted. -/
theorem get?_effective_of_resurfaces {history : List Logged} {key : Key}
    (ordered : history.Pairwise (·.lsn < ·.lsn)) (resurfaces : Resurfaces history key) :
    (Store.empty.applyAll (effective history)).get? key = none := by
  rcases resurfaces with ⟨value, put, torn, delete, resurfacing⟩
  have deleted := resurfacing.delete_stands
  rw [Store.get?, Option.map_eq_none_iff, Option.eq_none_iff_forall_ne_some]
  intro entry found
  rw [(shows_effective ordered).entries key entry.value entry.version] at found
  rcases Nat.lt_trichotomy entry.version delete with lt | here | gt
  · exact found.2 _ deleted.1 lt (.inl ⟨rfl, rfl⟩)
  · cases eq_of_lsn_eq (ordered_effective ordered) found.1 deleted.1 here
  · exact deleted.2 _ found.1 gt (.inl ⟨rfl, rfl⟩)

namespace Attests

variable {ledger : Ledger Action} {history : List Logged} {stamped : Stamped} {lsns : List Nat}

/-- A put that is replayed and does not stand among what takes effect resurfaces, or the
key was put again. -/
theorem resurfacing_of_replayed (attests : Attests ledger history) {key : Key} {value : Bytes}
    {put : Nat} (member : ⟨put, .put key value⟩ ∈ mutations history)
    (replayed : ledger.Replayed app put)
    (covered : ¬ Stands (effective history) ⟨put, .put key value⟩) :
    ∃ last, put < last ∧ ((∃ value, Stands (effective history) ⟨last, .put key value⟩) ∨
      ∃ torn, Resurfacing history key value put torn last) := by
  have ordered := ordered_effective attests.ordered
  rcases (attests.replayed_iff member).mp replayed with ⟨takes_effect, live, kept⟩
  have kept : ∀ later ∈ effective history, put < later.lsn →
      later.operation.deletedScope ≠ some key.scope :=
    fun later later_member lt deletes => kept ⟨later, later_member, lt, deletes⟩
  have not_wiped : ¬ Wiped (effective history) ⟨put, .put key value⟩ := by
    rintro ⟨later, later_member, lt, deletes, _⟩
    exact kept later later_member lt deletes
  have rewritten : ∃ later ∈ effective history,
      put < later.lsn ∧ later.operation.key? = some key := by
    by_cases renewed : Renewed (effective history) ⟨put, .put key value⟩
    · rcases renewed with ⟨later, later_member, lt, renews⟩
      exact ⟨later, later_member, lt, renews.1⟩
    · exact absurd (stands_iff.mpr ⟨takes_effect, renewed, not_wiped⟩) covered
  rcases exists_first ordered rewritten with ⟨next, next_member, ⟨after, writes⟩, least⟩
  rcases exists_last ordered rewritten with ⟨last, last_member, ⟨behind, wrote⟩, greatest⟩
  have stands : Stands (effective history) last := by
    refine ⟨last_member, fun later later_member lt covers => ?_⟩
    rcases covers with renews | deletes
    · have le := greatest later later_member ⟨Nat.lt_trans behind lt, renews.1.trans wrote⟩
      exact absurd lt (Nat.not_lt.mpr le)
    · rw [Operation.scope_of_key wrote] at deletes
      exact kept later later_member (Nat.lt_trans behind lt) deletes
  -- The next write did not list the put, so the scope was deleted between the two.
  have wiped : Wiped ((mutations history).filter (·.lsn < next.lsn)) ⟨put, .put key value⟩ := by
    apply Classical.byContradiction
    intro unwiped
    exact live (attests.superseded_of_renewed member next_member after
      (Operation.renews_of_key writes rfl) unwiped not_wiped)
  rcases wiped with ⟨torn, torn_member, put_lt, deletes, _⟩
  rcases List.mem_filter.mp torn_member with ⟨torn_member, before⟩
  have before := of_decide_eq_true before
  have torn_eq : torn = ⟨torn.lsn, .deleteScope key.scope⟩ :=
    congrArg (Stamped.mk torn.lsn) (Operation.eq_deleteScope_of_deletedScope deletes)
  have next_le := greatest next next_member ⟨after, writes⟩
  refine ⟨last.lsn, behind, ?_⟩
  cases last_eq : last.operation with
  | put written value' =>
      rw [last_eq] at wrote
      cases wrote
      left
      refine ⟨value', ?_⟩
      rw [← last_eq]
      exact stands
  | deleteScope scope =>
      rw [last_eq] at wrote
      cases wrote
  | delete deleted =>
      rw [last_eq] at wrote
      cases wrote
      right
      refine ⟨torn.lsn, takes_effect, ?_, ?_, ?_, put_lt, ?_, ?_, ?_⟩
      · rw [← last_eq]
        exact stands
      · rw [← torn_eq]
        exact torn_member
      · rw [← torn_eq]
        exact fun torn_effective => kept torn torn_effective put_lt deletes
      · exact Nat.lt_of_lt_of_le before next_le
      · intro stamped stamped_member writes lt
        exact Nat.lt_of_lt_of_le before (least stamped stamped_member ⟨lt, writes⟩)
      · intro stamped stamped_member deletes
        rcases Nat.lt_trichotomy stamped.lsn put with lt | same | gt
        · exact lt
        · cases eq_of_lsn_eq ordered stamped_member takes_effect same
          cases deletes
        · exact absurd deletes (kept stamped stamped_member gt)

/-- No write of the key from the put on to the torn deletion is superseded: what came
before the deletion was given up, and what came after it did not know of the write. -/
theorem not_superseded_of_resurfacing (attests : Attests ledger history) {key : Key}
    {value : Bytes} {put torn delete : Nat}
    (resurfacing : Resurfacing history key value put torn delete) {stamped : Stamped}
    (member : stamped ∈ mutations history) (writes : stamped.operation.key? = some key)
    (put_le : put ≤ stamped.lsn) (lt_torn : stamped.lsn < torn) :
    ¬ ledger.Superseded app stamped.lsn := by
  intro superseded
  have ordered := ordered_mutations attests.ordered
  rcases Ledger.superseded_iff.mp superseded with ⟨newer, ⟨lt, le_highest⟩, taken, lists⟩
  rcases attests.renews_of_lists lists with
    ⟨later, later_member, rfl, earlier, earlier_member, same, renews⟩
  cases eq_of_lsn_eq ordered earlier_member member same
  rcases (attests.lists_iff later_member).mp lists with ⟨older, _, stands⟩
  obtain rfl : older = stamped.operation := congrArg Stamped.operation
    (eq_of_lsn_eq ordered (List.mem_filter.mp stands.1).1 member rfl)
  have rewrites : later.operation.key? = some key := renews.1.trans writes
  have before : later.lsn < torn := by
    rcases Nat.lt_trichotomy later.lsn torn with before | here | after
    · exact before
    · cases eq_of_lsn_eq ordered later_member resurfacing.torn_logged here
      cases rewrites
    · have inside : ⟨torn, .deleteScope key.scope⟩ ∈
          (mutations history).filter (·.lsn < later.lsn) :=
        List.mem_filter.mpr ⟨resurfacing.torn_logged, decide_eq_true after⟩
      refine absurd ?_ (stands.2 _ inside lt_torn)
      exact Operation.deleteScope_covers_iff.mpr (Operation.scope_of_key writes)
  rcases taken with replayed | superseded
  · have takes_effect := attests.effective_of_replayed later_member replayed
    have after := resurfacing.unwritten later takes_effect rewrites (Nat.lt_of_le_of_lt put_le lt)
    exact Nat.lt_asymm before after
  · exact attests.not_superseded_of_resurfacing resurfacing later_member rewrites
      (Nat.le_trans put_le (Nat.le_of_lt lt)) before superseded
termination_by ledger.highest - stamped.lsn
decreasing_by omega

/-- A put that resurfaces is replayed. -/
theorem replayed_of_resurfacing (attests : Attests ledger history) {key : Key} {value : Bytes}
    {put torn delete : Nat} (resurfacing : Resurfacing history key value put torn delete) :
    ledger.Replayed app put := by
  have member := mem_mutations_of_effective resurfacing.put_effective
  refine (attests.replayed_iff member).mpr ⟨resurfacing.put_effective, ?_, ?_⟩
  · exact attests.not_superseded_of_resurfacing resurfacing member rfl (Nat.le_refl put)
      resurfacing.put_lt
  · rintro ⟨later, later_member, lt, deletes⟩
    exact Nat.lt_asymm lt (resurfacing.kept later later_member deletes)

/-- A put that stands among what takes effect is replayed. -/
theorem replayed_of_stands (attests : Attests ledger history)
    (stands : Stands (effective history) stamped) : ledger.Replayed app stamped.lsn := by
  have member := mem_mutations_of_effective stands.1
  refine (attests.replayed_iff member).mpr ⟨stands.1, ?_, ?_⟩
  · intro superseded
    rcases attests.renewed_of_superseded member superseded with ⟨later, later_member, lt, renews⟩
    exact stands.2 later later_member lt (.inl renews)
  · rintro ⟨later, later_member, lt, deletes⟩
    exact stands.2 later later_member lt (.inr deletes)

end Attests

namespace Rerun

variable {ledger : Ledger Action} {history : List Logged} {applied : List Stamped} {key : Key}
  {value : Bytes} {lsn : Nat}

/-- The newest put of a key that is replayed gives it its value, if no deletion of the
scope that takes effect is newer. -/
theorem entries_of_newest (rerun : Rerun ledger history applied) (attests : Attests ledger history)
    (member : ⟨lsn, .put key value⟩ ∈ applied)
    (newest : ∀ version value', ⟨version, .put key value'⟩ ∈ applied → version ≤ lsn)
    (kept : ∀ stamped ∈ effective history, stamped.operation.deletedScope = some key.scope →
      stamped.lsn ≤ lsn) :
    (Store.empty.applyAll applied).entries[key]? = some ⟨value, lsn⟩ := by
  rcases List.append_of_mem member with ⟨front, back, rfl⟩
  apply Store.entries_of_newest
  · exact fun version value' inside => newest version value' (List.mem_append_left _ inside)
  · intro stamped behind covers
    have inside : stamped ∈ front ++ ⟨lsn, .put key value⟩ :: back :=
      List.mem_append_right _ (List.mem_cons_of_mem _ behind)
    rcases covers with renews | deletes
    · have newest_first := (List.pairwise_append.mp (rerun.newest_first key)).2.1
      exact (List.pairwise_cons.mp newest_first).1 stamped behind rfl renews.1
    · rcases (rerun.member_iff stamped).mp inside with ⟨logged, replayed⟩
      have le := kept stamped (attests.effective_of_replayed logged replayed) deletes
      have differ := (List.pairwise_append.mp rerun.differ).2.1
      have differs := (List.pairwise_cons.mp differ).1 stamped behind
      exact Nat.lt_of_le_of_ne le (Ne.symm differs)

variable (rerun : Rerun ledger history applied) (attests : Attests ledger history)

include rerun attests

/-- A put that stands among what takes effect gives its key its value. -/
theorem entries_of_stands (stands : Stands (effective history) ⟨lsn, .put key value⟩) :
    (Store.empty.applyAll applied).entries[key]? = some ⟨value, lsn⟩ := by
  apply rerun.entries_of_newest attests
  · exact (rerun.member_iff _).mpr
      ⟨mem_mutations_of_effective stands.1, attests.replayed_of_stands stands⟩
  · intro version value' inside
    rcases (rerun.member_iff _).mp inside with ⟨logged, replayed⟩
    apply Nat.le_of_not_lt
    intro lt
    exact stands.2 _ (attests.effective_of_replayed logged replayed) lt (.inl ⟨rfl, rfl⟩)
  · intro stamped member deletes
    apply Nat.le_of_not_lt
    intro lt
    exact stands.2 stamped member lt (.inr deletes)

/-- A key with a put that resurfaces has a value. -/
theorem exists_entry_of_resurfaces (resurfaces : Resurfaces history key) :
    ∃ entry, (Store.empty.applyAll applied).entries[key]? = some entry := by
  rcases resurfaces with ⟨value, put, torn, delete, resurfacing⟩
  have some_put : ∃ stamped ∈ effective history,
      ledger.Replayed app stamped.lsn ∧ ∃ value, stamped.operation = .put key value :=
    ⟨_, resurfacing.put_effective, attests.replayed_of_resurfacing resurfacing, value, rfl⟩
  rcases exists_last (ordered_effective attests.ordered) some_put with
    ⟨⟨lsn, operation⟩, member, ⟨replayed, value', operation_eq⟩, greatest⟩
  cases operation_eq
  refine ⟨⟨value', lsn⟩, rerun.entries_of_newest attests ?_ ?_ ?_⟩
  · exact (rerun.member_iff _).mpr ⟨mem_mutations_of_effective member, replayed⟩
  · intro version other inside
    rcases (rerun.member_iff _).mp inside with ⟨logged, replayed⟩
    exact greatest _ (attests.effective_of_replayed logged replayed) ⟨replayed, other, rfl⟩
  · intro stamped member deletes
    have put_le := greatest _ resurfacing.put_effective
      ⟨attests.replayed_of_resurfacing resurfacing, value, rfl⟩
    exact Nat.le_trans (Nat.le_of_lt (resurfacing.kept stamped member deletes)) put_le

/-- A key that no put of which resurfaces has the value that the mutations which take
effect have left. -/
theorem entries_eq (sunk : ¬ Resurfaces history key) :
    (Store.empty.applyAll applied).entries[key]? =
      (Store.empty.applyAll (effective history)).entries[key]? := by
  have shows := shows_effective attests.ordered
  apply Option.ext
  intro entry
  rw [shows.entries key entry.value entry.version]
  constructor
  · intro found
    have from_put := (Store.entries_of_applyAll found).resolve_left (by simp [Store.empty])
    rcases (rerun.member_iff _).mp from_put with ⟨inside, replayed⟩
    apply Classical.byContradiction
    intro covered
    rcases attests.resurfacing_of_replayed inside replayed covered with
      ⟨last, lt, ⟨value, stands⟩ | ⟨torn, resurfacing⟩⟩
    · have found' := rerun.entries_of_stands attests stands
      rw [found] at found'
      cases found'
      exact Nat.lt_irrefl _ lt
    · exact sunk ⟨_, _, _, _, resurfacing⟩
  · exact fun stands => rerun.entries_of_stands attests stands

end Rerun

/-- Of the keys of a history, those with a put that resurfaces have a value in the store
that they should not have, and no others. -/
structure Store.Salvages (store : Store) (history : List Logged) : Prop where
  entries : ∀ key, ¬ Resurfaces history key →
    store.entries[key]? = (Store.empty.applyAll (effective history)).entries[key]?
  resurfaced : ∀ key, Resurfaces history key →
    store.get? key ≠ none ∧ (Store.empty.applyAll (effective history)).get? key = none

theorem Rerun.salvages {ledger : Ledger Action} {history : List Logged} {applied : List Stamped}
    (rerun : Rerun ledger history applied) (attests : Attests ledger history) :
    (Store.empty.applyAll applied).Salvages history where
  entries _ sunk := rerun.entries_eq attests sunk
  resurfaced key resurfaces := by
    constructor
    · rcases rerun.exists_entry_of_resurfaces attests resurfaces with ⟨entry, found⟩
      rw [Store.get?, found]
      exact Option.some_ne_none _
    · exact get?_effective_of_resurfaces attests.ordered resurfaces

namespace Store

variable {store other : Store} {history : List Logged}

theorem mem_snapshot_iff {key : Key} {value : Bytes} :
    (key, value) ∈ store.snapshot ↔ store.get? key = some value := by
  rw [snapshot, List.mem_map, get?, Option.map_eq_some_iff]
  constructor
  · rintro ⟨⟨key, entry⟩, member, same⟩
    cases same
    exact ⟨entry, Std.TreeMap.mem_toList_iff_getElem?_eq_some.mp member, rfl⟩
  · rintro ⟨entry, found, rfl⟩
    exact ⟨(key, entry), Std.TreeMap.mem_toList_iff_getElem?_eq_some.mpr found, rfl⟩

theorem Salvages.of_entries (salvages : store.Salvages history)
    (same : other.entries = store.entries) : other.Salvages history where
  entries key sunk := by
    rw [same]
    exact salvages.entries key sunk
  resurfaced key resurfaces := by
    rw [get?, same]
    exact salvages.resurfaced key resurfaces

/-- A key has the right value unless a put of it resurfaces. -/
theorem Salvages.get?_eq_iff (salvages : store.Salvages history) (key : Key) :
    store.get? key = (Store.empty.applyAll (effective history)).get? key ↔
      ¬ Resurfaces history key := by
  constructor
  · intro same resurfaces
    rcases salvages.resurfaced key resurfaces with ⟨some_value, none⟩
    exact some_value (same.trans none)
  · intro sunk
    rw [get?, get?, salvages.entries key sunk]

/-- Keys and values are right unless a put resurfaces. -/
theorem Salvages.snapshot_eq_iff (salvages : store.Salvages history) :
    store.snapshot = (Store.empty.applyAll (effective history)).snapshot ↔
      ∀ key, ¬ Resurfaces history key := by
  constructor
  · intro same key
    rw [← salvages.get?_eq_iff]
    apply Option.ext
    intro value
    rw [← mem_snapshot_iff, ← mem_snapshot_iff, same]
  · intro sunk
    have tables : store.entries.toList =
        (Store.empty.applyAll (effective history)).entries.toList := by
      apply toList_eq_of_getElem?
      intro key entry
      rw [salvages.entries key (sunk key)]
    rw [snapshot, snapshot, tables]

end Store

end Logbook.KeyValue

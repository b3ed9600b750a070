import Logbook.KeyValue.Rounds

/-!
# What stands of a history

A later mutation of the same key or the same scope covers an earlier one, and the
deletion of a scope covers the mutations of its keys. What is not covered stands,
and the tables of a store show just that. They do so in whatever order the mutations
were applied, as long as none came after one that covers it.
-/

namespace Logbook.KeyValue

namespace Operation

/-- The key that the mutation writes. -/
def key? : Operation → Option Key
  | put key _ | delete key => some key
  | deleteScope _ => none

/-- The mutation takes the place of another one of the same key or scope. -/
def Renews (newer older : Operation) : Prop :=
  newer.key? = older.key? ∧ newer.deletedScope = older.deletedScope

/-- The mutation leaves nothing of an older one. -/
def Covers (newer older : Operation) : Prop :=
  newer.Renews older ∨ newer.deletedScope = some older.scope

variable {newer older : Operation} {key : Key}

theorem deletedScope_of_key (writes : newer.key? = some key) : newer.deletedScope = none := by
  cases newer with
  | put | delete => rfl
  | deleteScope => cases writes

theorem scope_of_key (writes : newer.key? = some key) : newer.scope = key.scope := by
  cases newer with
  | put | delete =>
      cases writes
      rfl
  | deleteScope => cases writes

theorem bucket_of_key (writes : newer.key? = some key) : newer.bucket = key.bucket := by
  cases newer with
  | put | delete =>
      cases writes
      rfl
  | deleteScope => cases writes

theorem eq_deleteScope_of_deletedScope {scope : UInt64}
    (deletes : newer.deletedScope = some scope) : newer = .deleteScope scope := by
  cases newer with
  | put | delete => cases deletes
  | deleteScope =>
      cases deletes
      rfl

theorem renews_of_key (writes : newer.key? = some key) (wrote : older.key? = some key) :
    newer.Renews older :=
  ⟨writes.trans wrote.symm, (deletedScope_of_key writes).trans (deletedScope_of_key wrote).symm⟩

theorem Renews.scope_eq (renews : newer.Renews older) : newer.scope = older.scope := by
  rcases renews with ⟨same_key, same_scope⟩
  cases older with
  | put key | delete key => exact scope_of_key same_key
  | deleteScope scope => rw [eq_deleteScope_of_deletedScope same_scope]

theorem covers_of_key_iff (writes : newer.key? = some key) :
    newer.Covers older ↔ older.key? = some key := by
  constructor
  · rintro (renews | deletes)
    · exact renews.1.symm.trans writes
    · rw [deletedScope_of_key writes] at deletes
      cases deletes
  · exact fun wrote => .inl (renews_of_key writes wrote)

theorem deleteScope_covers_iff {scope : UInt64} :
    (Operation.deleteScope scope).Covers older ↔ older.scope = scope := by
  constructor
  · rintro (⟨_, same⟩ | deletes)
    · rw [eq_deleteScope_of_deletedScope same.symm]
      rfl
    · exact (Option.some.inj deletes).symm
  · exact fun same => .inr (congrArg some same.symm)

end Operation

/-- No later mutation of the history covers this one. -/
def Stands (history : List Stamped) (stamped : Stamped) : Prop :=
  stamped ∈ history ∧ ∀ later ∈ history, stamped.lsn < later.lsn →
    ¬ later.operation.Covers stamped.operation

/-- The tables of a store show what stands of a history. -/
structure Store.Shows (store : Store) (history : List Stamped) : Prop where
  entries : ∀ key value version, store.entries[key]? = some ⟨value, version⟩ ↔
    Stands history ⟨version, .put key value⟩
  lastWrite : ∀ key lsn, store.lastWrite[key]? = some lsn ↔
    ∃ operation, operation.key? = some key ∧ Stands history ⟨lsn, operation⟩
  scopeDeletes : ∀ scope lsn, store.scopeDeletes[scope]? = some lsn ↔
    Stands history ⟨lsn, .deleteScope scope⟩

/-- A mutation of a new number that nothing before it covers. -/
def Timely (history : List Stamped) (next : Stamped) : Prop :=
  ∀ earlier ∈ history, earlier.lsn ≠ next.lsn ∧
    (next.lsn < earlier.lsn → ¬ earlier.operation.Covers next.operation)

variable {history : List Stamped} {next : Stamped}

theorem timely_of_lt (lt : ∀ earlier ∈ history, earlier.lsn < next.lsn) : Timely history next :=
  fun earlier member => ⟨Nat.ne_of_lt (lt earlier member),
    fun gt => absurd gt (Nat.lt_asymm (lt earlier member))⟩

theorem stands_concat (timely : Timely history next) {stamped : Stamped} :
    Stands (history ++ [next]) stamped ↔
      (Stands history stamped ∧
        (stamped.lsn < next.lsn → ¬ next.operation.Covers stamped.operation)) ∨
      stamped = next := by
  constructor
  · rintro ⟨member, uncovered⟩
    rcases List.mem_append.mp member with before | here
    · refine .inl ⟨⟨before, fun later inside => ?_⟩, ?_⟩
      · exact uncovered later (List.mem_append_left _ inside)
      · exact uncovered next (List.mem_append_right _ (List.mem_singleton_self next))
    · exact .inr (List.mem_singleton.mp here)
  · rintro (⟨⟨member, uncovered⟩, kept⟩ | rfl)
    · constructor
      · exact List.mem_append_left _ member
      · intro later inside
        rcases List.mem_append.mp inside with before | here
        · exact uncovered later before
        · rw [List.mem_singleton.mp here]
          exact kept
    · constructor
      · exact List.mem_append_right _ (List.mem_singleton_self _)
      · intro later inside lt
        rcases List.mem_append.mp inside with before | here
        · exact (timely later before).2 lt
        · rw [List.mem_singleton.mp here] at lt
          exact absurd lt (Nat.lt_irrefl _)

/-- What stands and is of the same key or scope came before. -/
theorem lt_of_stands (timely : Timely history next) {stamped : Stamped}
    (stands : Stands history stamped) (covers : stamped.operation.Covers next.operation) :
    stamped.lsn < next.lsn := by
  rcases timely stamped stands.1 with ⟨other, uncovered⟩
  rcases Nat.lt_or_ge next.lsn stamped.lsn with lt | le
  · exact absurd covers (uncovered lt)
  · exact Nat.lt_of_le_of_ne le other

/-- A write covers what stands of its key. -/
theorem stands_write (timely : Timely history next) {key : Key}
    (writes : next.operation.key? = some key) {stamped : Stamped} :
    Stands (history ++ [next]) stamped ↔
      (Stands history stamped ∧ stamped.operation.key? ≠ some key) ∨ stamped = next := by
  rw [stands_concat timely, Operation.covers_of_key_iff writes]
  apply or_congr_left
  apply and_congr_right
  intro stands
  constructor
  · intro kept wrote
    exact kept (lt_of_stands timely stands ((Operation.covers_of_key_iff wrote).mpr writes)) wrote
  · exact fun other _ => other

/-- The deletion of a scope covers what stands of the scope and came before. -/
theorem stands_deleteScope {lsn : Nat} {scope : UInt64}
    (timely : Timely history ⟨lsn, .deleteScope scope⟩) {stamped : Stamped} :
    Stands (history ++ [⟨lsn, .deleteScope scope⟩]) stamped ↔
      (Stands history stamped ∧ (stamped.operation.scope = scope → lsn < stamped.lsn)) ∨
        stamped = ⟨lsn, .deleteScope scope⟩ := by
  rw [stands_concat timely, Operation.deleteScope_covers_iff]
  apply or_congr_left
  apply and_congr_right
  intro stands
  have other := (timely stamped stands.1).1
  constructor
  · intro kept inside
    rcases Nat.lt_or_gt_of_ne other with lt | gt
    · exact absurd inside (kept lt)
    · exact gt
  · intro kept lt inside
    exact Nat.lt_asymm lt (kept inside)

namespace Store

/-- A number that is raised. -/
theorem getElem?_raise_eq {κ : Type} [Ord κ] [Std.TransOrd κ] [Std.LawfulEqOrd κ]
    [DecidableEq κ] (table : Std.TreeMap κ Nat) (key other : κ) (lsn : Nat) :
    (raise table key lsn)[other]? =
      if key = other then some (max (table[other]?.getD lsn) lsn) else table[other]? := by
  rw [raise, Std.TreeMap.getElem?_insert, Std.TreeMap.getD_eq_getD_getElem?]
  simp only [Std.LawfulEqOrd.compare_eq_iff_eq]
  split
  · rename_i same
    rw [same]
  · rfl

theorem getElem?_raise {κ : Type} [Ord κ] [Std.TransOrd κ] [Std.LawfulEqOrd κ] [DecidableEq κ]
    {table : Std.TreeMap κ Nat} {key : κ} {lsn : Nat}
    (below : ∀ last, table[key]? = some last → last < lsn) (other : κ) :
    (raise table key lsn)[other]? = if key = other then some lsn else table[other]? := by
  have highest : max (table[key]?.getD lsn) lsn = lsn := by
    cases found : table[key]? with
    | none => exact Nat.max_self lsn
    | some last => exact Nat.max_eq_right (Nat.le_of_lt (below last found))
  rw [getElem?_raise_eq]
  split
  · rename_i same
    rw [← same, highest]
  · rfl

theorem toList_eq_of_getElem? {κ β : Type} [Ord κ] [Std.TransOrd κ] [Std.LawfulEqOrd κ]
    {table other : Std.TreeMap κ β}
    (same : ∀ (key : κ) (value : β), table[key]? = some value ↔ other[key]? = some value) :
    table.toList = other.toList := by
  apply Std.TreeMap.equiv_iff_toList_eq.mp
  apply Std.TreeMap.Equiv.of_forall_constGet?_eq
  intro key
  apply Option.ext
  exact same key

namespace Shows

variable {store : Store}

theorem empty : Shows .empty [] := by
  constructor <;> simp [Store.empty, Stands]

/-- The value of a key was put before a write of the key. -/
theorem version_lt (shows : Shows store history) (timely : Timely history next) {key : Key}
    (writes : next.operation.key? = some key) {entry : Versioned}
    (found : store.entries[key]? = some entry) : entry.version < next.lsn := by
  have stands := (shows.entries key entry.value entry.version).mp found
  exact lt_of_stands timely stands ((Operation.covers_of_key_iff rfl).mpr writes)

/-- The last write of a key after one more. -/
theorem lastWrite_raise (shows : Shows store history) (timely : Timely history next) {key : Key}
    (writes : next.operation.key? = some key) (other : Key) (lsn : Nat) :
    (raise store.lastWrite key next.lsn)[other]? = some lsn ↔
      ∃ operation, operation.key? = some other ∧
        Stands (history ++ [next]) ⟨lsn, operation⟩ := by
  rw [getElem?_raise]
  · by_cases same : key = other
    · subst same
      rw [if_pos rfl, Option.some.injEq]
      constructor
      · rintro rfl
        exact ⟨next.operation, writes, (stands_write timely writes).mpr (.inr rfl)⟩
      · rintro ⟨operation, wrote, stands⟩
        rcases (stands_write timely writes).mp stands with ⟨_, differs⟩ | rfl
        · exact absurd wrote differs
        · rfl
    · rw [if_neg same, shows.lastWrite]
      apply exists_congr
      intro operation
      apply and_congr_right
      intro wrote
      rw [stands_write timely writes]
      constructor
      · intro stands
        refine .inl ⟨stands, fun writes_key => same ?_⟩
        exact Option.some.inj (writes_key.symm.trans wrote)
      · rintro (⟨stands, _⟩ | rfl)
        · exact stands
        · exact absurd (Option.some.inj (writes.symm.trans wrote)) same
  · intro last found
    rcases (shows.lastWrite key last).mp found with ⟨operation, wrote, stands⟩
    exact lt_of_stands timely stands ((Operation.covers_of_key_iff wrote).mpr writes)

/-- A write leaves the deletions of scopes alone. -/
theorem scopeDeletes_write (shows : Shows store history) (timely : Timely history next)
    {key : Key} (writes : next.operation.key? = some key) (scope : UInt64) (lsn : Nat) :
    store.scopeDeletes[scope]? = some lsn ↔
      Stands (history ++ [next]) ⟨lsn, .deleteScope scope⟩ := by
  rw [shows.scopeDeletes, stands_write timely writes]
  constructor
  · exact fun stands => .inl ⟨stands, nofun⟩
  · rintro (⟨stands, _⟩ | rfl)
    · exact stands
    · cases writes

theorem put (shows : Shows store history) {lsn : Nat} {key : Key} {value : Bytes}
    (timely : Timely history ⟨lsn, .put key value⟩) :
    Shows (store.apply (.put key value) lsn) (history ++ [⟨lsn, .put key value⟩]) where
  entries other wanted version := by
    have kept : ((store.entries[key]?).any (lsn < ·.version)) = false := by
      cases found : store.entries[key]? with
      | none => rfl
      | some entry =>
          have lt := shows.version_lt timely rfl found
          rw [Option.any_some, decide_eq_false_iff_not]
          exact Nat.lt_asymm lt
    simp only [Store.apply, kept, Bool.false_eq_true, ↓reduceIte]
    rw [Std.TreeMap.getElem?_insert, stands_write timely rfl]
    simp only [Std.LawfulEqOrd.compare_eq_iff_eq]
    by_cases same : key = other
    · subst same
      simp [Operation.key?, and_comm, eq_comm]
    · rw [if_neg same, shows.entries]
      have differs : (Operation.put other wanted).key? ≠ some key :=
        fun writes => same (Option.some.inj writes).symm
      simp [differs, Ne.symm same]
  lastWrite := shows.lastWrite_raise timely rfl
  scopeDeletes := shows.scopeDeletes_write timely rfl

theorem delete (shows : Shows store history) {lsn : Nat} {key : Key}
    (timely : Timely history ⟨lsn, .delete key⟩) :
    Shows (store.apply (.delete key) lsn) (history ++ [⟨lsn, .delete key⟩]) where
  entries other wanted version := by
    have erased : (store.apply (.delete key) lsn).entries[other]? =
        if key = other then none else store.entries[other]? := by
      simp only [Store.apply]
      split
      · rw [Std.TreeMap.getElem?_erase]
        simp only [Std.LawfulEqOrd.compare_eq_iff_eq]
      · rename_i none_older
        split
        · rename_i same
          subst same
          cases found : store.entries[key]? with
          | none => rfl
          | some entry =>
              have lt : entry.version < lsn := shows.version_lt timely rfl found
              rw [found, Option.any_some, decide_eq_true lt] at none_older
              exact absurd rfl none_older
        · rfl
    rw [erased, stands_write timely rfl]
    by_cases same : key = other
    · subst same
      simp [Operation.key?]
    · rw [if_neg same, shows.entries]
      have differs : (Operation.put other wanted).key? ≠ some key :=
        fun writes => same (Option.some.inj writes).symm
      simp [differs]
  lastWrite := shows.lastWrite_raise timely rfl
  scopeDeletes := shows.scopeDeletes_write timely rfl

theorem deleteScope (shows : Shows store history) {lsn : Nat} {scope : UInt64}
    (timely : Timely history ⟨lsn, .deleteScope scope⟩) :
    Shows (store.apply (.deleteScope scope) lsn)
      (history ++ [⟨lsn, .deleteScope scope⟩]) where
  entries key value version := by
    simp only [Store.apply]
    rw [Std.TreeMap.getElem?_filter', Option.filter_eq_some_iff, shows.entries,
      stands_deleteScope timely]
    simp [Operation.scope, Decidable.imp_iff_not_or]
  lastWrite key last := by
    simp only [Store.apply]
    rw [Std.TreeMap.getElem?_filter', Option.filter_eq_some_iff, shows.lastWrite]
    simp only [stands_deleteScope timely, decide_eq_true_eq]
    constructor
    · rintro ⟨⟨operation, wrote, stands⟩, kept⟩
      refine ⟨operation, wrote, .inl ⟨stands, ?_⟩⟩
      intro inside
      rw [Operation.scope_of_key wrote] at inside
      exact kept.resolve_left (not_not_intro inside)
    · rintro ⟨operation, wrote, ⟨stands, kept⟩ | same⟩
      · constructor
        · exact ⟨operation, wrote, stands⟩
        · rw [Operation.scope_of_key wrote] at kept
          exact Decidable.not_or_of_imp kept
      · cases same
        cases wrote
  scopeDeletes other last := by
    simp only [Store.apply]
    rw [getElem?_raise, stands_deleteScope timely]
    · by_cases same : scope = other
      · subst same
        rw [if_pos rfl, Option.some.injEq]
        constructor
        · rintro rfl
          exact .inr rfl
        · rintro (⟨stands, later⟩ | same)
          · have lt := lt_of_stands timely stands (Operation.deleteScope_covers_iff.mpr rfl)
            exact absurd lt (Nat.lt_asymm (later rfl))
          · cases same
            rfl
      · rw [if_neg same, shows.scopeDeletes]
        constructor
        · exact fun stands => .inl ⟨stands, fun inside => absurd inside.symm same⟩
        · rintro (⟨stands, _⟩ | equal)
          · exact stands
          · cases equal
            exact absurd rfl same
    · intro before found
      have stands := (shows.scopeDeletes scope before).mp found
      exact lt_of_stands timely stands (Operation.deleteScope_covers_iff.mpr rfl)

/-- Applying a mutation that comes in time. -/
theorem apply (shows : Shows store history) (timely : Timely history next) :
    Shows (store.apply next.operation next.lsn) (history ++ [next]) := by
  rcases next with ⟨lsn, operation⟩
  cases operation with
  | put key value => exact shows.put timely
  | delete key => exact shows.delete timely
  | deleteScope scope => exact shows.deleteScope timely

/-- What a mutation supersedes is what stands and is renewed by it. -/
theorem mem_supersededBy_iff (shows : Shows store history) {operation : Operation} {lsn : Nat} :
    lsn ∈ store.supersededBy operation ↔
      ∃ older, operation.Renews older ∧ Stands history ⟨lsn, older⟩ := by
  cases operation with
  | put key value | delete key =>
      rw [supersededBy, Option.mem_toList, shows.lastWrite]
      apply exists_congr
      intro older
      apply and_congr_left
      intro _
      constructor
      · exact fun wrote => Operation.renews_of_key rfl wrote
      · exact fun renews => renews.1.symm
  | deleteScope scope =>
      rw [supersededBy, Option.mem_toList, shows.scopeDeletes]
      constructor
      · exact fun stands => ⟨_, ⟨rfl, rfl⟩, stands⟩
      · rintro ⟨older, ⟨_, deletes⟩, stands⟩
        rw [Operation.eq_deleteScope_of_deletedScope deletes.symm] at stands
        exact stands

/-- Two stores that show the same have the same tables. -/
theorem agrees {other : Store} (shows : Shows store history) (likewise : Shows other history) :
    store.Agrees other := by
  constructor
  · apply toList_eq_of_getElem?
    intro key entry
    exact (shows.entries key entry.value entry.version).trans (likewise.entries key _ _).symm
  · apply toList_eq_of_getElem?
    intro key lsn
    exact (shows.lastWrite key lsn).trans (likewise.lastWrite key lsn).symm
  · apply toList_eq_of_getElem?
    intro scope lsn
    exact (shows.scopeDeletes scope lsn).trans (likewise.scopeDeletes scope lsn).symm

theorem supersededBy_eq {other : Store} (shows : Shows store history)
    (likewise : Shows other history) (operation : Operation) :
    store.supersededBy operation = other.supersededBy operation := by
  cases operation with
  | put key value | delete key =>
      rw [supersededBy, supersededBy]
      congr 1
      apply Option.ext
      intro lsn
      exact (shows.lastWrite key lsn).trans (likewise.lastWrite key lsn).symm
  | deleteScope scope =>
      rw [supersededBy, supersededBy]
      congr 1
      apply Option.ext
      intro lsn
      exact (shows.scopeDeletes scope lsn).trans (likewise.scopeDeletes scope lsn).symm

end Shows

end Store

end Logbook.KeyValue

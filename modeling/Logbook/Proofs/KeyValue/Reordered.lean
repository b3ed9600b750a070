import Logbook.Proofs.KeyValue.Replayed
import Logbook.Proofs.Recovery.Workers

/-!
# The order of replay

What a key shows depends on the mutations of the key and on the deletions of its scope.
Recovery replays no mutation of a scope that is older than a deletion of the scope which
it replays, so replaying the deletion removes nothing, whenever it comes. The mutations
of a key are of one bucket. So survivors may be replayed in any order that keeps the
order inside each bucket, also where their lists of superseded numbers are made up.
-/

namespace Logbook.KeyValue

open Recovery

/-- What the tables of a store hold on one key. -/
structure Cell where
  entry : Option Versioned
  last : Option Nat
deriving DecidableEq, Repr

/-- What the tables hold on a key. -/
def Store.cell (store : Store) (key : Key) : Cell := ⟨store.entries[key]?, store.lastWrite[key]?⟩

/-- The store after some replays. -/
def Store.replayAll (store : Store) (jobs : List (Job Action)) : Store :=
  jobs.foldl (fun store job => store.replay job.action.operation job.lsn) store

variable {jobs order : List (Job Action)} {store : Store} {key : Key} {scope : UInt64} {lsn : Nat}

namespace Cell

variable {cell : Cell} {operation : Operation}

/-- What a mutation makes of a key. -/
def apply (cell : Cell) (key : Key) (operation : Operation) (lsn : Nat) : Cell :=
  let written : Cell := { cell with last := some (max (cell.last.getD lsn) lsn) }
  match operation with
  | .put other value =>
      if other = key then
        { written with
          entry := if cell.entry.any (lsn < ·.version) then cell.entry else some ⟨value, lsn⟩ }
      else cell
  | .delete other =>
      if other = key then
        { written with
          entry := if cell.entry.any (·.version < lsn) then none else cell.entry }
      else cell
  | .deleteScope scope =>
      if key.scope = scope then
        ⟨cell.entry.filter (lsn < ·.version), cell.last.filter (lsn < ·)⟩
      else cell

/-- Everything that the tables hold on a key is newer than `lsn`. -/
structure Newer (lsn : Nat) (cell : Cell) : Prop where
  entry : ∀ entry ∈ cell.entry, lsn < entry.version
  last : ∀ last ∈ cell.last, lsn < last

theorem newer_nothing (lsn : Nat) : Newer lsn ⟨none, none⟩ :=
  ⟨nofun, nofun⟩

/-- A mutation of another key, that does not delete the scope. -/
theorem apply_of_other (other : operation.key? ≠ some key)
    (keeps : operation.deletedScope ≠ some key.scope) (cell : Cell) (lsn : Nat) :
    cell.apply key operation lsn = cell := by
  cases operation with
  | put written value => exact if_neg fun same => other (congrArg some same)
  | delete written => exact if_neg fun same => other (congrArg some same)
  | deleteScope scope => exact if_neg fun same => keeps (congrArg some same.symm)

namespace Newer

/-- The deletion of a scope leaves newer keys alone. -/
theorem apply_deleteScope (newer : Newer lsn cell) (scope : UInt64) :
    cell.apply key (.deleteScope scope) lsn = cell := by
  unfold apply
  dsimp only
  split
  · rcases cell with ⟨entry, last⟩
    have entries : entry.filter (lsn < ·.version) = entry := by
      cases entry with
      | none => rfl
      | some entry => exact if_pos (decide_eq_true (newer.entry entry rfl))
    have lasts : last.filter (lsn < ·) = last := by
      cases last with
      | none => rfl
      | some last => exact if_pos (decide_eq_true (newer.last last rfl))
    rw [entries, lasts]
  · rfl

/-- A newer write of the key keeps it newer. -/
theorem apply_write (newer : Newer lsn cell) {next : Nat} (lt : lsn < next)
    (writes : operation.key? = some key) : Newer lsn (cell.apply key operation next) := by
  have raised : ∀ last ∈ some (max (cell.last.getD next) next), lsn < last := by
    rintro last ⟨⟩
    exact Nat.lt_of_lt_of_le lt (Nat.le_max_right _ _)
  cases operation with
  | put written value =>
      cases writes
      unfold apply
      dsimp only
      rw [if_pos rfl]
      refine ⟨?_, raised⟩
      dsimp only
      split
      · exact newer.entry
      · rintro entry ⟨⟩
        exact lt
  | delete written =>
      cases writes
      unfold apply
      dsimp only
      rw [if_pos rfl]
      refine ⟨?_, raised⟩
      dsimp only
      split
      · exact nofun
      · exact newer.entry
  | deleteScope scope => cases writes

end Newer

end Cell

namespace Store

/-- A mutation acts on each key by itself. -/
theorem cell_apply (store : Store) (operation : Operation) (lsn : Nat) (key : Key) :
    (store.apply operation lsn).cell key = (store.cell key).apply key operation lsn := by
  cases operation with
  | put written value =>
      simp only [cell, apply, Cell.apply, getElem?_raise_eq]
      by_cases same : written = key
      · subst same
        rw [if_pos rfl, if_pos rfl]
        congr 1
        split
        · rename_i newer
          exact (if_pos newer).symm
        · rename_i older
          rw [Std.TreeMap.getElem?_insert_self]
          exact (if_neg older).symm
      · rw [if_neg same, if_neg same]
        congr 1
        split
        · rfl
        · rw [Std.TreeMap.getElem?_insert, if_neg]
          simpa only [Std.LawfulEqOrd.compare_eq_iff_eq] using same
  | delete written =>
      simp only [cell, apply, Cell.apply, getElem?_raise_eq]
      by_cases same : written = key
      · subst same
        rw [if_pos rfl, if_pos rfl]
        congr 1
        split
        · rename_i older
          rw [Std.TreeMap.getElem?_erase_self]
          exact (if_pos older).symm
        · rename_i newer
          exact (if_neg newer).symm
      · rw [if_neg same, if_neg same]
        congr 1
        split
        · rw [Std.TreeMap.getElem?_erase, if_neg]
          simpa only [Std.LawfulEqOrd.compare_eq_iff_eq] using same
        · rfl
  | deleteScope scope =>
      simp only [cell, apply, Cell.apply, Std.TreeMap.getElem?_filter']
      by_cases same : key.scope = scope
      · simp [same]
      · simp only [ne_eq, same, not_false_eq_true, true_or, decide_true, if_false]
        cases store.entries[key]? <;> cases store.lastWrite[key]? <;> rfl

/-- A mutation acts on the deletion of a scope if it deletes the scope. -/
theorem scopeDeletes_apply (store : Store) (operation : Operation) (lsn : Nat) (scope : UInt64) :
    (store.apply operation lsn).scopeDeletes[scope]? =
      if operation.deletedScope = some scope then
        some (max (store.scopeDeletes[scope]?.getD lsn) lsn)
      else store.scopeDeletes[scope]? := by
  cases operation with
  | put | delete => rfl
  | deleteScope deleted =>
      simp only [apply, getElem?_raise_eq, Operation.deletedScope, Option.some.injEq]

theorem replayAll_cons (store : Store) (job : Job Action) (jobs : List (Job Action)) :
    store.replayAll (job :: jobs) =
      (store.replay job.action.operation job.lsn).replayAll jobs :=
  rfl

theorem replayed_replayAll (store : Store) (jobs : List (Job Action)) :
    (store.replayAll jobs).replayed = store.replayed ++ jobs.map Job.lsn := by
  induction jobs generalizing store with
  | nil => exact (List.append_nil _).symm
  | cons job jobs ih =>
      have applied : (store.apply job.action.operation job.lsn).replayed = store.replayed := by
        cases job.action.operation <;> rfl
      rw [replayAll_cons, ih, replay, applied, List.append_assoc, List.map_cons]
      rfl

/-- What the tables hold on the deletion of a scope depends on the deletions of the
scope. -/
theorem scopeDeletes_replayAll (store : Store) (jobs : List (Job Action)) (scope : UInt64) :
    (store.replayAll jobs).scopeDeletes[scope]? =
      (jobs.filter fun job => job.action.operation.deletedScope = some scope).foldl
        (fun last job => some (max (last.getD job.lsn) job.lsn)) store.scopeDeletes[scope]? := by
  induction jobs generalizing store with
  | nil => rfl
  | cons job jobs ih =>
      have applied := scopeDeletes_apply store job.action.operation job.lsn scope
      rw [replayAll_cons, ih, List.filter_cons]
      by_cases deletes : job.action.operation.deletedScope = some scope
      · rw [if_pos deletes] at applied
        rw [if_pos (decide_eq_true deletes), List.foldl_cons, ← applied]
        rfl
      · rw [if_neg deletes] at applied
        rw [if_neg (by simpa using deletes), ← applied]
        rfl

/-- What the tables hold on a key depends on the writes of the key, as long as deletions
of its scope are older. -/
theorem cell_replayAll (store : Store) (jobs : List (Job Action)) (key : Key)
    (newer : ∀ job ∈ jobs, job.action.operation.deletedScope = some key.scope →
      (store.cell key).Newer job.lsn)
    (spared : ∀ deletion ∈ jobs, deletion.action.operation.deletedScope = some key.scope →
      ∀ job ∈ jobs, job.action.operation.key? = some key → deletion.lsn < job.lsn) :
    (store.replayAll jobs).cell key =
      (jobs.filter fun job => job.action.operation.key? = some key).foldl
        (fun cell job => cell.apply key job.action.operation job.lsn) (store.cell key) := by
  induction jobs generalizing store with
  | nil => rfl
  | cons job jobs ih =>
      have applied : (store.replay job.action.operation job.lsn).cell key =
          (store.cell key).apply key job.action.operation job.lsn :=
        store.cell_apply job.action.operation job.lsn key
      have rest_spared : ∀ deletion ∈ jobs,
          deletion.action.operation.deletedScope = some key.scope →
          ∀ job ∈ jobs, job.action.operation.key? = some key → deletion.lsn < job.lsn :=
        fun deletion member deletes other inside => spared deletion
          (List.mem_cons_of_mem _ member) deletes other (List.mem_cons_of_mem _ inside)
      rw [replayAll_cons, List.filter_cons]
      by_cases writes : job.action.operation.key? = some key
      · rw [if_pos (decide_eq_true writes), List.foldl_cons, ← applied]
        refine ih _ (fun deletion member deletes => ?_) rest_spared
        rw [applied]
        have before := newer deletion (List.mem_cons_of_mem _ member) deletes
        exact before.apply_write
          (spared deletion (List.mem_cons_of_mem _ member) deletes job List.mem_cons_self writes)
          writes
      · have same : (store.cell key).apply key job.action.operation job.lsn = store.cell key := by
          by_cases deletes : job.action.operation.deletedScope = some key.scope
          · rw [Operation.eq_deleteScope_of_deletedScope deletes]
            exact (newer job List.mem_cons_self deletes).apply_deleteScope _
          · exact Cell.apply_of_other writes deletes _ _
        rw [if_neg (by simpa using writes), ← same, ← applied]
        refine ih _ (fun deletion member deletes => ?_) rest_spared
        rw [applied, same]
        exact newer deletion (List.mem_cons_of_mem _ member) deletes

/-- The writes of a key are of one bucket, and so are the deletions of a scope. -/
theorem agrees_of_reorders (reorders : Reorders app jobs order)
    (spared : ∀ deletion ∈ jobs, ∀ scope, deletion.action.operation.deletedScope = some scope →
      ∀ job ∈ jobs, ∀ key : Key, key.scope = scope → job.action.operation.key? = some key →
        deletion.lsn < job.lsn) :
    (empty.replayAll order).Agrees (empty.replayAll jobs) := by
  have cells (key : Key) :
      (empty.replayAll order).cell key = (empty.replayAll jobs).cell key := by
    have nothing : empty.cell key = ⟨none, none⟩ := by
      simp [cell, empty]
    have same := reorders.filter_eq (fun job => job.action.operation.key? = some key)
      fun job writes => Operation.bucket_of_key (of_decide_eq_true writes)
    rw [cell_replayAll, cell_replayAll, same]
    · intro job _ _
      rw [nothing]
      exact Cell.newer_nothing _
    · exact fun deletion member deletes job inside writes =>
        spared deletion member _ deletes job inside key rfl writes
    · intro job _ _
      rw [nothing]
      exact Cell.newer_nothing _
    · exact fun deletion member deletes job inside writes =>
        spared deletion (reorders.perm.subset member) _ deletes job
          (reorders.perm.subset inside) key rfl writes
  constructor
  · apply toList_eq_of_getElem?
    intro key entry
    rw [show (empty.replayAll order).entries[key]? = _ from congrArg Cell.entry (cells key)]
    exact Iff.rfl
  · apply toList_eq_of_getElem?
    intro key last
    rw [show (empty.replayAll order).lastWrite[key]? = _ from congrArg Cell.last (cells key)]
    exact Iff.rfl
  · apply toList_eq_of_getElem?
    intro scope last
    have same := reorders.filter_eq
      (fun job => job.action.operation.deletedScope = some scope) fun job deletes =>
        congrArg Operation.bucket
          (Operation.eq_deleteScope_of_deletedScope (of_decide_eq_true deletes))
    rw [scopeDeletes_replayAll, scopeDeletes_replayAll, same]

end Store

/-- Survivors may be replayed in any order that is the same inside each bucket. -/
theorem agrees_of_survivors {entries : List (Nat × Entry Action)}
    (descending : (entries.map Prod.fst).Pairwise (· > ·))
    (reorders : Reorders app (survivors app entries) order) :
    (Store.empty.replayAll order).Agrees (Store.empty.replayAll (survivors app entries)) := by
  apply Store.agrees_of_reorders reorders
  rintro deletion survives scope deletes job likewise key rfl writes
  apply lt_of_survivors descending survives likewise deletes
  · exact congrArg some (Operation.scope_of_key writes)
  · rintro rfl
    rw [Operation.deletedScope_of_key writes] at deletes
    cases deletes

namespace Store

/-- Only the tables and what was replayed matter. -/
theorem replayAll_disposed (store : Store) (disposed : Nat) (jobs : List (Job Action)) :
    replayAll { store with disposed := disposed } jobs =
      { store.replayAll jobs with disposed := disposed } := by
  induction jobs generalizing store with
  | nil => rfl
  | cons job jobs ih =>
      have same : replay { store with disposed := disposed } job.action.operation job.lsn =
          { store.replay job.action.operation job.lsn with disposed := disposed } := by
        unfold replay apply
        cases job.action.operation <;> rfl
      rw [replayAll_cons, same, ih, replayAll_cons]

/-- Consuming actions replays those that are to be replayed, and counts the others. -/
theorem carryOutAll_eq (store : Store) (uses : List (Use Action)) :
    ∃ disposed, Use.carryOutAll app uses store =
      .ok { store.replayAll (replayedJobs uses) with disposed := disposed } := by
  induction uses generalizing store with
  | nil => exact ⟨store.disposed, rfl⟩
  | cons use uses ih =>
      cases use with
      | replayed job => exact ih (store.replay job.action.operation job.lsn)
      | disposed job =>
          rcases ih store.dispose with ⟨disposed, carried⟩
          refine ⟨disposed, ?_⟩
          rw [dispose, replayAll_disposed] at carried
          exact carried

/-- The tables of two stores that agree with a third. -/
theorem Agrees.trans {first middle last : Store} (agrees : first.Agrees middle)
    (likewise : middle.Agrees last) : first.Agrees last :=
  ⟨agrees.entries.trans likewise.entries, agrees.lastWrite.trans likewise.lastWrite,
    agrees.scopeDeletes.trans likewise.scopeDeletes⟩

theorem Agrees.symm {first last : Store} (agrees : first.Agrees last) : last.Agrees first :=
  ⟨agrees.entries.symm, agrees.lastWrite.symm, agrees.scopeDeletes.symm⟩

end Store

/-- A recovery that succeeds leaves the tables that replaying the survivors on the scanning
thread leaves. -/
theorem recoverWith_agrees {schedule : Schedule} {config : Config} {options : RecoveryOptions}
    {regions : List (Except StorageError Chunk)} {report : RecoveryReport}
    (ok : (recoverWith app schedule config options regions .empty).outcome = .ok report) :
    let entries := decoded app schedule config options regions .empty
    let recovered := (recoverWith app schedule config options regions .empty).state
    recovered.Agrees (Store.empty.replayAll (survivors app entries)) ∧
      recovered.replayed.Perm (Store.empty.replayAll (survivors app entries)).replayed := by
  intro entries recovered
  rcases recoverWith_reorders replays.neverPanics ok with ⟨reorders, carried⟩
  rcases Store.empty.carryOutAll_eq (recoverWith app schedule config options regions
    .empty).uses.reverse with ⟨disposed, effect⟩
  have recovered_eq : recovered = _ := Except.ok.inj (carried.symm.trans effect)
  have descending := (recoverWith_consumed replays.neverPanics schedule config options regions
    .empty).1
  have agrees := agrees_of_survivors descending reorders
  rw [recovered_eq]
  refine ⟨⟨agrees.entries, agrees.lastWrite, agrees.scopeDeletes⟩, ?_⟩
  dsimp only
  rw [Store.replayed_replayAll, Store.replayed_replayAll]
  exact (reorders.perm.map Job.lsn).append_left _

/-- What is replayed first need not matter. For entries with lists of superseded numbers
of any kind, the survivors may be replayed in any order that is the same inside each
bucket; and a recovery with any number of workers under any schedule leaves the tables
that one on the scanning thread leaves. -/
theorem reordered_replay_agrees :
    (∀ (entries : List (Nat × Entry Action)) (order : List (Job Action)),
      (entries.map Prod.fst).Pairwise (· > ·) →
        Reorders app (survivors app entries) order →
          (Store.empty.replayAll order).Agrees (Store.empty.replayAll (survivors app entries)) ∧
            (Store.empty.replayAll order).replayed.Perm
              (Store.empty.replayAll (survivors app entries)).replayed) ∧
      ∀ (schedule : Schedule) (config : Config) (options : RecoveryOptions)
        (regions : List (Except StorageError Chunk)),
        let result := recoverWith app schedule config options regions .empty
        let inline := recoverWith app .late { config with replayWorkers := 0 } options regions .empty
        result.outcome = inline.outcome ∧
          ∀ report, result.outcome = .ok report →
            result.state.Agrees inline.state ∧
              result.state.replayed.Perm inline.state.replayed := by
  constructor
  · intro entries order descending reorders
    refine ⟨agrees_of_survivors descending reorders, ?_⟩
    rw [Store.replayed_replayAll, Store.replayed_replayAll]
    exact (reorders.perm.map Job.lsn).append_left _
  · intro schedule config options regions result inline
    rcases recoverWith_workers replays .late schedule { config with replayWorkers := 0 } config rfl
      options regions .empty with ⟨same_outcome, same_entries⟩
    refine ⟨same_outcome, fun report ok => ?_⟩
    have agrees := recoverWith_agrees ok
    have inline_agrees := recoverWith_agrees (same_outcome.symm.trans ok)
    rw [same_entries] at agrees
    exact ⟨agrees.1.trans inline_agrees.1.symm, agrees.2.trans inline_agrees.2.symm⟩

/-- A log in which a scope is deleted between two puts, and none supersedes another. -/
def loosePuts : List (Nat × Entry Action) :=
  [(102, .plain ⟨.put ⟨7, "a"⟩ [2], []⟩), (101, .plain ⟨.deleteScope 7, []⟩),
    (100, .plain ⟨.put ⟨7, "b"⟩ [1], []⟩)]

theorem reordered_replay_agrees_loosePuts :
    survivors app loosePuts =
        [⟨⟨.put ⟨7, "a"⟩ [2], []⟩, 102⟩, ⟨⟨.deleteScope 7, []⟩, 101⟩] ∧
      (Store.empty.replayAll
          [⟨⟨.deleteScope 7, []⟩, 101⟩, ⟨⟨.put ⟨7, "a"⟩ [2], []⟩, 102⟩]).Agrees
        (Store.empty.replayAll (survivors app loosePuts)) := by
  have survivors_eq : survivors app loosePuts =
      [⟨⟨.put ⟨7, "a"⟩ [2], []⟩, 102⟩, ⟨⟨.deleteScope 7, []⟩, 101⟩] := by
    decide +kernel
  have descending : (loosePuts.map Prod.fst).Pairwise (· > ·) := by decide
  have reorders : Reorders app (survivors app loosePuts)
      [⟨⟨.deleteScope 7, []⟩, 101⟩, ⟨⟨.put ⟨7, "a"⟩ [2], []⟩, 102⟩] := by
    rw [survivors_eq]
    exact reorders_swap (by decide +kernel) [] []
  exact ⟨survivors_eq, (reordered_replay_agrees.1 loosePuts _ descending reorders).1⟩

end Logbook.KeyValue

import Logbook.Proofs.Recovery.Gapless

/-!
# Sifting the entries of a log

Whoever consumes the actions of a log, their fates are settled by the entries alone.
Sifting goes down from the newest entry and marks each action to be replayed or to be
disposed of; what is marked to be replayed are the survivors. A recovery sifts the
entries that it decodes, which are those of the records that it looks at.
-/

namespace Logbook.Recovery

variable {α σ : Type}

/-- What is to become of an action with some fate. -/
def Fate.use (fate : Fate) (job : Job α) : Use α :=
  match fate with
  | .survives => .replayed job
  | .superseded | .commits | .voided | .deleted => .disposed job

@[simp]
theorem Fate.job_use (fate : Fate) (job : Job α) : (fate.use job).job = job := by
  cases fate <;> rfl

/-- What is to become of the actions of some entries, the newest first, when `tables`
holds what was said before. -/
def Tables.sift (app : Application α σ) (tables : Tables) : List (Nat × Entry α) → List (Use α)
  | [] => []
  | (lsn, entry) :: older =>
      let (fate, tables) := tables.judge app lsn entry
      (entry.action?.map fun action => fate.use ⟨action, lsn⟩).toList ++ tables.sift app older

/-- The actions of some entries. -/
def actions (entries : List (Nat × Entry α)) : List (Job α) :=
  entries.filterMap fun seen => seen.2.action?.map fun action => ⟨action, seen.1⟩

/-- The actions of a log that survive, the newest first. -/
def survivors (app : Application α σ) (entries : List (Nat × Entry α)) : List (Job α) :=
  replayedJobs (Tables.empty.sift app entries)

/-- The entries of the records of a scan that can be decoded, with their numbers. -/
def entriesOf (app : Application α σ) (scanned : List (Except LogError Scanned)) :
    List (Nat × Entry α) :=
  scanned.filterMap fun item => do
    let record := (← item.toOption).record
    return (record.lsn, ← (Entry.decode app record.payload).toOption)

/-- The entries that a recovery decodes, the newest first: it decodes the records that
it looks at, and counts them. -/
def decoded (app : Application α σ) (schedule : Schedule) (config : Config)
    (options : RecoveryOptions) (regions : List (Except StorageError Chunk)) (state : σ) :
    List (Nat × Entry α) :=
  match scan config.formatPolicy regions with
  | .ok newest :: older =>
      let start : Pass α σ :=
        .start config state newest.record.lsn (options.boundary newest.record)
      let (_, pass) := start.run app schedule none (.ok newest :: older)
      entriesOf app ((.ok newest :: older).take pass.report.scanned)
  | _ => []

section Sift

variable {app : Application α σ} {entries : List (Nat × Entry α)}

theorem Tables.sift_cons (app : Application α σ) (tables : Tables) (lsn : Nat) (entry : Entry α)
    (older : List (Nat × Entry α)) :
    tables.sift app ((lsn, entry) :: older) =
      (entry.action?.map fun action =>
        (tables.judge app lsn entry).1.use ⟨action, lsn⟩).toList ++
          (tables.judge app lsn entry).2.sift app older :=
  rfl

/-- Each action is marked once. -/
theorem Tables.map_job_sift (app : Application α σ) (tables : Tables)
    (entries : List (Nat × Entry α)) :
    (tables.sift app entries).map Use.job = actions entries := by
  induction entries generalizing tables with
  | nil => rfl
  | cons head older ih =>
      rcases head with ⟨lsn, entry⟩
      rw [sift_cons, List.map_append, ih, actions, actions, List.filterMap_cons]
      cases entry.action? with
      | none => rfl
      | some action => simp

/-- The numbers of actions are numbers of entries. -/
theorem sublist_actions (entries : List (Nat × Entry α)) :
    ((actions entries).map Job.lsn).Sublist (entries.map Prod.fst) := by
  induction entries with
  | nil => exact List.Sublist.refl _
  | cons head older ih =>
      rw [actions, List.filterMap_cons, List.map_cons]
      cases head.2.action? with
      | none => exact ih.cons _
      | some action => exact ih.cons_cons _

theorem Fate.replayedJobs_use (fate : Fate) (job : Job α) :
    replayedJobs [fate.use job] = if fate = .survives then [job] else [] := by
  cases fate <;> rfl

variable {tables : Tables} {lsn : Nat} {entry : Entry α} {scope : UInt64}

/-- An action that survives is of no deleted scope, and what it says is noted. -/
theorem Tables.judge_survives (survives : (tables.judge app lsn entry).1 = .survives) :
    ∃ action, entry.action? = some action ∧
      (∀ scope ∈ app.scope action, scope ∉ tables.deletedScopes) ∧
      (tables.judge app lsn entry).2 = tables.noteAction app action := by
  have spared {action : α} (survives : (tables.judgeAction app action).1 = .survives) :
      (∀ scope ∈ app.scope action, scope ∉ tables.deletedScopes) ∧
        (tables.judgeAction app action).2 = tables.noteAction app action := by
    unfold judgeAction at survives ⊢
    split at survives
    · cases survives
    · rename_i kept
      rw [if_neg kept]
      exact ⟨fun scope inside deleted => kept ⟨scope, inside, deleted⟩, rfl⟩
  unfold judge at survives ⊢
  split at survives
  · cases survives
  · rename_i live
    rw [if_neg live]
    cases entry with
    | commit txn => cases survives
    | plain action => exact ⟨action, rfl, spared survives⟩
    | member txn action =>
        dsimp only at survives ⊢
        split at survives
        · rename_i committed
          rw [if_pos committed]
          exact ⟨action, rfl, spared survives⟩
        · cases survives

/-- A scope stays deleted. -/
theorem Tables.deletedScopes_judge (deleted : scope ∈ tables.deletedScopes) (lsn : Nat)
    (entry : Entry α) : scope ∈ (tables.judge app lsn entry).2.deletedScopes := by
  have kept (action : α) : scope ∈ (tables.judgeAction app action).2.deletedScopes := by
    unfold judgeAction
    split
    · exact deleted
    · exact List.mem_append_right _ deleted
  unfold judge
  split
  · exact deleted
  · cases entry with
    | commit txn => exact deleted
    | plain action => exact kept action
    | member txn action =>
        dsimp only
        split
        · exact kept action
        · exact deleted

/-- The newest entry survives, or it does not. -/
theorem replayedJobs_sift_cons (app : Application α σ) (tables : Tables) (lsn : Nat)
    (entry : Entry α) (older : List (Nat × Entry α)) :
    replayedJobs (tables.sift app ((lsn, entry) :: older)) =
        replayedJobs ((tables.judge app lsn entry).2.sift app older) ∨
      ∃ action, entry.action? = some action ∧
        (∀ scope ∈ app.scope action, scope ∉ tables.deletedScopes) ∧
        replayedJobs (tables.sift app ((lsn, entry) :: older)) =
          ⟨action, lsn⟩ :: replayedJobs ((tables.noteAction app action).sift app older) := by
  rw [Tables.sift_cons, replayedJobs_append]
  by_cases survives : (tables.judge app lsn entry).1 = .survives
  · rcases Tables.judge_survives survives with ⟨action, has_action, spared, noted⟩
    refine .inr ⟨action, has_action, spared, ?_⟩
    rw [has_action, noted, survives]
    rfl
  · left
    cases entry.action? with
    | none => rfl
    | some action =>
        rw [Option.map_some, Option.toList_some, Fate.replayedJobs_use, if_neg survives,
          List.nil_append]

/-- No action of a scope survives that was deleted. -/
theorem not_of_deleted_scope (deleted : scope ∈ tables.deletedScopes) {job : Job α}
    (survives : job ∈ replayedJobs (tables.sift app entries)) :
    app.scope job.action ≠ some scope := by
  induction entries generalizing tables with
  | nil => cases survives
  | cons head older ih =>
      rcases head with ⟨lsn, entry⟩
      rcases replayedJobs_sift_cons app tables lsn entry older with
        same | ⟨action, _, spared, added⟩
      · rw [same] at survives
        exact ih (Tables.deletedScopes_judge deleted lsn entry) survives
      · rw [added] at survives
        rcases List.mem_cons.mp survives with rfl | survives
        · exact fun inside => spared scope inside deleted
        · exact ih (List.mem_append_right _ deleted) survives

/-- A survivor that deletes a scope is older than the other survivors of the scope. -/
theorem survivors_pairwise (app : Application α σ)
    (descending : (entries.map Prod.fst).Pairwise (· > ·)) :
    (survivors app entries).Pairwise fun newer older => older.lsn < newer.lsn ∧
      ∀ scope, app.deletedScope newer.action = some scope →
        app.scope older.action ≠ some scope := by
  unfold survivors
  generalize Tables.empty = tables
  induction entries generalizing tables with
  | nil => exact .nil
  | cons head older ih =>
      rcases head with ⟨lsn, entry⟩
      rw [List.map_cons, List.pairwise_cons] at descending
      rcases replayedJobs_sift_cons app tables lsn entry older with same | ⟨action, _, _, added⟩
      · rw [same]
        exact ih descending.2 _
      · rw [added]
        refine List.pairwise_cons.mpr ⟨fun job survives => ⟨?_, ?_⟩, ih descending.2 _⟩
        · have listed : job ∈ actions older := by
            rw [← Tables.map_job_sift app _ older]
            exact (sublist_replayedJobs _).subset survives
          apply descending.1
          exact (sublist_actions older).subset (List.mem_map_of_mem listed)
        · intro scope deletes
          refine not_of_deleted_scope ?_ survives
          exact List.mem_append_left _ (Option.mem_toList.mpr deletes)

/-- Of two survivors of one scope, of which one deletes it, that one is the older. -/
theorem lt_of_survivors (descending : (entries.map Prod.fst).Pairwise (· > ·))
    {deletion other : Job α} (survives : deletion ∈ survivors app entries)
    (likewise : other ∈ survivors app entries)
    (deletes : app.deletedScope deletion.action = some scope)
    (inside : app.scope other.action = some scope) (differ : deletion ≠ other) :
    deletion.lsn < other.lsn := by
  have pairwise := survivors_pairwise app descending
  generalize survivors app entries = jobs at survives likewise pairwise
  induction jobs with
  | nil => cases survives
  | cons head jobs ih =>
      rw [List.pairwise_cons] at pairwise
      rcases List.mem_cons.mp survives with rfl | older_deletion
      · rcases List.mem_cons.mp likewise with rfl | older_other
        · exact absurd rfl differ
        · exact absurd inside ((pairwise.1 other older_other).2 scope deletes)
      · rcases List.mem_cons.mp likewise with rfl | older_other
        · exact (pairwise.1 deletion older_deletion).1
        · exact ih older_deletion older_other pairwise.2

end Sift

end Logbook.Recovery

import Logbook.Proofs.Engine.Lineage
import Logbook.Proofs.KeyValue.Recounted

/-!
# A store with transactions, shut down and opened again

Through all turns of a transcript on a new log the engine has logged the records of its
history, the store shows every mutation that was logged, and the open transactions have
numbers of their own that no commit names. A shutdown that ends well leaves all records
on the device. So the store that is recovered from it has the values that the mutations
which take effect give it, but for the puts that resurface.
-/

namespace Logbook.KeyValue

/-! ### Open transactions -/

/-- Open transactions have numbers of their own, below the next one, and none of them is
committed. -/
structure Orderly (transactions : List (String × Transaction)) (next : Nat)
    (history : List Logged) : Prop where
  named : ∀ logged ∈ history, ∀ txn ∈ logged.entry.txn?, txn < next
  begun : ∀ entry ∈ transactions, entry.2.id < next
  unended : ∀ entry ∈ transactions, Unended history entry.2.id
  apart : ∀ entry ∈ transactions, ∀ other ∈ transactions, entry.2.id = other.2.id →
    entry.1 = other.1

namespace Orderly

variable {transactions kept : List (String × Transaction)} {next : Nat}
  {history : List Logged} {name : String} {txn : Transaction}

theorem of_subset (orderly : Orderly transactions next history) (subset : kept ⊆ transactions) :
    Orderly kept next history where
  named := orderly.named
  begun entry member := orderly.begun entry (subset member)
  unended entry member := orderly.unended entry (subset member)
  apart entry member other other_member :=
    orderly.apart entry (subset member) other (subset other_member)

/-- The transaction of a name is put in the place of one that had its number, or gets a
number that no one has. -/
theorem keep (orderly : Orderly transactions next history) (begun : txn.id < next)
    (unended : Unended history txn.id)
    (apart : ∀ other ∈ transactions, other.2.id = txn.id → other.1 = name) :
    Orderly ((name, txn) :: transactions.filter (·.1 ≠ name)) next history := by
  have others : transactions.filter (·.1 ≠ name) ⊆ transactions := List.filter_sublist.subset
  have rest := orderly.of_subset others
  constructor
  · exact orderly.named
  · exact List.forall_mem_cons.mpr ⟨begun, rest.begun⟩
  · exact List.forall_mem_cons.mpr ⟨unended, rest.unended⟩
  · intro entry member other other_member same
    rcases List.mem_cons.mp member with rfl | inside
    · rcases List.mem_cons.mp other_member with rfl | other_inside
      · rfl
      · exact (apart other (others other_inside) same.symm).symm
    · rcases List.mem_cons.mp other_member with rfl | other_inside
      · exact apart entry (others inside) same
      · exact rest.apart entry inside other other_inside same

/-- A transaction that is opened gets the next number. -/
theorem begin (orderly : Orderly transactions next history) (name : String) :
    Orderly ((name, ⟨next, []⟩) :: transactions.filter (·.1 ≠ name)) (next + 1) history := by
  have wider : Orderly transactions (next + 1) history :=
    { orderly with
      named := fun logged member txn names =>
        Nat.lt_succ_of_lt (orderly.named logged member txn names)
      begun := fun entry member => Nat.lt_succ_of_lt (orderly.begun entry member) }
  apply wider.keep (Nat.lt_succ_self next)
  · intro logged member commits
    have names : next ∈ logged.entry.txn? := congrArg Entry.txn? commits
    exact absurd (orderly.named logged member next names) (Nat.lt_irrefl next)
  · intro other member same
    exact absurd same (Nat.ne_of_lt (orderly.begun other member))

/-- What is logged names a transaction that was begun, and commits none that is open. -/
theorem log (orderly : Orderly transactions next history) {entry : Entry Operation}
    (named : ∀ txn ∈ entry.txn?, txn < next)
    (commits : ∀ other ∈ transactions, entry ≠ .commit other.2.id) (lsn? : Option Nat) :
    Orderly transactions next (history ++ (lsn?.map (Logged.mk · entry)).toList) := by
  cases lsn? with
  | none =>
      rw [Option.map_none, Option.toList_none, List.append_nil]
      exact orderly
  | some lsn =>
      constructor
      · rw [Option.map_some, Option.toList_some, List.forall_mem_append,
          List.forall_mem_singleton]
        exact ⟨orderly.named, named⟩
      · exact orderly.begun
      · intro other member
        rw [Unended, Option.map_some, Option.toList_some, List.forall_mem_append,
          List.forall_mem_singleton]
        exact ⟨orderly.unended other member, commits other member⟩
      · exact orderly.apart

end Orderly

/-- An entry that is on its own or refers to an open transaction, and the transactions
that are open after it. -/
inductive Enters (transactions : List (String × Transaction)) :
    Entry Operation → List (String × Transaction) → Prop where
  | plain (operation : Operation) : Enters transactions (.plain operation) transactions
  | member {name : String} {txn txn' : Transaction} (found : (name, txn) ∈ transactions)
      (same : txn'.id = txn.id) (operation : Operation) :
      Enters transactions (.member txn.id operation)
        ((name, txn') :: transactions.filter (·.1 ≠ name))
  | commit {name : String} {txn : Transaction} (found : (name, txn) ∈ transactions) :
      Enters transactions (.commit txn.id) (transactions.filter (·.1 ≠ name))

namespace Enters

variable {transactions after : List (String × Transaction)} {next : Nat}
  {history : List Logged} {entry : Entry Operation}

/-- The transaction of the entry was begun, and is not committed yet. -/
theorem opened (enters : Enters transactions entry after)
    (orderly : Orderly transactions next history) :
    ∀ txn ∈ entry.txn?, txn < next ∧ Unended history txn := by
  cases enters with
  | plain => nofun
  | member found same | commit found =>
      rintro _ ⟨⟩
      exact ⟨orderly.begun _ found, orderly.unended _ found⟩

/-- Transactions stay orderly. -/
theorem orderly (enters : Enters transactions entry after)
    (orderly : Orderly transactions next history) (lsn? : Option Nat) :
    Orderly after next (history ++ (lsn?.map (Logged.mk · entry)).toList) := by
  have named : ∀ txn ∈ entry.txn?, txn < next :=
    fun txn names => (enters.opened orderly txn names).1
  cases enters with
  | plain operation => exact orderly.log named nofun lsn?
  | @member name txn txn' found same operation =>
      refine Orderly.log ?_ named nofun lsn?
      apply orderly.keep
      · rw [same]
        exact orderly.begun _ found
      · rw [same]
        exact orderly.unended _ found
      · intro other member same'
        exact orderly.apart other member _ found (same'.trans same)
  | commit found =>
      refine (orderly.of_subset List.filter_sublist.subset).log named ?_ lsn?
      rintro other member commits
      rcases List.mem_filter.mp member with ⟨inside, differs⟩
      have same := Entry.commit.inj commits
      exact of_decide_eq_true differs (orderly.apart other inside _ found same.symm)

end Enters

/-! ### The engine -/

variable {δ : Type} [Device δ] [Device.Reliable δ] {config : Config} {history : List Logged}
  {engine : Engine Store δ}

omit [Device δ] [Device.Reliable δ] in
/-- A store takes every mutation that is logged. -/
theorem recorded_build (engine : Engine Store δ) (entry : Entry Operation) :
    engine.recorded app (entry.map engine.state.build) = (.ok engine.sequencer.next,
      engine.state.applyAll (Logged.mk engine.sequencer.next entry).stamped?.toList) := by
  cases entry <;> rfl

theorem Store.Shows.disposed {store : Store} {history : List Stamped}
    (shows : store.Shows history) (entry : Entry Action) :
    (entry.dispose app store).Shows history := by
  cases entry with
  | plain | member => exact ⟨shows.entries, shows.lastWrite, shows.scopeDeletes⟩
  | commit => exact shows

omit [Device δ] [Device.Reliable δ] in
/-- Logging leaves these alone. -/
theorem frame_of_log {entry : Entry Action} {sync : Bool} {outcome : Outcome Nat}
    {after : Engine Store δ} (logged : engine.log app entry sync = (outcome, after)) :
    after.writer = engine.writer ∧ after.nextTxn = engine.nextTxn ∧
      after.isOpen = engine.isOpen := by
  rcases Engine.log_frame app engine entry sync with ⟨_, _, _, framed⟩
  rw [logged] at framed
  cases framed
  exact ⟨rfl, rfl, rfl⟩

/-- What an engine upholds that has logged a history on a new log. -/
structure Keeps (config : Config) (history : List Logged) (engine : Engine Store δ) : Prop where
  logs : ∃ written records, Engine.Logs config Lsn.first [] written records engine ∧
    Recounts history records
  shows : engine.state.Shows (mutations history)
  lowestLive : engine.lowestLive = Lsn.first

namespace Keeps

theorem lsn_lt (keeps : Keeps config history engine) {stamped : Stamped}
    (member : stamped ∈ mutations history) : stamped.lsn < engine.sequencer.next := by
  rcases keeps.logs with ⟨written, records, logs, recounts⟩
  rcases mem_mutations_iff.mp member with ⟨logged, inside, has⟩
  rcases recounts.of_logged inside with ⟨_, _, _, _, _, record, held, same, _⟩
  rw [← (stamped?_eq_some_iff.mp has).1, ← same, logs.sequenced.next]
  exact logs.sequenced.lsn_lt held

/-- The next record fits its fields and is read back. -/
theorem readable (keeps : Keeps config history engine) {entry : Entry Operation}
    {payload : Bytes} (encoded : (entry.map engine.state.build).encode app = .ok payload)
    (txn_lt : ∀ txn, entry.txn? = some txn → txn < Sequencer.wordSize)
    (bounded : engine.sequencer.next < 256 ^ 8) :
    (engine.nextRecord payload).Fits ∧
      Entry.decode app payload = .ok (entry.map engine.state.build) := by
  have lsn_lt : ∀ stamped ∈ mutations history, stamped.lsn < 256 ^ 8 :=
    fun stamped member => Nat.lt_trans (keeps.lsn_lt member) bounded
  rcases keeps.shows.decode_of_encode lsn_lt encoded txn_lt with ⟨decoded, length_lt⟩
  refine ⟨⟨bounded, ?_, length_lt⟩, decoded⟩
  change engine.lowestLive < 256 ^ 8
  rw [keeps.lowestLive]
  decide

/-- An entry that is turned away is let go of. -/
theorem refused (keeps : Keeps config history engine) {entry : Entry Action} {sync : Bool}
    {error : LogError} {after : Engine Store δ}
    (refused : engine.log app entry sync = (.failed error, after))
    (state : after.state = entry.dispose app engine.state)
    (lowestLive : after.lowestLive = engine.lowestLive)
    (room : Lsn.first + history.length < Sequencer.wordSize) : Keeps config history after := by
  rcases keeps.logs with ⟨written, records, logs, recounts⟩
  rw [recounts.length_eq] at room
  have nothing : engine.logged app entry sync = none := by
    rw [Engine.logged, refused]
  rcases logs.log (by rw [nothing]; exact fun record gained => by cases gained)
    (by rw [nothing]; exact room) with ⟨added, moved⟩
  rw [nothing, Option.toList_none, List.append_nil, refused] at moved
  exact ⟨⟨_, _, moved, recounts⟩, state ▸ keeps.shows.disposed entry,
    lowestLive.trans keeps.lowestLive⟩

/-- Logging an entry that is built from the store adds it to the history, unless it is
turned away. -/
theorem log (keeps : Keeps config history engine) {entry : Entry Operation} {sync : Bool}
    {outcome : Outcome Nat} {after : Engine Store δ}
    (logged : engine.log app (entry.map engine.state.build) sync = (outcome, after))
    (unended : ∀ txn ∈ entry.txn?, Unended history txn)
    (txn_lt : ∀ txn, entry.txn? = some txn → txn < Sequencer.wordSize)
    (room : Lsn.first + history.length + 1 < Sequencer.wordSize) :
    Keeps config (history ++ ((Reply.record outcome).lsn?.map (Logged.mk · entry)).toList)
      after := by
  rcases keeps.logs with ⟨written, records, logs, recounts⟩
  rcases logs.sequenced.log_cases app (entry.map engine.state.build) sync with
    ⟨error, refused⟩ | ⟨payload, encoded, added⟩
  · cases logged.symm.trans refused
    have same : ((Reply.record (.failed error)).lsn?.map (Logged.mk · entry)).toList = [] := rfl
    rw [same, List.append_nil]
    exact keeps.refused refused rfl rfl (Nat.lt_of_succ_lt room)
  · have gained := Engine.logged_of_log encoded added
    rw [recounts.length_eq] at room
    have bounded : engine.sequencer.next < 256 ^ 8 := by
      rw [logs.sequenced.next]
      exact Nat.lt_of_succ_lt room
    rcases keeps.readable encoded txn_lt bounded with ⟨fits, decoded⟩
    rcases logs.log (by rw [gained]; rintro record ⟨⟩; exact fits)
      (by rw [gained]; exact room) with ⟨more, moved⟩
    rw [gained, Option.toList_some, logged] at moved
    rw [recorded_build] at added
    cases logged.symm.trans added
    have same : (Reply.record (.ok engine.sequencer.next)).lsn?.map (Logged.mk · entry) =
      some ⟨engine.sequencer.next, entry⟩ := rfl
    rw [same, Option.toList_some]
    have recounted : Recounts (history ++ [⟨engine.sequencer.next, entry⟩])
        (records ++ [engine.nextRecord payload]) :=
      recounts.concat keeps.shows unended rfl keeps.lowestLive decoded
    have ordered := ordered_mutations (recounted.ordered moved.sequenced.consecutive)
    refine ⟨⟨_, _, moved, recounted⟩, ?_, keeps.lowestLive⟩
    rw [mutations_concat] at ordered ⊢
    exact keeps.shows.applyAll (inOrder_of_ordered ordered)

/-- A move that logs nothing. -/
theorem move (keeps : Keeps config history engine) {move : Move Action δ}
    (faultless : engine.Faultless move) (nothing : engine.gained app move = none)
    (room : Lsn.first + history.length < Sequencer.wordSize)
    (state : (engine.move app move).state = engine.state)
    (lowestLive : (engine.move app move).lowestLive = engine.lowestLive) :
    Keeps config history (engine.move app move) := by
  rcases keeps.logs with ⟨written, records, logs, recounts⟩
  rw [recounts.length_eq] at room
  rcases logs.move_of_gained_eq_none faultless nothing room with ⟨added, moved⟩
  exact ⟨⟨_, _, moved, recounts⟩, state ▸ keeps.shows, lowestLive.trans keeps.lowestLive⟩

/-- A move of the writer or of the barrier. -/
theorem quiet (keeps : Keeps config history engine) {move : Move Action δ} (quiet : move.Quiet)
    (faultless : engine.Faultless move) (room : Lsn.first + history.length < Sequencer.wordSize) :
    Keeps config history (engine.move app move) := by
  rcases Engine.quiet_frame app engine quiet with ⟨chain, watermark, writer, device, moved⟩
  apply keeps.move faultless (Engine.gained_of_quiet quiet) room
  · rw [moved]
  · rw [moved]

end Keeps

/-! ### Turns -/

namespace Transcript

omit [Device.Reliable δ]

/-- What may come of a turn. -/
inductive Steps (transcript : Transcript δ) : Transcript δ → Prop where
  | logged {entry : Entry Operation} {sync : Bool} {outcome : Outcome Nat}
      {after : Engine Store δ} {transactions : List (String × Transaction)}
      (enters : Enters transcript.session.transactions entry transactions)
      (logged : transcript.engine.log app (entry.map transcript.store.build) sync =
        (outcome, after)) :
      Steps transcript ⟨⟨after, transactions⟩, transcript.history ++
        ((Reply.record outcome).lsn?.map (Logged.mk · entry)).toList⟩
  | begun (name : String) :
      Steps transcript ⟨⟨transcript.engine.move app (.beginTransaction : Move Action δ),
        (name, ⟨transcript.engine.nextTxn, []⟩) ::
          transcript.session.transactions.filter (·.1 ≠ name)⟩, transcript.history⟩
  | dropped {kept : List (String × Transaction)}
      (subset : kept ⊆ transcript.session.transactions) :
      Steps transcript ⟨⟨transcript.engine, kept⟩, transcript.history⟩
  | quiet {move : Move Action δ} (quiet : move.Quiet) :
      Steps transcript ⟨⟨transcript.engine.move app move, transcript.session.transactions⟩,
        transcript.history⟩

omit [Device δ] in
theorem mem_of_transaction? {transcript : Transcript δ} {name : String} {txn : Transaction}
    (found : transcript.session.transaction? name = some txn) :
    (name, txn) ∈ transcript.session.transactions := by
  rcases List.lookup_eq_some_iff.mp found with ⟨before, behind, split, _⟩
  rw [split]
  exact List.mem_append_right _ List.mem_cons_self

theorem steps (transcript : Transcript δ) (turn : Turn) :
    Steps transcript (transcript.step turn) := by
  cases turn with
  | plain operation sync => exact .logged (.plain operation) rfl
  | begin name => exact .begun name
  | member name operation =>
      rw [step]
      cases found : transcript.session.transaction? name with
      | none => exact .dropped (List.Subset.refl _)
      | some txn =>
          have member := mem_of_transaction? found
          simp only [request, Session.request, found, Engine.appendMember]
          cases logged : transcript.session.engine.log app
            (.member txn.id (transcript.store.build operation)) false with
          | mk outcome after =>
              cases outcome with
              | ok | failed | panicked =>
                  refine .logged (.member member ?_ operation) logged
                  rfl
  | commit name sync =>
      rw [step]
      cases found : transcript.session.transaction? name with
      | none => exact .dropped (List.Subset.refl _)
      | some txn =>
          have member := mem_of_transaction? found
          simp only [request, Session.request, found]
          exact .logged (.commit member) rfl
  | drop name => exact .dropped List.filter_sublist.subset
  | closeBarrier => exact .quiet (show Move.closeBarrier.Quiet from trivial)
  | collect => exact .quiet (show Move.collect.Quiet from trivial)
  | write => exact .quiet (show Move.write.Quiet from trivial)
  | finish => exact .quiet (show Move.finish.Quiet from trivial)

namespace Steps

variable {transcript after : Transcript δ}

/-- A writer that has failed stays so. -/
theorem failed (steps : Steps transcript after) {failure : DurabilityFailure}
    (failed : transcript.engine.writer.verdict = some (.error failure)) :
    after.engine.writer.verdict = some (.error failure) := by
  cases steps with
  | logged enters logged => exact (congrArg Writer.verdict (frame_of_log logged).1).trans failed
  | begun | dropped => exact failed
  | @quiet move => exact Engine.failed_move failed move

/-- A turn logs at most one entry. -/
theorem length_le (steps : Steps transcript after) :
    after.history.length ≤ transcript.history.length + 1 := by
  cases steps with
  | logged =>
      rw [List.length_append]
      exact Nat.add_le_add_left Option.length_toList_le _
  | begun | quiet | dropped => exact Nat.le_succ _

/-- A turn begins at most one transaction. -/
theorem nextTxn_le (steps : Steps transcript after) :
    after.engine.nextTxn ≤ transcript.engine.nextTxn + 1 := by
  cases steps with
  | logged enters logged => exact Nat.le_succ_of_le (Nat.le_of_eq (frame_of_log logged).2.1)
  | begun => exact Nat.le_refl _
  | dropped => exact Nat.le_succ _
  | quiet quiet =>
      rcases Engine.quiet_frame app transcript.engine quiet with ⟨_, _, _, _, moved⟩
      have same := congrArg Engine.nextTxn moved
      exact Nat.le_succ_of_le (Nat.le_of_eq same)

theorem isOpen_eq (steps : Steps transcript after) :
    after.engine.isOpen = transcript.engine.isOpen := by
  cases steps with
  | logged enters logged => exact (frame_of_log logged).2.2
  | begun | dropped => rfl
  | quiet quiet =>
      rcases Engine.quiet_frame app transcript.engine quiet with ⟨_, _, _, _, moved⟩
      have same := congrArg Engine.isOpen moved
      exact same

end Steps

/-- The log stays open through all turns. -/
theorem isOpen_run (transcript : Transcript δ) (turns : List Turn) :
    (transcript.run turns).engine.isOpen = transcript.engine.isOpen := by
  induction turns generalizing transcript with
  | nil => rfl
  | cons turn turns ih => exact (ih _).trans (transcript.steps turn).isOpen_eq

/-- A writer that has failed stays so in all turns. -/
theorem failed_run {transcript : Transcript δ} {failure : DurabilityFailure}
    (failed : transcript.engine.writer.verdict = some (.error failure)) (turns : List Turn) :
    (transcript.run turns).engine.writer.verdict = some (.error failure) := by
  induction turns generalizing transcript with
  | nil => exact failed
  | cons turn turns ih => exact ih ((transcript.steps turn).failed failed)

end Transcript

/-- What a transcript upholds on a new log. -/
structure Faithful (config : Config) (transcript : Transcript δ) : Prop where
  keeps : Keeps config transcript.history transcript.engine
  orderly : Orderly transcript.session.transactions transcript.engine.nextTxn transcript.history

namespace Faithful

variable {transcript after : Transcript δ}

/-- A turn after which the writer has not failed. -/
theorem steps (faithful : Faithful config transcript) (steps : transcript.Steps after)
    (unfailed : ∀ failure, after.engine.writer.verdict ≠ some (.error failure))
    (room : Lsn.first + transcript.history.length + 1 < Sequencer.wordSize)
    (txns : transcript.engine.nextTxn ≤ Sequencer.wordSize) : Faithful config after := by
  rcases faithful with ⟨keeps, orderly⟩
  cases steps with
  | @logged entry sync outcome engine transactions enters logged =>
      have opened := enters.opened orderly
      constructor
      · apply keeps.log logged _ _ room
        · exact fun txn names => (opened txn names).2
        · exact fun txn names => Nat.lt_of_lt_of_le (opened txn names).1 txns
      · change Orderly transactions engine.nextTxn _
        rw [(frame_of_log logged).2.1]
        exact enters.orderly orderly _
  | begun name =>
      have faultless : transcript.engine.Faultless (.beginTransaction : Move Action δ) := trivial
      exact ⟨keeps.move faultless rfl (Nat.lt_of_succ_lt room) rfl rfl, orderly.begin name⟩
  | dropped subset => exact ⟨keeps, orderly.of_subset subset⟩
  | @quiet move quiet =>
      have faultless := Engine.faultless_of_unfailed app quiet.inside unfailed
      rcases Engine.quiet_frame app transcript.engine quiet with ⟨_, _, _, _, moved⟩
      refine ⟨keeps.quiet quiet faultless (Nat.lt_of_succ_lt room), ?_⟩
      change Orderly _ (transcript.engine.move app move).nextTxn _
      rw [moved]
      exact orderly

/-- Turns after which the writer has not failed. -/
theorem run (faithful : Faithful config transcript) {turns : List Turn}
    (unfailed : ∀ failure,
      (transcript.run turns).engine.writer.verdict ≠ some (.error failure))
    (room : Lsn.first + transcript.history.length + turns.length < Sequencer.wordSize)
    (txns : transcript.engine.nextTxn + turns.length ≤ Sequencer.wordSize) :
    Faithful config (transcript.run turns) ∧
      (transcript.run turns).history.length ≤ transcript.history.length + turns.length := by
  induction turns generalizing transcript with
  | nil => exact ⟨faithful, Nat.le_refl _⟩
  | cons turn turns ih =>
      rw [List.length_cons] at room txns
      have stepped := transcript.steps turn
      have length_le := stepped.length_le
      have nextTxn_le := stepped.nextTxn_le
      have next := faithful.steps stepped
        (fun failure failed => unfailed failure (Transcript.failed_run failed turns))
        (by omega) (by omega)
      rcases ih next unfailed (by omega) (by omega) with ⟨ran, total⟩
      refine ⟨ran, Nat.le_trans total ?_⟩
      rw [List.length_cons]
      omega

/-- A log that was opened on a new device upholds a history without entries. -/
theorem start {schedule : Recovery.Schedule} {first : δ} {report : RecoveryReport}
    {engine : Engine Store δ} (intact : Device.Reliable.Intact first)
    (fresh : Device.Reads first [])
    (opened : Engine.openUnder schedule app config {} first .empty = .ok (report, engine)) :
    Faithful config (.start engine) ∧ engine.nextTxn = 1 := by
  have logs := Engine.logs_of_open intact fresh opened
  rcases Engine.recovered_of_open opened with ⟨recovered, rfl⟩
  rw [fresh] at recovered logs ⊢
  cases recovered
  exact ⟨⟨⟨⟨[], [], logs, .nil⟩, Store.Shows.empty, rfl⟩, nofun, nofun, nofun, nofun⟩, rfl⟩

/-- A log that was shut down well is opened again, with the values of the mutations that
take effect, but for puts that resurface. -/
theorem reopened (faithful : Faithful config transcript)
    (running : transcript.engine.isOpen = true)
    (room : Lsn.first + transcript.history.length < Sequencer.wordSize)
    (clean : transcript.engine.shutdown.1 = some (.ok ())) {after : δ}
    (reopens : Engine.Reopens transcript.engine.shutdown.2.device after) {config' : Config}
    (valid : config'.validate = .ok ()) (policy : config'.formatPolicy ≠ .legacy)
    (schedule : Recovery.Schedule) :
    ∃ report reopened,
      Engine.openUnder schedule app config' {} after .empty = .ok (report, reopened) ∧
      reopened.state.Salvages transcript.history := by
  rcases faithful.keeps.logs with ⟨written, records, logs, recounts⟩
  rw [recounts.length_eq] at room
  rcases logs.shutdown app running clean room (FormatPolicy.admits_current policy) with
    ⟨pieces, rfl, cut, current, reads⟩
  have reads := reopens.2 _ reads
  rw [List.nil_append] at reads
  rcases recounts.recovers cut current schedule with ⟨report, final, uses, recovered, salvages⟩
  rw [← reads] at recovered
  have opened := Engine.open_of_recovered valid (congrArg (·.outcome) recovered)
  rw [recovered] at opened
  exact ⟨report, _, opened, salvages⟩

end Faithful

namespace Transcript

/-- Whatever is logged on a new device, alone or in any number of transactions at a time,
and wherever the writer takes its steps in between: if the log shuts down well, then it is
opened again, by a reader of the current format and under any schedule, and a key has the
value that the mutations which take effect give it, applied in the order of their numbers
to an empty store, exactly if no put of the key resurfaces. So the two stores have the same
keys and values exactly if no put of any key does. -/
theorem effective_of_reopened {schedule : Recovery.Schedule} {first after : δ}
    {report : RecoveryReport} {turns : List Turn} {config' : Config}
    (intact : Device.Reliable.Intact first) (fresh : Device.Reads first [])
    (opened : Engine.openUnder schedule app config {} first .empty = .ok (report, engine))
    (room : Lsn.first + turns.length < Sequencer.wordSize)
    (clean : ((start engine).run turns).engine.shutdown.1 = some (.ok ()))
    (reopens : Engine.Reopens ((start engine).run turns).engine.shutdown.2.device after)
    (valid : config'.validate = .ok ()) (policy : config'.formatPolicy ≠ .legacy)
    (schedule' : Recovery.Schedule) :
    ∃ report' reopened,
      Engine.openUnder schedule' app config' {} after .empty = .ok (report', reopened) ∧
      (∀ key, reopened.state.get? key =
          (Store.empty.applyAll (effective ((start engine).run turns).history)).get? key ↔
        ¬ Resurfaces ((start engine).run turns).history key) ∧
      (reopened.state.snapshot =
          (Store.empty.applyAll (effective ((start engine).run turns).history)).snapshot ↔
        ∀ key, ¬ Resurfaces ((start engine).run turns).history key) := by
  rcases Faithful.start intact fresh opened with ⟨faithful, nextTxn⟩
  have running : ((start engine).run turns).engine.isOpen = true := by
    rw [isOpen_run, (Engine.recovered_of_open opened).2]
    rfl
  have txns : (start engine).engine.nextTxn + turns.length ≤ Sequencer.wordSize := by
    change engine.nextTxn + _ ≤ _
    rw [nextTxn]
    unfold Lsn.first at room
    omega
  rcases faithful.run (Engine.unfailed_of_shutdown app running clean) room txns with
    ⟨faithful, length_le⟩
  have enough : Lsn.first + ((start engine).run turns).history.length < Sequencer.wordSize := by
    apply Nat.lt_of_le_of_lt (Nat.add_le_add_left length_le _)
    rw [← Nat.add_assoc]
    exact room
  rcases faithful.reopened running enough clean reopens valid policy schedule' with
    ⟨report', reopened, opened', salvages⟩
  exact ⟨report', reopened, opened', salvages.get?_eq_iff, salvages.snapshot_eq_iff⟩

/-! ### Two transcripts -/

/-- An engine for a store on a new memory device. -/
def forStore : Engine Store MemoryDevice :=
  .resume .standard (.initial none Lsn.first) (.onDisk .empty) .empty

theorem open_forStore : Engine.openUnder .late app .standard {} (MemoryDevice.onDisk .empty)
    .empty = .ok (.initial none Lsn.first, forStore) :=
  rfl

/-- The device that is left when the log is shut down after some turns. -/
def deviceAfter (turns : List Turn) : MemoryDevice :=
  ((start forStore).run turns).engine.shutdown.2.device

/-- Whether the log is shut down well after some turns. -/
def endsWell (turns : List Turn) : Bool :=
  ((start forStore).run turns).engine.shutdown.1 matches some (.ok ())

theorem clean_of_endsWell {turns : List Turn} (ends : endsWell turns = true) :
    ((start forStore).run turns).engine.shutdown.1 = some (.ok ()) :=
  Engine.clean_of_endsWell ends

/-- A transaction that is committed and one that is given up, with members in turn. -/
def mixed : List Turn :=
  [.plain (.put ⟨1, "a"⟩ [7]) true, .begin "t", .begin "u", .member "t" (.put ⟨1, "b"⟩ [8]),
    .member "u" (.deleteScope 1), .collect, .plain (.put ⟨1, "a"⟩ [9]) false, .commit "t" false,
    .drop "u", .write]

theorem history_mixed : ((start forStore).run mixed).history =
    [⟨100, .plain (.put ⟨1, "a"⟩ [7])⟩, ⟨101, .member 1 (.put ⟨1, "b"⟩ [8])⟩,
      ⟨102, .member 2 (.deleteScope 1)⟩, ⟨103, .plain (.put ⟨1, "a"⟩ [9])⟩, ⟨104, .commit 1⟩] := by
  decide +kernel

theorem effective_of_reopened_mixed :
    ∃ report reopened, Engine.openUnder (.prompt 4) app .standard {} (deviceAfter mixed) .empty =
        .ok (report, reopened) ∧
      reopened.state.snapshot = [(⟨1, "a"⟩, [9]), (⟨1, "b"⟩, [8])] := by
  have policy : Config.standard.formatPolicy ≠ .legacy := by decide
  have room : Lsn.first + mixed.length < Sequencer.wordSize := by decide
  have ends : endsWell mixed = true := by decide +kernel
  have valid : Config.standard.validate = .ok () := rfl
  rcases effective_of_reopened trivial (MemoryDevice.reads _) open_forStore room
    (clean_of_endsWell ends) ⟨trivial, fun _ => id⟩ valid policy (.prompt 4) with
    ⟨report, reopened, opened, _, values⟩
  refine ⟨report, reopened, opened, ?_⟩
  have effective_eq : effective ((start forStore).run mixed).history =
      [⟨100, .put ⟨1, "a"⟩ [7]⟩, ⟨101, .put ⟨1, "b"⟩ [8]⟩, ⟨103, .put ⟨1, "a"⟩ [9]⟩] := by
    rw [history_mixed]
    decide +kernel
  have sunk : ∀ key, ¬ Resurfaces ((start forStore).run mixed).history key := by
    rintro key ⟨value, put, torn, delete, resurfacing⟩
    have deleted := resurfacing.delete_stands.1
    rw [effective_eq] at deleted
    simp at deleted
  rw [values.mpr sunk, effective_eq]
  decide +kernel

/-- A put, the deletion of its scope by a transaction that is given up, and the deletion
of the key. -/
def torn : List Turn :=
  [.plain (.put ⟨1, "k"⟩ [0x76]) false, .begin "t", .member "t" (.deleteScope 1), .drop "t",
    .plain (.delete ⟨1, "k"⟩) false]

/-- What recovery makes of it. -/
def recoveredTorn : Recovery.Result Action Store :=
  Recovery.recoverWith app (.prompt 4) .standard {} (Device.newestFirst (deviceAfter torn)) .empty

/-- What it reports: the deletion of the scope is voided, and the two others are replayed. -/
def reportTorn : RecoveryReport :=
  { RecoveryReport.initial (some 102) 100 with
    lowest := some 100, regions := 1, scanned := 3, replayed := 2, voided := 1, maxTxn := some 1 }

/-- The key was deleted by the last mutation that takes effect, and has a value again. -/
theorem deleted_key_resurfaces :
    ((start forStore).run torn).engine.shutdown.1 = some (.ok ()) ∧
      ∃ reopened, Engine.openUnder (.prompt 4) app .standard {} (deviceAfter torn) .empty =
          .ok (reportTorn, reopened) ∧
        reopened.state.snapshot = [(⟨1, "k"⟩, [0x76])] ∧
        (Store.empty.applyAll (effective ((start forStore).run torn).history)).snapshot = [] := by
  have ends : endsWell torn = true := by decide +kernel
  have recovered : recoveredTorn.outcome = .ok reportTorn := by decide +kernel
  have snapshot : recoveredTorn.state.snapshot = [(⟨1, "k"⟩, [0x76])] := by decide +kernel
  have goes_on : ∀ state : Store,
      (Engine.resume .standard reportTorn (deviceAfter torn) state).state = state := fun _ => rfl
  refine ⟨clean_of_endsWell ends,
    .resume .standard reportTorn (deviceAfter torn) recoveredTorn.state,
    Engine.open_of_recovered rfl recovered, ?_, ?_⟩
  · rw [goes_on]
    exact snapshot
  · decide +kernel

end Transcript

end Logbook.KeyValue

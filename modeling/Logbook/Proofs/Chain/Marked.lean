import Logbook.Proofs.Chain.Custody
import Logbook.Proofs.Chain.Written

/-!
# Sync requests

A record that was appended with a sync request carries the request with it: the
slot that it lies in says so, and so does the mark of the window, which is raised
before the slot is filled. A record that goes on to a later window takes the
request along, and leaves the mark of the window it came from where it was. So the
window that holds the record in the end is known to be asked for a sync, whatever
was closed on the way.
-/

namespace Logbook

namespace Window

/-- The requests in the slots of the window are ones that were given, and its mark
covers each of them. -/
def Marked (given : Record → Bool → Prop) (window : Window) : Prop :=
  ∀ record sync, Slot.filled record sync ∈ window.slots →
    given record sync ∧ (sync = true → record.lsn ≤ window.syncRequested)

theorem le_syncRequested_noteSync (window : Window) (lsn : Nat) (sync : Bool) :
    window.syncRequested ≤ (window.noteSync lsn sync).syncRequested := by
  cases sync with
  | false => exact Nat.le_refl _
  | true => exact Nat.le_max_left _ _

namespace Marked

variable {given : Record → Bool → Prop} {window : Window}

theorem mono {given' : Record → Bool → Prop} (marked : window.Marked given)
    (weaker : ∀ record sync, window.Holds record → given record sync → given' record sync) :
    window.Marked given' := by
  intro record sync member
  rcases marked record sync member with ⟨was_given, covered⟩
  exact ⟨weaker record sync ⟨sync, member⟩ was_given, covered⟩

/-- Slots that are given up, and a mark that is raised, do not matter. -/
theorem of_le {window' : Window} (marked : window.Marked given)
    (slots : ∀ record sync, Slot.filled record sync ∈ window'.slots →
      Slot.filled record sync ∈ window.slots)
    (le : window.syncRequested ≤ window'.syncRequested) : window'.Marked given := by
  intro record sync member
  rcases marked record sync (slots record sync member) with ⟨was_given, covered⟩
  exact ⟨was_given, fun asked => Nat.le_trans (covered asked) le⟩

theorem closeNaturally (marked : window.Marked given) : window.closeNaturally.Marked given :=
  marked.of_le (fun _ _ member => member) (Nat.le_refl _)

theorem noteSync (marked : window.Marked given) (lsn : Nat) (sync : Bool) :
    (window.noteSync lsn sync).Marked given := by
  refine marked.of_le (fun record flag member => ?_) (window.le_syncRequested_noteSync lsn sync)
  rwa [noteSync_slots] at member

/-- A slot that is spent asks for nothing. -/
theorem occupy_moved (marked : window.Marked given) (offset : Nat) :
    (window.occupy offset .moved).Marked given := by
  refine marked.of_le (fun record sync member => ?_) (Nat.le_refl _)
  rcases List.mem_or_eq_of_mem_set member with before | moved
  · exact before
  · cases moved

/-- A record goes into its slot after its request was noted. -/
theorem occupy_filled (marked : window.Marked given) {record : Record} {sync : Bool}
    (was_given : given record sync) (offset : Nat) :
    ((window.noteSync record.lsn sync).occupy offset (.filled record sync)).Marked given := by
  intro other flag member
  rcases List.mem_or_eq_of_mem_set member with before | here
  · exact marked.noteSync record.lsn sync other flag before
  · cases here
    refine ⟨was_given, ?_⟩
    rintro rfl
    exact Nat.le_max_right _ _

theorem place (marked : window.Marked given) {record : Record} {sync : Bool}
    (was_given : (window.place record sync).1 = .kept → given record sync) :
    (window.place record sync).2.Marked given := by
  have placed := window.placed record sync
  generalize window.place record sync = outcome at placed was_given
  cases placed with
  | below | past => exact marked
  | taken => exact marked.noteSync _ _
  | beyond offset => exact (marked.noteSync _ _).occupy_moved offset
  | kept offset => exact marked.occupy_filled (was_given rfl) offset

/-- A window whose slots hold a record of some number was asked for a sync, if that
number can only have come with a request. -/
theorem isSyncRequested {capacity : Capacity} {record : Record} (marked : window.Marked given)
    (sound : window.Sound capacity) (holds : window.Holds record)
    (asks : ∀ sync, given record sync → sync = true) : window.isSyncRequested = true := by
  have base_le := (sound.slot_of_holds holds).1
  rcases holds with ⟨sync, member⟩
  rcases marked record sync member with ⟨was_given, covered⟩
  have le := covered (asks sync was_given)
  exact decide_eq_true (Nat.le_trans base_le le)

end Marked

end Window

namespace Windows

/-- Each of the windows is marked. -/
def Marked (given : Record → Bool → Prop) (windows : List Window) : Prop :=
  ∀ window ∈ windows, window.Marked given

variable {given : Record → Bool → Prop} {capacity : Capacity} {record : Record} {sync : Bool}

theorem marked_nil : Marked given [] :=
  fun _ member => absurd member List.not_mem_nil

theorem marked_cons {window : Window} {rest : List Window} :
    Marked given (window :: rest) ↔ window.Marked given ∧ Marked given rest :=
  List.forall_mem_cons

theorem marked_split {front back : List Window} :
    Marked given (front ++ back) ↔ Marked given front ∧ Marked given back :=
  List.forall_mem_append

theorem Marked.mono {given' : Record → Bool → Prop} {windows : List Window}
    (marked : Marked given windows)
    (weaker : ∀ record sync, Holds windows record → given record sync → given' record sync) :
    Marked given' windows :=
  fun window member => (marked window member).mono fun record sync holds =>
    weaker record sync ⟨window, member, holds⟩

theorem marked_fresh (capacity : Capacity) (base : Nat) :
    (capacity.fresh base).Marked given :=
  fun record sync member => absurd ⟨sync, member⟩ (not_holds_fresh record)

theorem marked_make (was_given : given record sync) (base : Nat) :
    Marked given (make capacity record sync base).2 := by
  fun_induction make capacity record sync base with
  | case1 base inside =>
      exact marked_cons.mpr ⟨(marked_fresh capacity base).place fun _ => was_given, marked_nil⟩
  | case2 base outside passed windows made ih =>
      rw [made] at ih
      exact marked_cons.mpr ⟨(marked_fresh capacity base).closeNaturally, ih⟩

/-- Offering a record marks the window that takes it. -/
theorem marked_offer {windows : List Window} {base : Nat} (marked : Marked given windows)
    (was_given : (offer capacity record sync base windows).1.isOk = true → given record sync) :
    Marked given (offer capacity record sync base windows).2 := by
  induction windows generalizing base with
  | nil => exact marked_make (was_given rfl) base
  | cons window rest ih =>
      rw [marked_cons] at marked
      unfold offer at was_given ⊢
      have placed : (window.place record sync).1 = .kept → given record sync := by
        intro kept
        rw [show window.place record sync = (.kept, (window.place record sync).2) from
          Prod.ext kept rfl] at was_given
        exact was_given rfl
      have here := marked.1.place placed
      generalize window.place record sync = outcome at was_given here
      rcases outcome with ⟨fault | _ | _ | last, after⟩
      · exact marked_cons.mpr ⟨here, marked.2⟩
      · dsimp only at was_given ⊢
        rw [isOk_map] at was_given
        exact marked_cons.mpr ⟨here.closeNaturally, ih marked.2 was_given⟩
      · exact marked_cons.mpr ⟨here, marked.2⟩
      · dsimp only at was_given ⊢
        rw [isOk_map] at was_given
        exact marked_cons.mpr ⟨here, ih marked.2 was_given⟩

/-- Offering a record to one window only is an offer that may end early. -/
theorem marked_offerFirst {window : Window} {rest : List Window}
    (marked : Marked given (window :: rest))
    (was_given : (offerFirst capacity record sync window rest).1.toOption.getD false = true →
      given record sync) :
    Marked given (offerFirst capacity record sync window rest).2 := by
  rw [marked_cons] at marked
  unfold offerFirst at was_given ⊢
  have placed : (window.place record sync).1 = .kept → given record sync := by
    intro kept
    rw [show window.place record sync = (.kept, (window.place record sync).2) from
      Prod.ext kept rfl] at was_given
    exact was_given rfl
  have here := marked.1.place placed
  generalize window.place record sync = outcome at was_given here
  rcases outcome with ⟨fault | _ | _ | last, after⟩
  · exact marked_cons.mpr ⟨here, marked.2⟩
  · exact marked_cons.mpr ⟨here, marked.2⟩
  · exact marked_cons.mpr ⟨here, marked.2⟩
  · dsimp only at was_given ⊢
    refine marked_cons.mpr ⟨here, marked_offer marked.2 fun accepted => was_given ?_⟩
    generalize (offer capacity record sync (last + 1) rest).1 = result at accepted ⊢
    cases result with
    | error fault => cases accepted
    | ok passed => rfl

/-- Records that go on take their requests along. -/
theorem marked_relocate (capacity : Capacity) (base : Nat) {slots : List Slot}
    {windows : List Window}
    (was_given : ∀ record sync, Slot.filled record sync ∈ slots → given record sync)
    (marked : Marked given windows) :
    (∀ record sync, Slot.filled record sync ∈ (relocate capacity base slots windows).2.1 →
        Slot.filled record sync ∈ slots) ∧
      Marked given (relocate capacity base slots windows).2.2 := by
  induction slots generalizing windows with
  | nil => exact ⟨fun _ _ member => member, marked⟩
  | cons slot slots ih =>
      have rest_given : ∀ record sync, Slot.filled record sync ∈ slots → given record sync :=
        fun record sync member => was_given record sync (List.mem_cons_of_mem _ member)
      cases slot with
      | empty | moved =>
          rcases ih rest_given marked with ⟨rest, after⟩
          refine ⟨fun record sync member => ?_, after⟩
          rcases List.mem_cons.mp member with here | later
          · cases here
          · exact List.mem_cons_of_mem _ (rest record sync later)
      | filled record sync =>
          have offered : Marked given (offer capacity record sync base windows).2 :=
            marked_offer marked fun _ => was_given record sync List.mem_cons_self
          unfold relocate
          generalize offer capacity record sync base windows = outcome at offered
          rcases outcome with ⟨fault | passed, middle⟩
          · refine ⟨fun other flag member => ?_, offered⟩
            rcases List.mem_cons.mp member with here | later
            · cases here
            · exact List.mem_cons_of_mem _ later
          · rcases ih rest_given offered with ⟨rest, after⟩
            refine ⟨fun other flag member => ?_, after⟩
            rcases List.mem_cons.mp member with here | later
            · cases here
            · exact List.mem_cons_of_mem _ (rest other flag later)

theorem marked_closeFirst {window : Window} {rest : List Window}
    (marked : Marked given (window :: rest)) (last : Nat) :
    Marked given (closeFirst capacity window rest last).2 := by
  unfold closeFirst
  split
  · exact marked
  · split
    · exact marked
    · rw [marked_cons] at marked
      have was_given : ∀ record sync,
          Slot.filled record sync ∈ window.slots.drop (window.keptSlots last).length →
            given record sync :=
        fun record sync member => (marked.1 record sync (List.mem_of_mem_drop member)).1
      rcases marked_relocate capacity (last + 1) was_given marked.2 with ⟨beyond, after⟩
      refine marked_cons.mpr ⟨marked.1.of_le (fun record sync member => ?_) (Nat.le_refl _), after⟩
      rcases List.mem_append.mp member with kept | gone
      · exact List.mem_of_mem_take kept
      · exact List.mem_of_mem_drop (beyond record sync gone)

theorem marked_makeClosed (lsn base : Nat) : Marked given (makeClosed capacity lsn base) := by
  fun_induction makeClosed capacity lsn base with
  | case1 base before => exact marked_cons.mpr ⟨marked_fresh capacity base, marked_nil⟩
  | case2 base before inside =>
      exact marked_cons.mpr ⟨marked_fresh capacity base, marked_nil⟩
  | case3 base before outside ih =>
      exact marked_cons.mpr ⟨(marked_fresh capacity base).closeNaturally, ih⟩

theorem marked_closeThrough {windows : List Window} (marked : Marked given windows)
    (lsn base : Nat) : Marked given (closeThrough capacity lsn base windows).2 := by
  induction windows generalizing base with
  | nil => exact marked_makeClosed lsn base
  | cons window rest ih =>
      unfold closeThrough
      split
      · exact marked
      · split
        · exact marked_closeFirst marked lsn
        · split
          · exact marked
          · rw [marked_cons] at marked
            exact marked_cons.mpr ⟨marked.1.closeNaturally, ih marked.2 _⟩

/-- The record is held, and wherever it is held the window was asked for a sync. -/
structure Flagged (windows : List Window) (record : Record) : Prop where
  held : Holds windows record
  requested : ∀ window ∈ windows, window.Holds record → window.isSyncRequested = true

/-- The records of this number that were given came with a sync request. -/
def Asking (lsn : Nat) (record : Record) (sync : Bool) : Prop := record.lsn = lsn → sync = true

theorem Marked.flagged {windows : List Window} {base : Nat}
    (marked : Marked (Asking record.lsn) windows) (linked : Linked capacity base windows)
    (held : Holds windows record) : Flagged windows record where
  held := held
  requested window member holds :=
    (marked window member).isSyncRequested (linked.sound member) holds fun _ asks => asks rfl

end Windows

namespace Chain

open Windows

variable {given : Record → Bool → Prop} {chain : Chain}

theorem marked_create (first capacity poolLimit : Nat) :
    Marked given (create first capacity poolLimit).windows :=
  marked_cons.mpr ⟨marked_fresh _ first, marked_nil⟩

theorem marked_onSuffix {ε α : Type} (marked : Marked given chain.windows) (place : Nat)
    (missing : Except ε α) (work : Window → List Window → Except ε α × List Window)
    (worked : ∀ window rest, chain.windows.drop place = window :: rest →
      Marked given (window :: rest) → Marked given (work window rest).2) :
    Marked given (chain.onSuffix place missing work).2.windows := by
  unfold onSuffix
  cases suffix : chain.windows.drop place with
  | nil => exact marked
  | cons window rest =>
      rw [← take_append_of_drop suffix, marked_split] at marked
      exact marked_split.mpr ⟨marked.1, worked window rest suffix marked.2⟩

theorem marked_append (marked : Marked given chain.windows) {record : Record} {sync : Bool}
    (was_given : (chain.append record sync).1.isOk = true → given record sync) :
    Marked given (chain.append record sync).2.windows := by
  unfold append at was_given ⊢
  cases failure : chain.failure with
  | some failure => exact marked
  | none =>
      rw [failure] at was_given
      generalize (if chain.baseAt chain.head ≤ record.lsn then chain.head else chain.tail) = start
        at was_given ⊢
      dsimp only at was_given ⊢
      have worked := marked_onSuffix marked start (.ok 0)
        (fun window rest => offer chain.capacity record sync window.base (window :: rest))
        fun window rest suffix marked => marked_offer marked fun accepted => was_given (by
          unfold onSuffix
          rw [suffix]
          dsimp only
          rcases exists_eq_ok accepted with ⟨passed, ok⟩
          rw [ok]
          rfl)
      generalize (chain.onSuffix start (.ok 0) fun window rest =>
        offer chain.capacity record sync window.base (window :: rest)) = outcome at worked ⊢
      rcases outcome with ⟨_ | passed, after⟩
      · exact worked
      · dsimp only
        split
        · exact worked
        · exact worked

theorem marked_appendAt (marked : Marked given chain.windows) (place : Nat) {record : Record}
    {sync : Bool}
    (was_given : (chain.appendAt place record sync).1.toOption.getD false = true →
      given record sync) :
    Marked given (chain.appendAt place record sync).2.windows := by
  refine marked_onSuffix marked place _ _ fun window rest suffix marked =>
    marked_offerFirst marked fun accepted => was_given ?_
  unfold appendAt onSuffix
  rw [suffix]
  dsimp only
  generalize (offerFirst chain.capacity record sync window rest).1 = result at accepted ⊢
  cases result with
  | error fault => cases accepted
  | ok kept => exact accepted

theorem marked_closeAt (marked : Marked given chain.windows) (place last : Nat) :
    Marked given (chain.closeAt place last).2.windows :=
  marked_onSuffix marked place _ _ fun _ _ _ marked => marked_closeFirst marked last

theorem marked_closeThrough (marked : Marked given chain.windows) (lsn : Nat) :
    Marked given (chain.closeThrough lsn).2.windows :=
  marked_onSuffix marked _ _ _ fun window _ _ marked =>
    Windows.marked_closeThrough marked lsn window.base

theorem marked_next (marked : Marked given chain.windows) (place : Nat) :
    Marked given (chain.next place).2.windows := by
  unfold next
  split
  · rename_i window suffix
    rw [← take_append_of_drop suffix, marked_split, marked_cons] at marked
    exact marked_split.mpr ⟨marked.1, marked_cons.mpr ⟨marked.2.1.closeNaturally,
      marked_cons.mpr ⟨marked_fresh _ _, marked_nil⟩⟩⟩
  · exact marked

theorem marked_complete (marked : Marked given chain.windows) (place : Nat) :
    Marked given (chain.complete place).windows := by
  intro window member
  rcases List.getElem?_of_mem member with ⟨offset, found⟩
  rw [complete, List.getElem?_modify, Option.map_eq_map, Option.map_eq_some_iff] at found
  rcases found with ⟨before, here, rfl⟩
  have marked := marked before (List.mem_of_getElem? here)
  split
  · exact marked
  · exact marked

theorem marked_retire (marked : Marked given chain.windows) (written : Nat) (held : Bool) :
    Marked given (chain.retire written held).windows :=
  marked_next marked written

/-- Whether a call asks for a sync of the record that it appends. -/
def Call.asksSync : Call → Bool
  | .append _ sync => sync
  | .appendAt _ _ sync => sync
  | _ => false

/-- A call marks the window that takes its record. -/
theorem marked_call (marked : Marked given chain.windows) (call : Call)
    (was_given : ∀ record, (chain.call call).1 = some record → given record call.asksSync) :
    Marked given (chain.call call).2.windows := by
  cases call with
  | append record sync =>
      refine marked_append marked fun accepted => was_given record ?_
      simp only [Chain.call, accepted, cond_true]
  | appendAt place record sync =>
      refine marked_appendAt marked place fun accepted => was_given record ?_
      simp only [Chain.call, accepted, cond_true]
  | closeAt place last => exact marked_closeAt marked place last
  | next place => exact marked_next marked place
  | closeThrough lsn => exact marked_closeThrough marked lsn

namespace History

variable {first : Nat} {history : History}

theorem marked_step (marked : Marked given history.chain.windows) (call : Call)
    (was_given : ∀ record, (history.chain.call call).1 = some record →
      given record call.asksSync) :
    Marked given (history.step call).chain.windows :=
  marked_call marked call was_given

/-- While a record is held, its number is not accepted again, so later calls do not
take its request back. -/
theorem marked_run_of_mem (kept : Kept first history) {record : Record}
    (accepted : record ∈ history.accepted)
    (marked : Marked (Asking record.lsn) history.chain.windows) (calls : List Call) :
    Marked (Asking record.lsn) (history.run calls).chain.windows := by
  induction calls generalizing history with
  | nil => exact marked
  | cons call calls ih =>
      rcases called_call kept.sound call with ⟨bound, called⟩
      refine ih (kept_step kept call) (List.mem_append_left _ accepted) (marked_step marked call ?_)
      intro other gained same
      exact absurd ⟨record, (kept.holds record).mpr accepted, same.symm⟩
        (called.carried.fresh other gained)

theorem mem_accepted_run {record : Record} (accepted : record ∈ history.accepted)
    (calls : List Call) : record ∈ (history.run calls).accepted := by
  induction calls generalizing history with
  | nil => exact accepted
  | cons call calls ih => exact ih (List.mem_append_left _ accepted)

theorem marked_run (marked : Marked (fun _ _ => True) history.chain.windows)
    (calls : List Call) : Marked (fun _ _ => True) (history.run calls).chain.windows := by
  induction calls generalizing history with
  | nil => exact marked
  | cons call calls ih => exact ih (marked_step marked call fun _ _ => trivial)

/-- A record that a call accepted with a sync request lies in a window that was asked
for a sync, whatever was called before and after. -/
theorem flagged_run (first capacity poolLimit : Nat) (front back : List Call) {call : Call}
    {record : Record} (asks : call.asksSync = true)
    (accepted : (((start (.create first capacity poolLimit)).run front).chain.call call).1 =
      some record) :
    Flagged ((start (.create first capacity poolLimit)).run (front ++ call :: back)).chain.windows
      record := by
  have kept := kept_run (kept_start first capacity poolLimit) front
  have marked : Marked (fun _ _ => True)
      ((start (.create first capacity poolLimit)).run front).chain.windows :=
    marked_run (marked_create first capacity poolLimit) front
  rw [run, List.foldl_append, ← run, ← run, run_cons]
  generalize (start (.create first capacity poolLimit)).run front = history
    at kept marked accepted ⊢
  rcases called_call kept.sound call with ⟨bound, called⟩
  have before : Marked (Asking record.lsn) history.chain.windows :=
    marked.mono fun other sync held _ same =>
      absurd ⟨other, held, same⟩ (called.carried.fresh record accepted)
  have stepped : Marked (Asking record.lsn) (history.step call).chain.windows :=
    marked_step before call fun other _ _ => asks
  have kept_after := kept_step kept call
  have member : record ∈ (history.step call).accepted := by
    simp only [step, accepted, Option.toList_some]
    exact List.mem_append_right _ (List.mem_singleton.mpr rfl)
  have final := kept_run kept_after back
  exact (marked_run_of_mem kept_after member stepped back).flagged final.sound.linked
    ((final.holds record).mpr (mem_accepted_run member back))

end History

end Chain

end Logbook

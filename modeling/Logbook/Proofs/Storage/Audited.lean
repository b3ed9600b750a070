import Mathlib.Data.List.Forall2
import Logbook.Proofs.Storage.Handles

/-!
# Disks lose what a crash may take

In every run of calls the disks of a room agree with their ledgers. A disk that discards what
is not safe therefore keeps the regions that the last sync found and that were not torn off
since, all of them and in their order, and no call finds a mark or a cursor that leads past
its regions. Clones of a handle see the same disk for good, forks and crash images go their
own way.
-/

namespace Logbook.DiskRoom.Audit

variable {audit : Audit} {handle number : Nat}

/-- Every disk of the room has a ledger that accounts for it. -/
structure Sound (audit : Audit) : Prop where
  housed : audit.room.Housed
  described : List.Forall₂ DiskLedger.Describes audit.ledgers audit.room.disks

theorem exists_ledger {ledgers : List DiskLedger} {disks : List Disk} {disk : Disk}
    (described : List.Forall₂ DiskLedger.Describes ledgers disks)
    (held : disks[number]? = some disk) :
    ∃ ledger, ledgers[number]? = some ledger ∧ ledger.Describes disk := by
  induction described generalizing number with
  | nil => cases held
  | @cons ledger _ _ _ first rest ih =>
      cases number with
      | zero =>
          cases held
          exact ⟨ledger, rfl, first⟩
      | succ number => exact ih held

/-- Work on a disk is noted in its ledger. -/
theorem described_work {ledgers : List DiskLedger} {disks : List Disk} {disk : Disk}
    (described : List.Forall₂ DiskLedger.Describes ledgers disks)
    (held : disks[number]? = some disk) (work : DiskWork) :
    List.Forall₂ DiskLedger.Describes (ledgers.modify number (·.note work))
      (disks.set number (disk.after work)) := by
  induction described generalizing number with
  | nil => cases held
  | cons first rest ih =>
      cases number with
      | zero =>
          cases held
          exact .cons (first.after work) rest
      | succ number => exact .cons first (ih held)

theorem described_concat {ledgers : List DiskLedger} {disks : List Disk} {ledger : DiskLedger}
    {disk : Disk} (described : List.Forall₂ DiskLedger.Describes ledgers disks)
    (new : ledger.Describes disk) :
    List.Forall₂ DiskLedger.Describes (ledgers ++ [ledger]) (disks ++ [disk]) :=
  List.rel_append described (.cons new .nil)

theorem ledger?_of_found {h : Handle} (found : audit.room.handles[handle]? = some h) :
    audit.ledger? handle = audit.ledgers[h.disk]? := by
  rw [ledger?, number?_of_found found, Option.bind_some]

theorem notes_of_missing {call : DiskCall} (through : call.handle? = some handle)
    (missing : audit.room.handles[handle]? = none) : audit.notes call = audit.ledgers := by
  have no_number : audit.room.number? handle = none := by
    rw [number?, missing, Option.map_none]
  have no_ledger : audit.ledger? handle = none := by
    rw [ledger?, no_number, Option.bind_none]
  cases call with
  | create => cases through
  | work target work =>
      cases through
      rw [notes, no_number]
  | clone target => rfl
  | fork target =>
      cases through
      rw [notes, no_ledger, Option.toList_none, List.append_nil]
  | crash target point =>
      cases through
      rw [notes, no_ledger, Option.map_none, Option.toList_none, List.append_nil]

theorem sound_start : start.Sound where
  housed := by
    rintro _ (_ | ⟨_, ⟨⟩⟩)
    exact Nat.zero_lt_one
  described := .cons DiskLedger.describes_blank .nil

theorem Sound.step (sound : audit.Sound) (call : DiskCall) : (audit.step call).Sound := by
  have effect := effect sound.housed call
  refine ⟨effect.housed sound.housed, ?_⟩
  change List.Forall₂ _ (audit.notes call) (audit.room.call call).disks
  generalize audit.room.call call = after at effect
  cases effect with
  | created => exact described_concat sound.described DiskLedger.describes_blank
  | missed through missing =>
      rw [notes_of_missing through missing]
      exact sound.described
  | worked work cursor found held =>
      rw [notes, number?_of_found found]
      exact described_work sound.described held work
  | cloned => exact sound.described
  | forked found held =>
      obtain ⟨ledger, kept, describes⟩ := exists_ledger sound.described held
      rw [notes, ledger?_of_found found, kept]
      exact described_concat sound.described describes
  | crashed point found held =>
      obtain ⟨ledger, kept, describes⟩ := exists_ledger sound.described held
      rw [notes, ledger?_of_found found, kept]
      exact described_concat sound.described (describes.crashed point)

theorem Sound.run (sound : audit.Sound) (calls : List DiskCall) : (audit.run calls).Sound := by
  induction calls generalizing audit with
  | nil => exact sound
  | cons call calls ih => exact ih (sound.step call)

/-- The ledgers only watch. -/
theorem room_run (audit : Audit) (calls : List DiskCall) :
    (audit.run calls).room = audit.room.run calls := by
  induction calls generalizing audit with
  | nil => rfl
  | cons call calls ih => exact ih (audit.step call)

/-- What an audit finds. -/
structure Passed (audit : Audit) : Prop where
  /-- No disk counts more safe regions than it has. -/
  synced_le : ∀ disk ∈ audit.room.disks, disk.synced ≤ disk.regions.length
  /-- The numbers of the regions of a disk ascend. -/
  ordered : ∀ disk ∈ audit.room.disks, disk.regions.Pairwise (·.lsn < ·.lsn)
  /-- The regions that are discarded and those that are not make up all of them. -/
  discarded : ∀ disk ∈ audit.room.disks,
    disk.discardUnsynced.1 + disk.synced = disk.regions.length
  /-- A read gives the region next to the cursor, and nothing only if there is none. -/
  reads : ∀ handle device, audit.room.device? handle = some device →
    (device.read .backward).1 = (device.disk.regions.take device.cursor).getLast? ∧
      (device.read .forward).1 = (device.disk.regions.drop device.cursor).head?
  /-- Discarding keeps the safe regions, and every region that the last sync found and that
  was not torn off since is one of them. -/
  keeps : ∀ handle < audit.room.handles.length, ∃ device ledger,
    audit.room.device? handle = some device ∧ audit.ledger? handle = some ledger ∧
      device.disk.regions = ledger.present.map Prod.snd ∧
      device.disk.discardUnsynced.2.regions = ledger.safe.map Prod.snd ∧
      ledger.safe.map Prod.fst = ledger.atSync.filter (· ∉ ledger.torn)
  /-- A clone shows what its origin shows. -/
  clones : ∀ handle < audit.room.handles.length, ∃ clone after,
    audit.room.clone? handle = some (clone, after) ∧ after.Together handle clone
  /-- A fork shows what its origin shows, and then goes its own way. -/
  forks : ∀ handle < audit.room.handles.length, ∃ fork after,
    audit.room.fork? handle = some (fork, after) ∧
      after.disk? fork = audit.room.disk? handle ∧
      ∀ other < audit.room.handles.length, after.Independent other fork
  /-- A crash image shows what the crash leaves, and then goes its own way. -/
  images : ∀ handle < audit.room.handles.length, ∀ point, ∃ image after,
    audit.room.crash? handle point = some (image, after) ∧
      after.disk? image = (audit.room.disk? handle).map (·.crashImage point) ∧
      ∀ other < audit.room.handles.length, after.Independent other image

theorem Sound.describes_of_mem (sound : audit.Sound) {disk : Disk}
    (member : disk ∈ audit.room.disks) : ∃ ledger : DiskLedger, ledger.Describes disk := by
  obtain ⟨number, held⟩ := List.getElem?_of_mem member
  obtain ⟨ledger, _, describes⟩ := exists_ledger sound.described held
  exact ⟨ledger, describes⟩

theorem Sound.passed (sound : audit.Sound) : audit.Passed where
  synced_le disk member := by
    obtain ⟨ledger, describes⟩ := sound.describes_of_mem member
    exact describes.synced_le
  ordered disk member := by
    obtain ⟨ledger, describes⟩ := sound.describes_of_mem member
    exact describes.ordered
  discarded disk member := by
    obtain ⟨ledger, describes⟩ := sound.describes_of_mem member
    exact Nat.sub_add_cancel describes.synced_le
  reads _ device _ := ⟨device.read_backward, device.read_forward⟩
  keeps handle inside := by
    have found := List.getElem?_eq_getElem inside
    obtain ⟨disk, held⟩ := sound.housed.exists_disk (number?_of_found found)
    obtain ⟨ledger, kept, describes⟩ := exists_ledger sound.described held
    exact ⟨_, ledger, device?_of_held found held, (ledger?_of_found found).trans kept,
      describes.regions, describes.discardUnsynced.regions, describes.serials_safe⟩
  clones _ inside := together_clone sound.housed inside
  forks handle inside := by
    obtain ⟨fork, after, forked, shows, independent⟩ :=
      independent_crash sound.housed inside .afterWrite
    refine ⟨fork, after, forked, ?_, independent⟩
    rw [shows]
    exact Option.map_id'
  images _ inside point := independent_crash sound.housed inside point

/-- In every run of calls, disks lose what a crash may take from them and nothing else. -/
theorem passed_run (calls : List DiskCall) :
    (start.run calls).room = DiskRoom.single.run calls ∧ (start.run calls).Passed :=
  ⟨room_run start calls, (sound_start.run calls).passed⟩

/-- A region that takes the number of a torn one is not safe, and the fork keeps the old one. -/
example :
    let room := DiskRoom.single.run [.work 0 (.write [1] 5), .work 0 .sync, .fork 0,
      .work 0 .tearTail, .work 0 (.write [2] 5)]
    room.disk? 0 = some ⟨[⟨5, [2]⟩], 0⟩ ∧ room.disk? 1 = some ⟨[⟨5, [1]⟩], 1⟩ := by
  decide

end Logbook.DiskRoom.Audit

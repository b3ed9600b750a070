import Mathlib.Data.List.Basic
import Logbook.Storage.DiskLedger

/-!
# A disk and its ledger

The mark of a disk says where its safe regions end, and its ledger says which regions these
are. The two agree as long as the regions before the mark are those that the last sync found,
less the ones torn off since, and no region behind it is one of them. All work on a disk
keeps that so.
-/

namespace Logbook

/-- The disk after some work on a device. -/
def Disk.after (disk : Disk) : DiskWork → Disk
  | .write bytes lsn => (disk.write bytes lsn).2
  | .sync => disk.sync
  | .seek _ | .read _ => disk
  | .tearTail => disk.tearTail.2
  | .discardUnsynced => disk.discardUnsynced.2
  | .corrupt region offset => (disk.corrupt region offset).2

namespace MemoryDevice

theorem disk_read (device : MemoryDevice) (direction : Direction) :
    (device.read direction).2.disk = device.disk := by
  unfold read
  cases direction with
  | forward | backward =>
      dsimp only
      split <;> rfl

theorem disk_perform (device : MemoryDevice) (work : DiskWork) :
    (device.perform work).disk = device.disk.after work := by
  cases work with
  | read direction => exact device.disk_read direction
  | seek position => cases position <;> rfl
  | write | sync | tearTail | discardUnsynced | corrupt => rfl

/-- A backward read finds the newest region behind the cursor, also if the cursor was left
beyond them all. -/
theorem read_backward (device : MemoryDevice) :
    (device.read .backward).1 = (device.disk.regions.take device.cursor).getLast? := by
  have le : min device.cursor device.disk.regions.length ≤ device.disk.regions.length :=
    Nat.min_le_right _ _
  rw [List.take_eq_take_min]
  unfold read
  dsimp only
  generalize min device.cursor device.disk.regions.length = cursor at le
  split
  · rename_i start
    rw [start]
    rfl
  · rename_i not_start
    have found : device.disk.regions[cursor - 1]? = some device.disk.regions[cursor - 1] :=
      List.getElem?_eq_getElem (by omega)
    rw [List.getLast?_take, if_neg not_start, found]
    rfl

/-- A forward read finds the oldest region past the cursor. -/
theorem read_forward (device : MemoryDevice) :
    (device.read .forward).1 = (device.disk.regions.drop device.cursor).head? := by
  have clamped : device.disk.regions[min device.cursor device.disk.regions.length]? =
      device.disk.regions[device.cursor]? := by
    rcases Nat.le_total device.cursor device.disk.regions.length with le | le
    · rw [Nat.min_eq_left le]
    · rw [Nat.min_eq_right le, List.getElem?_eq_none le, List.getElem?_eq_none (Nat.le_refl _)]
  rw [List.head?_drop, ← clamped]
  unfold read
  dsimp only
  split
  · rename_i missing
    exact missing.symm
  · rename_i chunk found
    exact found.symm

end MemoryDevice

namespace Disk

/-- A disk with ascending numbers takes a region whose number is above them all, and no
other. -/
theorem write_eq {disk : Disk} (ordered : disk.regions.Pairwise (·.lsn < ·.lsn))
    (bytes : Bytes) (lsn : Nat) :
    (disk.write bytes lsn).2 =
      if ∀ chunk ∈ disk.regions, chunk.lsn < lsn then
        { disk with regions := disk.regions ++ [⟨lsn, bytes⟩] }
      else disk := by
  unfold write
  cases newest : disk.regions.getLast? with
  | none =>
      rw [List.getLast?_eq_none_iff.mp newest]
      rfl
  | some last =>
      obtain ⟨older, split⟩ := List.getLast?_eq_some_iff.mp newest
      dsimp only
      by_cases le : lsn ≤ last.lsn
      · rw [if_pos le, if_neg]
        intro above
        exact Nat.not_lt.mpr le (above last (List.mem_of_getLast? newest))
      · rw [if_neg le, if_pos]
        intro chunk member
        rw [split] at member ordered
        rcases List.mem_append.mp member with before | same
        · have lt := (List.pairwise_append.mp ordered).2.2 chunk before last List.mem_cons_self
          exact Nat.lt_trans lt (Nat.lt_of_not_le le)
        · cases List.mem_singleton.mp same
          exact Nat.lt_of_not_le le

/-- Damage to a byte that does not exist changes nothing. -/
theorem corrupt_eq (disk : Disk) (region offset : Nat) :
    (disk.corrupt region offset).2 =
      { disk with regions := disk.regions.modify region (·.damage offset) } := by
  unfold corrupt
  rw [List.modify_eq_set_getElem?]
  cases found : disk.regions[region]? with
  | none => rfl
  | some chunk =>
      rw [Option.map_eq_map, Option.map_some, Option.getD_some]
      dsimp only
      split
      · rfl
      · rename_i outside
        obtain ⟨inside, at_region⟩ := List.getElem?_eq_some_iff.mp found
        have unharmed : chunk.damage offset = disk.regions[region] := by
          rw [Chunk.damage, List.modify_eq_self (Nat.le_of_not_lt outside), at_region]
        rw [unharmed, List.set_getElem_self]

end Disk

namespace DiskLedger

/-- The serial numbers tell the regions apart, and the next one is new. -/
structure Numbered (ledger : DiskLedger) : Prop where
  nodup : ledger.serials.Nodup
  serial_lt : ∀ serial ∈ ledger.serials, serial < ledger.next
  atSync_lt : ∀ serial ∈ ledger.atSync, serial < ledger.next

/-- The ledger accounts for the disk. -/
structure Describes (ledger : DiskLedger) (disk : Disk) : Prop where
  numbered : ledger.Numbered
  regions : disk.regions = ledger.present.map Prod.snd
  ordered : disk.regions.Pairwise (·.lsn < ·.lsn)
  synced_le : disk.synced ≤ disk.regions.length
  /-- The regions before the mark are the ones that the last sync found and that were not
  torn off since. -/
  marked : ledger.serials.take disk.synced = ledger.atSync.filter (· ∉ ledger.torn)
  /-- The regions behind the mark are none of these. -/
  unmarked : ∀ serial ∈ ledger.serials.drop disk.synced, serial ∉ ledger.atSync

theorem describes_blank : blank.Describes .empty :=
  ⟨⟨.nil, nofun, nofun⟩, rfl, .nil, Nat.le_refl 0, rfl, nofun⟩

variable {ledger : DiskLedger} {disk : Disk}

theorem serials_take (ledger : DiskLedger) (count : Nat) :
    ledger.serials.take count = (ledger.present.take count).map Prod.fst :=
  List.map_take.symm

theorem Describes.length_serials (describes : ledger.Describes disk) :
    ledger.serials.length = disk.regions.length := by
  rw [serials, describes.regions, List.length_map, List.length_map]

/-- The safe regions are the ones before the mark. -/
theorem Describes.safe_eq (describes : ledger.Describes disk) :
    ledger.safe = ledger.present.take disk.synced := by
  have before : ∀ region ∈ ledger.present.take disk.synced, ledger.Safe region.1 := by
    intro region member
    have serial_mem : region.1 ∈ ledger.serials.take disk.synced := by
      rw [serials_take]
      exact List.mem_map_of_mem member
    rw [describes.marked, List.mem_filter, decide_eq_true_eq] at serial_mem
    exact serial_mem
  have behind : ∀ region ∈ ledger.present.drop disk.synced, ¬ ledger.Safe region.1 := by
    intro region member safe
    have serial_mem : region.1 ∈ ledger.serials.drop disk.synced := by
      rw [serials, ← List.map_drop]
      exact List.mem_map_of_mem member
    exact describes.unmarked region.1 serial_mem safe.1
  have kept : (ledger.present.take disk.synced).filter (ledger.Safe ·.1) =
      ledger.present.take disk.synced :=
    List.filter_eq_self.mpr fun region member => decide_eq_true (before region member)
  have lost : (ledger.present.drop disk.synced).filter (ledger.Safe ·.1) = [] := by
    rw [List.filter_eq_nil_iff]
    intro region member
    rw [decide_eq_true_eq]
    exact behind region member
  calc
    ledger.safe = (ledger.present.take disk.synced ++ ledger.present.drop disk.synced).filter
        (ledger.Safe ·.1) := by rw [List.take_append_drop, safe]
    _ = ledger.present.take disk.synced := by
        rw [List.filter_append, kept, lost, List.append_nil]

/-- No region is missing among the safe ones. -/
theorem Describes.serials_safe (describes : ledger.Describes disk) :
    ledger.safe.map Prod.fst = ledger.atSync.filter (· ∉ ledger.torn) := by
  rw [describes.safe_eq, ← serials_take, describes.marked]

/-! ## What work does -/

theorem Numbered.of_sublist {other : DiskLedger} (numbered : ledger.Numbered)
    (sublist : other.serials.Sublist ledger.serials) (same_next : other.next = ledger.next)
    (same_atSync : other.atSync = ledger.atSync) : other.Numbered where
  nodup := numbered.nodup.sublist sublist
  serial_lt serial member := same_next ▸ numbered.serial_lt serial (sublist.subset member)
  atSync_lt serial member := same_next ▸ numbered.atSync_lt serial (same_atSync ▸ member)

theorem serials_push (ledger : DiskLedger) (chunk : Chunk) :
    (ledger.push chunk).serials = ledger.serials ++ [ledger.next] :=
  List.map_append

theorem Numbered.push (numbered : ledger.Numbered) (chunk : Chunk) :
    (ledger.push chunk).Numbered where
  nodup := by
    rw [serials_push, List.nodup_append]
    refine ⟨numbered.nodup, List.pairwise_singleton _ _, ?_⟩
    intro serial member new same
    cases List.mem_singleton.mp same
    exact Nat.ne_of_lt (numbered.serial_lt serial member)
  serial_lt := by
    rw [serials_push, List.forall_mem_append, List.forall_mem_singleton]
    exact ⟨fun serial member => Nat.lt_succ_of_lt (numbered.serial_lt serial member),
      Nat.lt_succ_self _⟩
  atSync_lt serial member := Nat.lt_succ_of_lt (numbered.atSync_lt serial member)

theorem Describes.push (describes : ledger.Describes disk) {chunk : Chunk}
    (above : ∀ old ∈ disk.regions, old.lsn < chunk.lsn) :
    (ledger.push chunk).Describes { disk with regions := disk.regions ++ [chunk] } := by
  have synced_le : disk.synced ≤ ledger.serials.length := by
    rw [describes.length_serials]
    exact describes.synced_le
  exact {
    numbered := describes.numbered.push chunk
    regions := by
      rw [DiskLedger.push, List.map_append, describes.regions]
      rfl
    ordered := by
      refine List.pairwise_append.mpr ⟨describes.ordered, List.pairwise_singleton _ _, ?_⟩
      intro old member new same
      cases List.mem_singleton.mp same
      exact above old member
    synced_le := by
      rw [List.length_append]
      exact Nat.le_trans describes.synced_le (Nat.le_add_right _ _)
    marked := by
      rw [serials_push, List.take_append_of_le_length synced_le]
      exact describes.marked
    unmarked := by
      rw [serials_push, List.drop_append_of_le_length synced_le, List.forall_mem_append,
        List.forall_mem_singleton]
      exact ⟨describes.unmarked, fun found =>
        Nat.lt_irrefl _ (describes.numbered.atSync_lt _ found)⟩ }

theorem Describes.write (describes : ledger.Describes disk) (bytes : Bytes) (lsn : Nat) :
    (ledger.note (.write bytes lsn)).Describes (disk.after (.write bytes lsn)) := by
  have same : (∀ region ∈ ledger.present, region.2.lsn < lsn) ↔
      ∀ chunk ∈ disk.regions, chunk.lsn < lsn := by
    rw [describes.regions, List.forall_mem_map]
  rw [note, Disk.after, Disk.write_eq describes.ordered]
  by_cases above : ∀ chunk ∈ disk.regions, chunk.lsn < lsn
  · rw [if_pos (same.mpr above), if_pos above]
    exact describes.push above
  · rw [if_neg (mt same.mp above), if_neg above]
    exact describes

theorem Describes.sync (describes : ledger.Describes disk) :
    (ledger.note .sync).Describes (disk.after .sync) := by
  have whole : ledger.serials.length ≤ disk.regions.length :=
    Nat.le_of_eq describes.length_serials
  exact {
    describes with
    numbered := { describes.numbered with atSync_lt := describes.numbered.serial_lt }
    synced_le := Nat.le_refl _
    marked := by
      have untorn : ∀ serial ∈ ledger.serials, decide (serial ∉ ([] : List Nat)) = true :=
        fun serial _ => decide_eq_true List.not_mem_nil
      exact (List.take_of_length_le whole).trans (List.filter_eq_self.mpr untorn).symm
    unmarked := by
      have none_behind : ledger.serials.drop disk.regions.length = [] :=
        List.drop_of_length_le whole
      intro serial member
      exact absurd (none_behind ▸ member) List.not_mem_nil }

/-- Without repetitions, a list that loses its last element loses it from each start that has
it, and nothing else. -/
theorem take_dropLast {list : List Nat} (nodup : list.Nodup) (count : Nat) :
    list.dropLast.take count = (list.take count).filter (· ∉ list.getLast?.toList) := by
  rcases List.eq_nil_or_concat' list with rfl | ⟨front, last, rfl⟩
  · rw [List.dropLast_nil, List.take_nil]
    rfl
  · have differs : ∀ serial ∈ front.take count, decide (serial ∉ [last]) = true := by
      intro serial member
      refine decide_eq_true fun same => ?_
      exact (List.nodup_append.mp nodup).2.2 serial (List.mem_of_mem_take member) last
        List.mem_cons_self (List.mem_singleton.mp same)
    have gone : ([last].take (count - front.length)).filter (· ∉ [last]) = [] := by
      rw [List.filter_eq_nil_iff]
      intro serial member
      have same := List.mem_of_mem_take member
      simpa using same
    rw [List.dropLast_concat, List.getLast?_concat, Option.toList_some, List.take_append,
      List.filter_append, List.filter_eq_self.mpr differs, gone, List.append_nil]

theorem Describes.tearTail (describes : ledger.Describes disk) :
    (ledger.note .tearTail).Describes (disk.after .tearTail) := by
  have serials_eq : (ledger.note .tearTail).serials = ledger.serials.dropLast :=
    List.map_dropLast
  have length_eq : disk.regions.dropLast.length = ledger.serials.dropLast.length := by
    rw [List.length_dropLast, List.length_dropLast, describes.length_serials]
  exact {
    numbered := by
      refine describes.numbered.of_sublist ?_ rfl rfl
      rw [serials_eq]
      exact List.dropLast_sublist _
    regions := by
      rw [Disk.after, Disk.tearTail, describes.regions]
      exact List.map_dropLast.symm
    ordered := describes.ordered.sublist (List.dropLast_sublist _)
    synced_le := Nat.min_le_right _ _
    marked := by
      change (ledger.note .tearTail).serials.take (min disk.synced disk.regions.dropLast.length) =
        ledger.atSync.filter (· ∉ ledger.serials.getLast?.toList ++ ledger.torn)
      rw [serials_eq, length_eq, ← List.take_eq_take_min, take_dropLast describes.numbered.nodup,
        describes.marked, List.filter_filter]
      refine List.filter_congr fun serial _ => ?_
      simp
    unmarked := by
      change ∀ serial ∈ (ledger.note .tearTail).serials.drop
        (min disk.synced disk.regions.dropLast.length), serial ∉ ledger.atSync
      rw [serials_eq, length_eq, ← List.drop_eq_drop_min]
      intro serial member
      have behind := ((List.dropLast_sublist ledger.serials).drop disk.synced).subset member
      exact describes.unmarked serial behind }

theorem Describes.discardUnsynced (describes : ledger.Describes disk) :
    (ledger.note .discardUnsynced).Describes (disk.after .discardUnsynced) := by
  have serials_eq : (ledger.note .discardUnsynced).serials = ledger.serials.take disk.synced := by
    rw [serials_take, ← describes.safe_eq]
    rfl
  have length_eq : (disk.regions.take disk.synced).length = disk.synced :=
    List.length_take_of_le describes.synced_le
  exact {
    numbered := by
      refine describes.numbered.of_sublist ?_ rfl rfl
      rw [serials_eq]
      exact List.take_sublist _ _
    regions := by
      rw [Disk.after, Disk.discardUnsynced, describes.regions, ← List.map_take, note,
        describes.safe_eq]
    ordered := describes.ordered.sublist (List.take_sublist _ _)
    synced_le := Nat.le_of_eq length_eq.symm
    marked := by
      rw [serials_eq]
      change (ledger.serials.take disk.synced).take disk.synced = _
      rw [List.take_take, Nat.min_self, describes.marked]
      rfl
    unmarked := by
      rw [serials_eq]
      change ∀ serial ∈ (ledger.serials.take disk.synced).drop disk.synced, _
      rw [List.drop_of_length_le (List.length_take_le _ _)]
      exact fun serial member => absurd member List.not_mem_nil }

/-- What is read off the elements of a list after a change of one of them. -/
theorem map_modify {α β : Type} {look : α → β} {change : α → α} {seen : β → β}
    (sees : ∀ element, look (change element) = seen (look element)) (list : List α)
    (index : Nat) : (list.modify index change).map look = (list.map look).modify index seen := by
  refine List.ext_getElem? fun other => ?_
  rw [List.getElem?_map, List.getElem?_modify, List.getElem?_modify, List.getElem?_map]
  cases list[other]? with
  | none => rfl
  | some element =>
      by_cases same : index = other
      · simp [same, sees]
      · simp [same]

theorem map_modify_of_unseen {α β : Type} {look : α → β} {change : α → α}
    (unseen : ∀ element, look (change element) = look element) (list : List α) (index : Nat) :
    (list.modify index change).map look = list.map look := by
  have seen : (list.modify index change).map look = (list.map look).modify index id :=
    map_modify unseen list index
  rw [seen, List.modify_id]

theorem Describes.corrupt (describes : ledger.Describes disk) (region offset : Nat) :
    (ledger.note (.corrupt region offset)).Describes (disk.after (.corrupt region offset)) := by
  have serials_eq : (ledger.note (.corrupt region offset)).serials = ledger.serials :=
    map_modify_of_unseen (fun _ => by rfl) ledger.present region
  have lsns_eq : (disk.regions.modify region (·.damage offset)).map Chunk.lsn =
      disk.regions.map Chunk.lsn := map_modify_of_unseen (fun _ => by rfl) _ _
  rw [Disk.after, Disk.corrupt_eq]
  exact {
    numbered := describes.numbered.of_sublist (serials_eq ▸ List.Sublist.refl _) rfl rfl
    regions := by
      rw [describes.regions]
      exact (map_modify (fun _ => by rfl) ledger.present region).symm
    ordered := by
      rw [← List.pairwise_map, lsns_eq, List.pairwise_map]
      exact describes.ordered
    synced_le := by
      rw [List.length_modify]
      exact describes.synced_le
    marked := by
      rw [serials_eq]
      exact describes.marked
    unmarked := by
      rw [serials_eq]
      exact describes.unmarked }

theorem Describes.after (describes : ledger.Describes disk) (work : DiskWork) :
    (ledger.note work).Describes (disk.after work) := by
  cases work with
  | write bytes lsn => exact describes.write bytes lsn
  | sync => exact describes.sync
  | seek | read => exact describes
  | tearTail => exact describes.tearTail
  | discardUnsynced => exact describes.discardUnsynced
  | corrupt region offset => exact describes.corrupt region offset

theorem Describes.crashed (describes : ledger.Describes disk) (point : CrashPoint) :
    (ledger.crashed point).Describes (disk.crashImage point) := by
  cases point with
  | afterWrite => exact describes
  | loseUnsynced => exact describes.discardUnsynced
  | tearTail => exact describes.tearTail

end DiskLedger

end Logbook

import Logbook.Storage.Memory

/-!
# Reading a memory device

A device in memory reads back the regions of its disk, wherever its cursor was.
-/

namespace Logbook

/-- A disk takes a region, or refuses it for its number and is left as it was. -/
theorem Disk.write_cases (disk : Disk) (bytes : Bytes) (lsn : Nat) :
    disk.write bytes lsn =
        (.ok bytes.length, { disk with regions := disk.regions ++ [⟨lsn, bytes⟩] }) ∨
      ∃ last, disk.regions.getLast? = some last ∧ lsn ≤ last.lsn ∧
        disk.write bytes lsn = (.error (.outOfOrder lsn last.lsn), disk) := by
  unfold write
  cases newest : disk.regions.getLast? with
  | none => exact .inl rfl
  | some last =>
      dsimp only
      split
      · rename_i le
        exact .inr ⟨last, rfl, le, rfl⟩
      · exact .inl rfl

namespace MemoryDevice

theorem readBackward_of_cursor {disk : Disk} {count : Nat}
    (le : count ≤ disk.regions.length) :
    Device.readBackward count (⟨disk, count⟩ : MemoryDevice) =
      (disk.regions.take count).reverse.map .ok := by
  induction count with
  | zero => rfl
  | succ count ih =>
      have found : disk.regions[count]? = some disk.regions[count] :=
        List.getElem?_eq_getElem le
      have read : Device.read (⟨disk, count + 1⟩ : MemoryDevice) .backward =
          (.ok (some disk.regions[count]), ⟨disk, count⟩) := by
        simp only [Device.read, MemoryDevice.read, Nat.min_eq_left le, Nat.succ_ne_zero,
          ↓reduceIte, Nat.add_sub_cancel, found]
      rw [Device.readBackward, read]
      simp only [ih (Nat.le_of_succ_le le)]
      rw [List.take_succ_eq_append_getElem le, List.reverse_append]
      rfl

theorem reads (device : MemoryDevice) : Device.Reads device device.disk.regions := by
  have read := readBackward_of_cursor (Nat.le_refl device.disk.regions.length)
  rw [List.take_length] at read
  exact read

end MemoryDevice

end Logbook

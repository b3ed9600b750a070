import Logbook.Proofs.Storage.Memory
import Logbook.Storage.Volume

/-!
# What a log relies on

A log relies on few properties of its device. In the states that a device can be
in, it reads back its regions; a write that succeeds puts one region behind them,
and is out of order only with a number that is not above that of the newest one;
a sync that succeeds leaves them alone. A device may fail in other ways, and then
promises nothing.
-/

namespace Logbook

/-- A device that keeps what was written to it, in order. -/
class Device.Reliable (δ : Type) [Device δ] where
  /-- The states that the device can be in. -/
  Intact : δ → Prop
  /-- An intact device reads back some regions. -/
  reads : ∀ device : δ, Intact device → ∃ chunks, Device.Reads device chunks
  write_ok : ∀ (device after : δ) (bytes : Bytes) (lsn count : Nat) (chunks : List Chunk),
    Intact device → Device.Reads device chunks →
    Device.write device bytes lsn = (.ok count, after) →
    Intact after ∧ Device.Reads after (chunks ++ [⟨lsn, bytes⟩])
  sync_ok : ∀ (device after : δ) (chunks : List Chunk),
    Intact device → Device.Reads device chunks → Device.sync device = (.ok (), after) →
    Intact after ∧ Device.Reads after chunks
  le_of_outOfOrder : ∀ (device after : δ) (bytes : Bytes) (lsn number last : Nat)
    (chunks : List Chunk), Intact device → Device.Reads device chunks →
    Device.write device bytes lsn = (.error (.outOfOrder number last), after) →
    ∃ chunk, chunks.getLast? = some chunk ∧ lsn ≤ chunk.lsn

theorem Device.Reads.unique {δ : Type} [Device δ] {device : δ} {chunks others : List Chunk}
    (reads : Device.Reads device chunks) (reads' : Device.Reads device others) :
    chunks = others := by
  have same := reads.symm.trans reads'
  rw [List.map_inj_right (fun _ _ => Except.ok.inj)] at same
  exact List.reverse_inj.mp same

namespace MemoryDevice

theorem write_eq (device : MemoryDevice) (bytes : Bytes) (lsn : Nat) :
    Device.write device bytes lsn =
      ((device.disk.write bytes lsn).1,
        { device with disk := (device.disk.write bytes lsn).2 }) :=
  rfl

/-- A memory device is intact in every state. -/
instance : Device.Reliable MemoryDevice where
  Intact _ := True
  reads device _ := ⟨_, device.reads⟩
  write_ok device after bytes lsn count chunks _ reads written := by
    cases reads.unique device.reads
    rw [write_eq] at written
    rcases device.disk.write_cases bytes lsn with ok | ⟨last, _, _, refused⟩
    · rw [ok] at written
      cases written
      exact ⟨trivial, MemoryDevice.reads _⟩
    · rw [refused] at written
      cases written
  sync_ok device after chunks _ reads synced := by
    cases reads.unique device.reads
    cases synced
    exact ⟨trivial, MemoryDevice.reads _⟩
  le_of_outOfOrder device after bytes lsn number last chunks _ reads refused := by
    cases reads.unique device.reads
    rw [write_eq] at refused
    rcases device.disk.write_cases bytes lsn with ok | ⟨last, newest, le, _⟩
    · rw [ok] at refused
      cases refused
    · exact ⟨last, newest, le⟩

end MemoryDevice

section Around

variable {δ ε : Type} [Device δ] [Device ε] (around : δ → ε)

theorem readBackward_around
    (read : ∀ device, Device.read (around device) .backward =
      ((Device.read device .backward).1, around (Device.read device .backward).2))
    (count : Nat) (device : δ) :
    Device.readBackward count (around device) = Device.readBackward count device := by
  induction count generalizing device with
  | zero => rfl
  | succ count ih =>
      rw [Device.readBackward, Device.readBackward, read]
      rcases Device.read device .backward with ⟨_ | _ | chunk, after⟩
      · rfl
      · rfl
      · exact congrArg _ (ih after)

/-- A device around another one that passes seeks and reads on reads back the same. -/
theorem newestFirst_around
    (seek : ∀ device, Device.seek (around device) .end =
      ((Device.seek device .end).1, around (Device.seek device .end).2))
    (read : ∀ device, Device.read (around device) .backward =
      ((Device.read device .backward).1, around (Device.read device .backward).2))
    (count : ∀ device, Device.regionCount (around device) = Device.regionCount device)
    (device : δ) : Device.newestFirst (around device) = Device.newestFirst device := by
  unfold Device.newestFirst
  rw [seek]
  rcases Device.seek device .end with ⟨_ | _, after⟩
  · rfl
  · dsimp only
    rw [count, readBackward_around around read]

end Around

namespace Faulty

variable {δ : Type} [Device δ]

theorem newestFirst_eq (device : Faulty δ) :
    Device.newestFirst device = Device.newestFirst device.inner :=
  newestFirst_around (Faulty.mk · device.switch) (fun _ => rfl) (fun _ => rfl)
    (fun _ => rfl) device.inner

/-- A write fails by command, or is what the device behind the switch makes of it. -/
theorem write_cases (device : Faulty δ) (bytes : Bytes) (lsn : Nat) :
    (device.write bytes lsn).1 = .error (.io (.simulatedCrash .write)) ∨
      (device.write bytes lsn).1 = (Device.write device.inner bytes lsn).1 ∧
        (device.write bytes lsn).2.inner = (Device.write device.inner bytes lsn).2 := by
  unfold write
  split
  · exact .inl rfl
  · dsimp only [onSwitch]
    rcases Device.write device.inner bytes lsn with ⟨_ | count, inner⟩
    · exact .inr ⟨rfl, rfl⟩
    · exact .inr ⟨rfl, rfl⟩

theorem sync_cases (device : Faulty δ) :
    device.sync.1 = .error (.io (.simulatedCrash .sync)) ∨
      device.sync.1 = (Device.sync device.inner).1 ∧
        device.sync.2.inner = (Device.sync device.inner).2 := by
  unfold sync
  split
  · exact .inl rfl
  · exact .inr ⟨rfl, rfl⟩

/-- A switch that breaks a device does not mix up what it holds. -/
instance [Device.Reliable δ] : Device.Reliable (Faulty δ) where
  Intact device := Device.Reliable.Intact device.inner
  reads device intact := by
    rcases Device.Reliable.reads device.inner intact with ⟨chunks, reads⟩
    exact ⟨chunks, (newestFirst_eq device).trans reads⟩
  write_ok device after bytes lsn count chunks intact reads written := by
    change device.write bytes lsn = _ at written
    rcases device.write_cases bytes lsn with crashed | ⟨result, inner⟩
    · rw [written] at crashed
      cases crashed
    · rw [written] at result inner
      obtain ⟨intact, reads⟩ := Device.Reliable.write_ok device.inner after.inner bytes lsn count
        chunks intact ((newestFirst_eq device).symm.trans reads) (Prod.ext result.symm inner.symm)
      exact ⟨intact, (newestFirst_eq after).trans reads⟩
  sync_ok device after chunks intact reads synced := by
    change device.sync = _ at synced
    rcases device.sync_cases with crashed | ⟨result, inner⟩
    · rw [synced] at crashed
      cases crashed
    · rw [synced] at result inner
      obtain ⟨intact, reads⟩ := Device.Reliable.sync_ok device.inner after.inner chunks intact
        ((newestFirst_eq device).symm.trans reads) (Prod.ext result.symm inner.symm)
      exact ⟨intact, (newestFirst_eq after).trans reads⟩
  le_of_outOfOrder device after bytes lsn number last chunks intact reads refused := by
    change device.write bytes lsn = _ at refused
    rcases device.write_cases bytes lsn with crashed | ⟨result, inner⟩
    · rw [refused] at crashed
      cases crashed
    · rw [refused] at result inner
      exact Device.Reliable.le_of_outOfOrder device.inner after.inner bytes lsn number last chunks
        intact ((newestFirst_eq device).symm.trans reads) (Prod.ext result.symm inner.symm)

end Faulty

end Logbook

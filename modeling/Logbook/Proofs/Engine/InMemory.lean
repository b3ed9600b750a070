import Logbook.Proofs.Engine.Accepted
import Logbook.Proofs.Storage.Memory
import Logbook.Storage.Volume

/-!
# Engines in memory

A disk in memory refuses a write only for its number, and no sync. So nothing that
an engine asks of it fails, as long as nobody else lays hands on the device.
-/

namespace Logbook

namespace Volume

/-- The volume is on a disk in memory. -/
def InMemory (volume : Volume) : Prop := ∃ device, volume = .memory device

theorem write_memory (device : MemoryDevice) (bytes : Bytes) (lsn : Nat) :
    (∃ count after, Device.write (memory device) bytes lsn = (.ok count, memory after)) ∨
      ∃ number last after, Device.write (memory device) bytes lsn =
        (.error (.outOfOrder number last), memory after) := by
  have written : Device.write (memory device) bytes lsn =
      ((device.disk.write bytes lsn).1,
        memory { device with disk := (device.disk.write bytes lsn).2 }) := rfl
  rw [written]
  rcases device.disk.write_cases bytes lsn with ok | ⟨last, _, _, refused⟩
  · rw [ok]
    exact .inl ⟨_, _, rfl⟩
  · rw [refused]
    exact .inr ⟨_, _, _, rfl⟩

theorem sync_memory (device : MemoryDevice) : ∃ after,
    Device.sync (memory device) = (.ok (), memory after) :=
  ⟨_, rfl⟩

end Volume

namespace Engine

variable {α σ : Type} {app : Application α σ} {engine : Engine σ Volume}

theorem inMemory_persist {volume : Volume} (memory : volume.InMemory) (batch : Batch) :
    (persist volume batch).2.InMemory := by
  rcases memory with ⟨device, rfl⟩
  unfold persist
  split
  · exact ⟨_, rfl⟩
  · rename_i region _
    rcases Volume.write_memory device region batch.last with
      ⟨count, after, written⟩ | ⟨number, last, after, written⟩
    · rw [written]
      dsimp only
      split
      · exact ⟨_, rfl⟩
      · exact ⟨_, rfl⟩
    · rw [written]
      exact ⟨_, rfl⟩

theorem inMemory_write (memory : engine.device.InMemory) : engine.write.device.InMemory := by
  unfold write
  split
  · rename_i batch _ _ _
    have persisted := inMemory_persist memory batch
    split
    · rename_i failed
      rw [failed] at persisted
      exact persisted
    · rename_i ok
      rw [ok] at persisted
      exact persisted
  · exact memory

theorem inMemory_finish (memory : engine.device.InMemory) : engine.finish.device.InMemory := by
  unfold finish
  split
  · exact memory
  · split
    · exact memory
    · rcases memory with ⟨device, held⟩
      rcases Volume.sync_memory device with ⟨after, synced⟩
      rw [held, synced]
      exact ⟨_, rfl⟩

/-- An engine in memory stays there. -/
theorem inMemory_move (memory : engine.device.InMemory) {move : Move α Volume}
    (inside : move.Inside) : (engine.move app move).device.InMemory := by
  cases move with
  | append action sync =>
      rcases log_frame app engine (.plain action) sync with ⟨_, _, _, logged⟩
      rw [Engine.move, append, logged]
      exact memory
  | appendMember txn action =>
      rcases log_frame app engine (.member txn action) false with ⟨_, _, _, logged⟩
      rw [Engine.move, logged]
      exact memory
  | commit txn sync =>
      rcases log_frame app engine (.commit txn) sync with ⟨_, _, _, logged⟩
      rw [Engine.move, logged]
      exact memory
  | collect =>
      rcases collect_frame engine with ⟨_, _, _, collected⟩
      rw [Engine.move, collected]
      exact memory
  | closeBarrier =>
      rw [Engine.move, closeBarrier]
      split <;> exact memory
  | write => exact inMemory_write memory
  | finish => exact inMemory_finish memory
  | beginTransaction | setLowestLive | requestStop => exact memory
  | onDevice => exact absurd inside id

/-- A disk in memory does what a move asks of it. -/
theorem faultless_of_inMemory (memory : engine.device.InMemory) {move : Move α Volume}
    (inside : move.Inside) : engine.Faultless move := by
  rcases memory with ⟨device, held⟩
  cases move with
  | write =>
      intro _ batch _ region _ _
      rw [held]
      rcases Volume.write_memory device region batch.last with
        ⟨count, after, written⟩ | ⟨number, last, after, written⟩
      · rw [written]
        intro _
        rcases Volume.sync_memory after with ⟨synced, sync⟩
        exact ⟨_, sync⟩
      · rw [written]
        exact ⟨number, last, rfl⟩
  | finish =>
      intro _ _ _
      rw [held]
      rcases Volume.sync_memory device with ⟨synced, sync⟩
      exact ⟨_, sync⟩
  | onDevice => exact absurd inside id
  | append | appendMember | commit | beginTransaction | setLowestLive | closeBarrier
  | requestStop | collect => exact trivial

/-- A disk in memory does what a run asks of it. -/
theorem faultlessRun_of_inMemory (memory : engine.device.InMemory)
    {moves : List (Move α Volume)} (inside : ∀ move ∈ moves, move.Inside) :
    engine.FaultlessRun app moves := by
  induction moves generalizing engine with
  | nil => trivial
  | cons move moves ih =>
      rw [List.forall_mem_cons] at inside
      exact ⟨faultless_of_inMemory memory inside.1, ih (inMemory_move memory inside.1) inside.2⟩

theorem inMemory_run (memory : engine.device.InMemory) {moves : List (Move α Volume)}
    (inside : ∀ move ∈ moves, move.Inside) : (engine.run app moves).device.InMemory := by
  induction moves generalizing engine with
  | nil => exact memory
  | cons move moves ih =>
      rw [List.forall_mem_cons] at inside
      exact ih (inMemory_move memory inside.1) inside.2

end Engine

end Logbook

import Logbook.Storage.DiskCall

/-!
# What a crash may take

A region is safe if it was on its disk at the last sync and has not been torn off since. A
ledger keeps account of that: it numbers the regions of a disk as they are written, because
the number of a record may come back once its region is gone, and notes which of them the
last sync found and which were torn off after it. An audit is a room with a ledger for each
of its disks.
-/

namespace Logbook

/-- The account of what was done to a disk, with regions told apart by serial numbers. -/
structure DiskLedger where
  /-- The regions on the disk in the order they were written. -/
  present : List (Nat × Chunk)
  /-- The serial number of the next region. -/
  next : Nat
  /-- The regions that the last sync found. -/
  atSync : List Nat
  /-- The regions that were torn off since then. -/
  torn : List Nat
deriving DecidableEq, Repr

namespace DiskLedger

/-- The account of a disk that nothing was done to. -/
def blank : DiskLedger := ⟨[], 0, [], []⟩

/-- The serial numbers of the regions on the disk. -/
def serials (ledger : DiskLedger) : List Nat :=
  ledger.present.map Prod.fst

/-- The region was on the disk at the last sync and has not been torn off since. -/
def Safe (ledger : DiskLedger) (serial : Nat) : Prop :=
  serial ∈ ledger.atSync ∧ serial ∉ ledger.torn

instance (ledger : DiskLedger) (serial : Nat) : Decidable (ledger.Safe serial) :=
  inferInstanceAs (Decidable (_ ∧ _))

/-- The safe regions on the disk. -/
def safe (ledger : DiskLedger) : List (Nat × Chunk) :=
  ledger.present.filter (ledger.Safe ·.1)

/-- The account after a region was written. -/
def push (ledger : DiskLedger) (chunk : Chunk) : DiskLedger :=
  { ledger with
    present := ledger.present ++ [(ledger.next, chunk)]
    next := ledger.next + 1 }

/-- The account after some work on the disk. -/
def note (ledger : DiskLedger) : DiskWork → DiskLedger
  | .write bytes lsn =>
      if ∀ region ∈ ledger.present, region.2.lsn < lsn then ledger.push ⟨lsn, bytes⟩
      else ledger
  | .sync => { ledger with atSync := ledger.serials, torn := [] }
  | .seek _ | .read _ => ledger
  | .tearTail =>
      { ledger with
        present := ledger.present.dropLast
        torn := ledger.serials.getLast?.toList ++ ledger.torn }
  | .discardUnsynced => { ledger with present := ledger.safe }
  | .corrupt region offset =>
      { ledger with
        present := ledger.present.modify region fun (serial, chunk) =>
          (serial, chunk.damage offset) }

/-- The account of a crash image. -/
def crashed (ledger : DiskLedger) : CrashPoint → DiskLedger
  | .afterWrite => ledger
  | .loseUnsynced => ledger.note .discardUnsynced
  | .tearTail => ledger.note .tearTail

end DiskLedger

namespace DiskRoom

/-- A room and the ledgers of its disks, in the order of the disks. -/
structure Audit where
  room : DiskRoom
  ledgers : List DiskLedger
deriving DecidableEq, Repr

namespace Audit

/-- A room with one empty disk, of which nothing has been noted. -/
def start : Audit := ⟨.single, [.blank]⟩

/-- The ledger of the disk that a handle is on. -/
def ledger? (audit : Audit) (handle : Nat) : Option DiskLedger :=
  (audit.room.number? handle).bind (audit.ledgers[·]?)

/-- The ledgers after a call. -/
def notes (audit : Audit) : DiskCall → List DiskLedger
  | .create => audit.ledgers ++ [.blank]
  | .work handle work =>
      match audit.room.number? handle with
      | none => audit.ledgers
      | some number => audit.ledgers.modify number (·.note work)
  | .clone _ => audit.ledgers
  | .fork handle => audit.ledgers ++ (audit.ledger? handle).toList
  | .crash handle point =>
      audit.ledgers ++ ((audit.ledger? handle).map (·.crashed point)).toList

/-- The audit after one more call. -/
def step (audit : Audit) (call : DiskCall) : Audit :=
  ⟨audit.room.call call, audit.notes call⟩

/-- The audit after some more calls. -/
def run (audit : Audit) (calls : List DiskCall) : Audit :=
  calls.foldl step audit

@[simp]
theorem run_nil (audit : Audit) : audit.run [] = audit :=
  rfl

@[simp]
theorem run_cons (audit : Audit) (call : DiskCall) (calls : List DiskCall) :
    audit.run (call :: calls) = (audit.step call).run calls :=
  rfl

end Audit

end DiskRoom

end Logbook

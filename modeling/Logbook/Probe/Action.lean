import Logbook.Application

/-!
# Probes

A probe is an action that has no effect but a trace in a journal: when it was
recorded, replayed or disposed of. Flags make it misbehave on purpose, and its
bucket, its scopes and what it supersedes are as its maker likes, so probes show
what the log does to actions of any kind.

    id (8) | bucket (8) | flags (1) | scope (8) | deleted scope (8)
      | superseded numbers (8 each, to the end)

The scope and the deleted scope are there only if their flags are set.
-/

namespace Logbook.Probe

/-- A probe. -/
structure Action where
  id : UInt64
  bucket : UInt64
  flags : UInt8
  scope : Option UInt64
  deletedScope : Option UInt64
  invalidated : List Nat
deriving DecidableEq, Repr

/-- Flags of a probe. -/
def refuseFlag : UInt8 := 1

/-- Panics when it is replayed. -/
def panicFlag : UInt8 := 2

/-- Belongs to a scope. -/
def scopeFlag : UInt8 := 4

/-- Deletes a scope. -/
def deletesFlag : UInt8 := 8

/-- Panics when it is recorded. -/
def recordPanicFlag : UInt8 := 16

/-- Cannot be encoded. -/
def encodeErrorFlag : UInt8 := 32

/-- Whether a probe has a flag. -/
def Action.Has (action : Action) (flag : UInt8) : Prop := action.flags &&& flag ≠ 0

instance (action : Action) (flag : UInt8) : Decidable (action.Has flag) := by
  unfold Action.Has
  infer_instance

/-- How a probe words that it refuses. -/
def Action.refusal (action : Action) : String := s!"tracked action {action.id} refused"

/-- What probes leave behind, in order. -/
structure Journal where
  recorded : List (UInt64 × Nat)
  replayed : List (UInt64 × UInt64 × Nat)
  disposed : List UInt64
deriving DecidableEq, Repr

/-- A journal without a trace. -/
def Journal.empty : Journal := ⟨[], [], []⟩

namespace Codec

/-- An optional word, if it is there. -/
def encodeWord? (word : Option UInt64) : Bytes :=
  match word with
  | some word => Bytes.ofNat 8 word.toNat
  | none => []

/-- The encoding of a probe. -/
def encode (action : Action) : Except CodecError Bytes :=
  if action.Has encodeErrorFlag then .error (.invalid action.refusal)
  else
    .ok (Bytes.ofNat 8 action.id.toNat ++ Bytes.ofNat 8 action.bucket.toNat ++ [action.flags]
      ++ encodeWord? action.scope ++ encodeWord? action.deletedScope
      ++ action.invalidated.flatMap (Bytes.ofNat 8))

/-- The number in the first `width` bytes, and the rest. -/
def readNat (width : Nat) (bytes : Bytes) : Except CodecError (Nat × Bytes) :=
  match Bytes.readNat? width bytes with
  | some parts => .ok parts
  | none => .error (.truncated width bytes.length)

/-- The word in the first eight bytes, and the rest, if a flag says it is there. -/
def readWord? (present : Bool) (bytes : Bytes) : Except CodecError (Option UInt64 × Bytes) :=
  if present then do
    let (word, bytes) ← readNat 8 bytes
    return (some (UInt64.ofNat word), bytes)
  else .ok (none, bytes)

/-- Eight-byte numbers to the end of the bytes. -/
def readNumbers : Bytes → Except CodecError (List Nat)
  | [] => .ok []
  | b₁ :: b₂ :: b₃ :: b₄ :: b₅ :: b₆ :: b₇ :: b₈ :: rest => do
      let numbers ← readNumbers rest
      return Bytes.toNat [b₁, b₂, b₃, b₄, b₅, b₆, b₇, b₈] :: numbers
  | short => .error (.truncated 8 short.length)

/-- The probe that bytes encode. -/
def decode (bytes : Bytes) : Except CodecError Action := do
  let (id, bytes) ← readNat 8 bytes
  let (bucket, bytes) ← readNat 8 bytes
  let (flags, bytes) ← readNat 1 bytes
  let flags := UInt8.ofNat flags
  let (scope, bytes) ← readWord? (flags &&& scopeFlag ≠ 0) bytes
  let (deletedScope, bytes) ← readWord? (flags &&& deletesFlag ≠ 0) bytes
  let invalidated ← readNumbers bytes
  return ⟨UInt64.ofNat id, UInt64.ofNat bucket, flags, scope, deletedScope, invalidated⟩

end Codec

/-- Recording leaves a trace, unless the probe panics. -/
def Action.record (action : Action) (lsn : Nat) (journal : Journal) :
    Except Panic Journal :=
  if action.Has recordPanicFlag then
    .error ⟨s!"action {action.id} panicked at {Lsn.text lsn}"⟩
  else .ok { journal with recorded := journal.recorded ++ [(action.id, lsn)] }

/-- Replay leaves a trace, unless the probe panics or refuses. -/
def Action.replay (action : Action) (lsn : Nat) (journal : Journal) :
    Except ReplayFault Journal :=
  if action.Has panicFlag then
    .error (.panicked ⟨s!"replay of action {action.id} panicked at {Lsn.text lsn}"⟩)
  else if action.Has refuseFlag then .error (.refused action.refusal)
  else
    .ok { journal with
      replayed := journal.replayed ++ [(action.bucket, action.id, lsn)] }

/-- Probes as an application of the log. -/
def app : Application Action Journal where
  encode := Codec.encode
  decode := Codec.decode
  invalidated := Action.invalidated
  bucket := Action.bucket
  scope := Action.scope
  deletedScope := Action.deletedScope
  record := Action.record
  replay := Action.replay
  dispose action journal := { journal with disposed := journal.disposed ++ [action.id] }

end Logbook.Probe

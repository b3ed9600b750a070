import Logbook.Error
import Logbook.Bytes

/-!
# Applications of the log

The log stores actions without looking inside them. An application says how its
actions are encoded, what recovery may ask of an action, and what an action does
to the state of the application. Each action is consumed once: recorded when it
is first logged, replayed when recovery applies it again, or disposed of when
neither happens.
-/

namespace Logbook

/-- An action gave up in a way that no caller handles. -/
structure Panic where
  message : String
deriving DecidableEq, Repr

/-- How an operation that runs actions ends. -/
inductive Outcome (β : Type) where
  | ok (value : β)
  | failed (error : LogError)
  | panicked (panic : Panic)
deriving DecidableEq, Repr

/-- Why an action was not replayed. -/
inductive ReplayFault where
  /-- The application refuses to apply the action. -/
  | refused (text : String)
  | panicked (panic : Panic)
deriving DecidableEq, Repr

/-- An application with actions `α` and state `σ`. An action that panics or is
refused leaves the state as it was. -/
structure Application (α σ : Type) where
  encode : α → Except CodecError Bytes
  decode : Bytes → Except CodecError α
  /-- The sequence numbers of the earlier actions that an action supersedes. -/
  invalidated : α → List Nat
  /-- Actions of one bucket are replayed one at a time, newest first. -/
  bucket : α → UInt64
  /-- The scope that an action belongs to. -/
  scope : α → Option UInt64
  /-- The scope that an action deletes as a whole. -/
  deletedScope : α → Option UInt64
  /-- Apply an action that has just been given its sequence number. -/
  record : α → Nat → σ → Except Panic σ
  /-- Apply an action again. -/
  replay : α → Nat → σ → Except ReplayFault σ
  /-- Let go of an action without applying it. -/
  dispose : α → σ → σ

end Logbook

import Logbook.Application

/-!
# Errors in full

A caller that has no use for an error gives up with a panic, and the panic shows
the error in full: the name of each cause with its fields, texts in quotes. This
is for the eyes of a programmer; `LogError.message` is the wording for a user.
-/

namespace Logbook

namespace Detail

/-- A character as it appears between quotes. -/
def quoteChar : Char → String
  | '"' => "\\\""
  | '\\' => "\\\\"
  | '\n' => "\\n"
  | '\r' => "\\r"
  | '\t' => "\\t"
  | '\x00' => "\\0"
  | c =>
      if c.toNat < 32 ∨ c.toNat = 127 then
        "\\u\x7b" ++ Hex.padded 1 c.toNat ++ "\x7d"
      else c.toString

/-- A text in quotes. -/
def quote (text : String) : String :=
  "\"" ++ String.join (text.toList.map quoteChar) ++ "\""

/-- A sequence number. -/
def ofLsn (n : Nat) : String := s!"Lsn({n})"

/-- A name with one unnamed field. -/
def wrap (name field : String) : String := s!"{name}({field})"

/-- A name with named fields. -/
def fields (name : String) (items : List (String × String)) : String :=
  name ++ " \x7b " ++ ", ".intercalate (items.map fun (key, value) => s!"{key}: {value}") ++ " \x7d"

end Detail

open Detail

/-- An input or output fault in full. -/
def IoFault.detail (fault : IoFault) : String :=
  let kind :=
    match fault with
    | .frameLimit _ => "InvalidInput"
    | _ => "Other"
  fields "Custom" [("kind", kind), ("error", quote fault.message)]

/-- A storage error in full. -/
def StorageError.detail : StorageError → String
  | .io fault => wrap "Io" fault.detail
  | .corrupted cause => wrap "Corrupted" (quote cause.message)
  | .closed => "Closed"
  | .locked => "Locked"
  | .outOfOrder number previous =>
      fields "OutOfOrder" [("lsn", toString number), ("previous", toString previous)]

/-- A codec error in full. -/
def CodecError.detail : CodecError → String
  | .truncated needed available =>
      fields "Truncated" [("needed", toString needed), ("available", toString available)]
  | .unknownTag tag => wrap "UnknownTag" (toString tag)
  | .invalid text => wrap "Invalid" (quote text)

/-- A recovery error in full. -/
def RecoveryError.detail : RecoveryError → String
  | .gap expected found => fields "LsnGap" [("expected", ofLsn expected), ("found", ofLsn found)]
  | .decode number cause => fields "Decode" [("lsn", ofLsn number), ("source", cause.detail)]
  | .replay number text =>
      fields "Replay"
        [("lsn", ofLsn number), ("source", fields "ReplayError" [("message", quote text)])]
  | .workerLost worker => fields "WorkerLost" [("worker", toString worker)]

/-- A durability failure in full. -/
def DurabilityFailure.detail (failure : DurabilityFailure) : String :=
  fields "DurabilityFailure" [("lsn", ofLsn failure.lsn), ("message", quote failure.cause)]

/-- An error in full. -/
def LogError.detail : LogError → String
  | .storage error => wrap "Storage" error.detail
  | .codec error => wrap "Codec" error.detail
  | .io fault => wrap "Io" fault.detail
  | .integrity number fault =>
      fields "Integrity" [("lsn", ofLsn number), ("message", quote fault.message)]
  | .checksumMismatch number expected actual =>
      fields "ChecksumMismatch"
        [("lsn", ofLsn number), ("expected", toString expected), ("actual", toString actual)]
  | .recovery error => wrap "Recovery" error.detail
  | .durability failure => wrap "Durability" failure.detail
  | .invariant fault => fields "Invariant" [("message", quote fault.message)]
  | .invalidOperation misuse => fields "InvalidOperation" [("message", quote misuse.message)]
  | .shutDown => "ShutDown"

/-- Give up on an error: it becomes a panic that says what could not be done. -/
def Outcome.expect {β : Type} (outcome : Outcome β) (complaint : String) : Outcome β :=
  match outcome with
  | .failed error => .panicked ⟨s!"{complaint}: {error.detail}"⟩
  | outcome => outcome

end Logbook

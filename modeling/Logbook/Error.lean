import Logbook.Region.Format
import Logbook.Storage.Error
import Logbook.Text.Hex

/-!
# Errors of the log

Every failure that the log reports, by cause. A cause carries the values it is
about; its wording is in one function per type, and nothing else in the library
builds a message.
-/

namespace Logbook

/-- Why an action could not be encoded or decoded. Codecs belong to the
application, so the last cause is worded by the codec. -/
inductive CodecError where
  | truncated (needed available : Nat)
  | unknownTag (tag : UInt8)
  | invalid (text : String)
deriving DecidableEq, Repr

/-- The name of the kind of a codec error. -/
def CodecError.kind : CodecError → String
  | .truncated .. => "Truncated"
  | .unknownTag _ => "UnknownTag"
  | .invalid _ => "Invalid"

/-- The wording of a codec error. -/
def CodecError.message : CodecError → String
  | .truncated needed available =>
      s!"payload truncated: needed {needed} bytes, {available} available"
  | .unknownTag tag => "unknown tag " ++ Hex.marked 2 tag.toNat
  | .invalid text => s!"invalid payload: {text}"

/-- Why a byte string is not a region. -/
inductive RegionFault where
  | noHeader (length : Nat)
  | versionRefused (version : Nat) (policy : FormatPolicy)
  | wordsDisagree (first second : Nat)
  | unknownFormat (tag : Nat)
  | truncatedHeader (left : Nat)
  | unexpectedTag (tag : Nat) (format : RegionFormat)
  | overrun (lsn : Nat)
  | unordered (lsn previous : Nat)
  | noRecords
  | endMismatch (last written : Nat)
  /-- A fault that the caller words. -/
  | reported (text : String)
deriving DecidableEq, Repr

/-- The wording of a region fault. -/
def RegionFault.message : RegionFault → String
  | .noHeader length => s!"region of {length} bytes has no header"
  | .versionRefused version policy =>
      s!"region version {version} not accepted under {policy.name} policy"
  | .wordsDisagree first second =>
      "checksum words disagree: " ++ Hex.marked 1 first ++ " vs " ++ Hex.marked 1 second
  | .unknownFormat tag => "unknown region format tag " ++ Hex.marked 4 tag
  | .truncatedHeader left => s!"truncated record header: {left} bytes left"
  | .unexpectedTag tag format =>
      "unexpected record tag " ++ Hex.marked 4 tag ++ s!" in {format.name} region"
  | .overrun lsn => s!"payload of {Lsn.text lsn} overruns region"
  | .unordered lsn previous => s!"record {Lsn.text lsn} does not follow {Lsn.text previous}"
  | .noRecords => "region holds no records"
  | .endMismatch last written =>
      s!"region ends at {Lsn.text last} but was written at {Lsn.text written}"
  | .reported text => text

/-- Why recovery gave up. -/
inductive RecoveryError where
  /-- The record `expected` is missing; `found` is there in its place, or zero
  where the log ends. -/
  | gap (expected found : Nat)
  | decode (lsn : Nat) (cause : CodecError)
  /-- The application refused to replay a record. -/
  | replay (lsn : Nat) (text : String)
  | workerLost (worker : Nat)
deriving DecidableEq, Repr

/-- The name of the kind of a recovery error. -/
def RecoveryError.kind : RecoveryError → String
  | .gap .. => "LsnGap"
  | .decode .. => "Decode"
  | .replay .. => "Replay"
  | .workerLost _ => "WorkerLost"

/-- The wording of a recovery error. -/
def RecoveryError.message : RecoveryError → String
  | .gap expected found => s!"lsn gap: expected {Lsn.text expected}, found {Lsn.text found}"
  | .decode lsn cause => s!"cannot decode record {Lsn.text lsn}: {cause.message}"
  | .replay lsn text => s!"replay of {Lsn.text lsn} failed: {text}"
  | .workerLost worker => s!"replay worker {worker} terminated unexpectedly"

/-- The terminal failure of the writer: the record it was about and the wording
of what stopped it. -/
structure DurabilityFailure where
  lsn : Nat
  cause : String
deriving DecidableEq, Repr

/-- The wording of a durability failure. -/
def DurabilityFailure.message (failure : DurabilityFailure) : String :=
  s!"durability failure writing region at {Lsn.text failure.lsn}: {failure.cause}"

/-- Why a window refused a request. -/
inductive WindowFault where
  | belowBase (lsn base : Nat)
  | filledTwice (lsn : Nat)
  | endOutOfRange (base naturalEnd fixed : Nat)
  | stillOpen (base : Nat)
  /-- A fault that the caller words. -/
  | reported (text : String)
deriving DecidableEq, Repr

/-- The wording of a window fault. -/
def WindowFault.message : WindowFault → String
  | .belowBase lsn base => s!"{Lsn.text lsn} is below window base {Lsn.text base}"
  | .filledTwice lsn => s!"slot for {Lsn.text lsn} filled twice"
  | .endOutOfRange base naturalEnd fixed =>
      s!"cannot close window {Lsn.text base}..={Lsn.text naturalEnd} at {Lsn.text fixed}"
  | .stillOpen base => s!"window {Lsn.text base} is still open"
  | .reported text => text

/-- A request that makes no sense in any state of the log. -/
inductive Misuse where
  | noCapacity
  /-- A misuse that the caller words. -/
  | reported (text : String)
deriving DecidableEq, Repr

/-- The wording of a misuse. -/
def Misuse.message : Misuse → String
  | .noCapacity => "window capacity must be at least 1"
  | .reported text => text

/-- Every failure that the log reports. -/
inductive LogError where
  | storage (error : StorageError)
  | codec (error : CodecError)
  | io (fault : IoFault)
  /-- The region stored at `lsn` is malformed. -/
  | integrity (lsn : Nat) (fault : RegionFault)
  /-- The payloads of the region stored at `lsn` do not have its checksum. -/
  | checksumMismatch (lsn : Nat) (expected actual : UInt32)
  | recovery (error : RecoveryError)
  | durability (failure : DurabilityFailure)
  | invariant (fault : WindowFault)
  | invalidOperation (misuse : Misuse)
  | shutDown
deriving DecidableEq, Repr

namespace LogError

/-- The name of the kind of an error, with that of its cause behind a dot. -/
def kind : LogError → String
  | storage error => s!"Storage.{error.kind}"
  | codec error => s!"Codec.{error.kind}"
  | io _ => "Io"
  | integrity .. => "Integrity"
  | checksumMismatch .. => "ChecksumMismatch"
  | recovery error => s!"Recovery.{error.kind}"
  | durability _ => "Durability"
  | invariant _ => "Invariant"
  | invalidOperation _ => "InvalidOperation"
  | shutDown => "ShutDown"

/-- The wording of an error. -/
def message : LogError → String
  | storage error => s!"storage error: {error.message}"
  | codec error => s!"codec error: {error.message}"
  | io fault => s!"I/O error: {fault.message}"
  | integrity lsn fault => s!"integrity failure in region at {Lsn.text lsn}: {fault.message}"
  | checksumMismatch lsn expected actual =>
      s!"checksum mismatch in region at {Lsn.text lsn}: expected "
        ++ Hex.padded 8 expected.toNat ++ ", got " ++ Hex.padded 8 actual.toNat
  | recovery error => s!"recovery failed: {error.message}"
  | durability failure => failure.message
  | invariant fault => s!"invariant violated: {fault.message}"
  | invalidOperation misuse => s!"invalid operation: {misuse.message}"
  | shutDown => "log engine is shut down"

/-- Whether the log is unusable after the error. A refused action and a
meaningless request leave it as it was. -/
def isFatal : LogError → Bool
  | invalidOperation _ | codec _ => false
  | _ => true

end LogError

/-- Settings that a log can be opened with: windows hold at least one record. -/
def Config.validate (config : Config) : Except LogError Unit :=
  if config.windowCapacity = 0 then .error (.invalidOperation .noCapacity) else .ok ()

theorem Config.validate_eq_ok_iff {config : Config} :
    config.validate = .ok () ↔ 0 < config.windowCapacity := by
  unfold Config.validate
  split <;> simp <;> omega

end Logbook

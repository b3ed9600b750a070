import Logbook.Config

/-!
# Region formats

A region is written in one of two formats. They differ in the version word of
the header, in the tag in front of each record, and in the meaning of the
marker of a record: the current format keeps the record's lowest live sequence
number there, the legacy format the number of the previous record.
-/

namespace Logbook

/-- The format of a region. -/
inductive RegionFormat where
  | current
  | legacy
deriving DecidableEq, Repr

namespace RegionFormat

/-- The version word of the header. -/
def version : RegionFormat → Nat
  | current => 2
  | legacy => 1

/-- The tag in front of each record, in letters `LR` and `L1`. -/
def recordTag : RegionFormat → Nat
  | current => 0x4C52
  | legacy => 0x4C31

/-- The name of a format in messages. -/
def name : RegionFormat → String
  | current => "Current"
  | legacy => "Legacy"

/-- The format with a given version word. -/
def ofVersion? (version : Nat) : Option RegionFormat :=
  if version = RegionFormat.current.version then some current
  else if version = RegionFormat.legacy.version then some legacy
  else none

theorem ofVersion?_eq_some_iff {version : Nat} {format : RegionFormat} :
    ofVersion? version = some format ↔ format.version = version := by
  cases format <;> grind [ofVersion?, RegionFormat.version]

end RegionFormat

/-- Whether a reader under this policy accepts regions of a format. -/
def FormatPolicy.Admits : FormatPolicy → RegionFormat → Prop
  | .auto, _ => True
  | .current, format => format = .current
  | .legacy, format => format = .legacy

instance (policy : FormatPolicy) (format : RegionFormat) : Decidable (policy.Admits format) := by
  cases policy <;> unfold FormatPolicy.Admits <;> infer_instance

/-- Only a reader of the legacy format turns the current one away. -/
theorem FormatPolicy.admits_current {policy : FormatPolicy} (ne : policy ≠ .legacy) :
    policy.Admits .current := by
  cases policy with
  | auto | current => trivial
  | legacy => exact absurd rfl ne

/-- The word of the header that names the checksum, in letters `AD` and `NO`. -/
def ChecksumKind.tag : ChecksumKind → Nat
  | .adler32 => 0x4144
  | .none => 0x4E4F

/-- The checksum that a header word names. -/
def ChecksumKind.ofTag? (tag : Nat) : Option ChecksumKind :=
  if tag = ChecksumKind.adler32.tag then some .adler32
  else if tag = ChecksumKind.none.tag then some .none
  else Option.none

theorem ChecksumKind.ofTag?_eq_some_iff {tag : Nat} {kind : ChecksumKind} :
    ChecksumKind.ofTag? tag = some kind ↔ kind.tag = tag := by
  cases kind <;> grind [ChecksumKind.ofTag?, ChecksumKind.tag]

end Logbook

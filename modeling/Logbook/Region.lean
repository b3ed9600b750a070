import Logbook.Adler32
import Logbook.Error
import Logbook.Record

/-!
# Regions

A region is the byte image of consecutive records, the unit that the log hands
to a device.

    header   version (2) | checksum word (8) | the same word (8) | checksum tag (2)
    record   record tag (2) | lsn (8) | marker (8) | length (8) | payload

All numbers are big-endian. The checksum covers the payloads, one after the
other. A reader accepts a region only if every field is as a writer would have
put it: the format is one the policy admits, the words agree, the records are
consecutive and end at the number the region was written at, and the checksum
is right. Two fields are read and not compared: the words of a region without a
checksum, and the markers of legacy records, whose lowest live number is then
taken to be that of a fresh log.
-/

namespace Logbook.Region

/-- Bytes in front of the first record. -/
def headerSize : Nat := 20

/-- The checksum over the payloads of consecutive records. -/
def payloadSums (records : List Record) : Adler32 :=
  records.foldl (fun sums record => sums.update record.payload) .empty

/-- The checksum word that a writer puts into the header. -/
def checksumWord (checksum : ChecksumKind) (records : List Record) : Nat :=
  match checksum with
  | .adler32 => (payloadSums records).finish.toNat
  | .none => 0

/-- The header with a given checksum word. -/
def encodeHeader (format : RegionFormat) (checksum : ChecksumKind) (word : Nat) : Bytes :=
  Bytes.ofNat 2 format.version ++ Bytes.ofNat 8 word ++ Bytes.ofNat 8 word
    ++ Bytes.ofNat 2 checksum.tag

/-- The marker that a writer gives a record. -/
def marker (format : RegionFormat) (record : Record) : Nat :=
  match format with
  | .current => record.lowest
  | .legacy => record.previous

/-- The image of a record with a given marker. -/
def encodeRecordWith (format : RegionFormat) (marker : Nat) (record : Record) : Bytes :=
  Bytes.ofNat 2 format.recordTag ++ Bytes.ofNat 8 record.lsn ++ Bytes.ofNat 8 marker
    ++ Bytes.ofNat 8 record.payload.length ++ record.payload

/-- The image of a record. -/
def encodeRecord (format : RegionFormat) (record : Record) : Bytes :=
  encodeRecordWith format (marker format record) record

/-- The image of consecutive records. -/
def pack (format : RegionFormat) (checksum : ChecksumKind) (records : List Record) : Bytes :=
  encodeHeader format checksum (checksumWord checksum records)
    ++ records.flatMap (encodeRecord format)

/-- The fields of a header. -/
structure Header where
  version : Nat
  firstWord : Nat
  secondWord : Nat
  tag : Nat
deriving DecidableEq, Repr

/-- The fields of a header and the bytes after it. -/
def readHeader? (bytes : Bytes) : Option (Header × Bytes) := do
  let (version, bytes) ← Bytes.readNat? 2 bytes
  let (firstWord, bytes) ← Bytes.readNat? 8 bytes
  let (secondWord, bytes) ← Bytes.readNat? 8 bytes
  let (tag, bytes) ← Bytes.readNat? 2 bytes
  return (⟨version, firstWord, secondWord, tag⟩, bytes)

/-- The fields in front of a payload. -/
structure RecordHeader where
  tag : Nat
  lsn : Nat
  marker : Nat
  length : Nat
deriving DecidableEq, Repr

/-- The fields in front of a payload and the bytes after them. -/
def readRecordHeader? (bytes : Bytes) : Option (RecordHeader × Bytes) := do
  let (tag, bytes) ← Bytes.readNat? 2 bytes
  let (lsn, bytes) ← Bytes.readNat? 8 bytes
  let (marker, bytes) ← Bytes.readNat? 8 bytes
  let (length, bytes) ← Bytes.readNat? 8 bytes
  return (⟨tag, lsn, marker, length⟩, bytes)

/-- The lowest live number that a reader gives a record with this marker. -/
def lowestOfMarker (format : RegionFormat) (marker : Nat) : Nat :=
  match format with
  | .current => marker
  | .legacy => Lsn.first

/-- One record, which has to be the successor of `previous` if there is one. -/
def readRecord (format : RegionFormat) (previous : Option Nat) (bytes : Bytes) :
    Except RegionFault (Record × Bytes) :=
  match readRecordHeader? bytes with
  | none => .error (.truncatedHeader bytes.length)
  | some (header, rest) =>
      if header.tag ≠ format.recordTag then .error (.unexpectedTag header.tag format)
      else
        match Bytes.split? header.length rest with
        | none => .error (.overrun header.lsn)
        | some (payload, rest) =>
            let record := ⟨header.lsn, lowestOfMarker format header.marker, payload⟩
            match previous with
            | none => .ok (record, rest)
            | some before =>
                if header.lsn = before + 1 then .ok (record, rest)
                else .error (.unordered header.lsn before)

theorem length_lt_of_readNat? {width n : Nat} {bytes rest : Bytes} (positive : 0 < width)
    (found : Bytes.readNat? width bytes = some (n, rest)) : rest.length < bytes.length := by
  simp only [Bytes.readNat?, Option.map_eq_some_iff, Prod.exists, Prod.mk.injEq] at found
  obtain ⟨front, after, split, _, rfl⟩ := found
  obtain ⟨rfl, length⟩ := Bytes.split?_eq_some_iff.mp split
  simp only [List.length_append]
  omega

theorem length_lt_of_readRecordHeader? {bytes rest : Bytes} {header : RecordHeader}
    (found : readRecordHeader? bytes = some (header, rest)) : rest.length < bytes.length := by
  simp only [readRecordHeader?, Option.bind_eq_bind, Option.bind_eq_some_iff, Option.pure_def,
    Option.some.injEq, Prod.mk.injEq, Prod.exists] at found
  obtain ⟨_, r₁, h₁, _, r₂, h₂, _, r₃, h₃, _, r₄, h₄, _, rfl⟩ := found
  have := length_lt_of_readNat? (by decide) h₁
  have := length_lt_of_readNat? (by decide) h₂
  have := length_lt_of_readNat? (by decide) h₃
  have := length_lt_of_readNat? (by decide) h₄
  omega

theorem length_lt_of_readRecord {format : RegionFormat} {previous : Option Nat}
    {bytes rest : Bytes} {record : Record}
    (read : readRecord format previous bytes = .ok (record, rest)) :
    rest.length < bytes.length := by
  unfold readRecord at read
  split at read
  · cases read
  · rename_i header body found
    have shorter := length_lt_of_readRecordHeader? found
    split at read
    · cases read
    · split at read
      · cases read
      · rename_i payload after split
        obtain ⟨rfl, _⟩ := Bytes.split?_eq_some_iff.mp split
        simp only [List.length_append] at shorter
        split at read
        · cases read
          omega
        · split at read
          · cases read
            omega
          · cases read

/-- All records up to the end of the bytes. -/
def readRecords (format : RegionFormat) (previous : Option Nat) (bytes : Bytes) :
    Except RegionFault (List Record) :=
  match bytes with
  | [] => .ok []
  | byte :: rest =>
      match _read : readRecord format previous (byte :: rest) with
      | .error fault => .error fault
      | .ok (record, after) =>
          match readRecords format (some record.lsn) after with
          | .error fault => .error fault
          | .ok records => .ok (record :: records)
termination_by bytes.length
decreasing_by exact length_lt_of_readRecord (by assumption)

/-- The format and checksum that a header announces, if a reader under `policy`
goes on after it. -/
def Header.check (header : Header) (policy : FormatPolicy) :
    Except RegionFault (RegionFormat × ChecksumKind) :=
  match (RegionFormat.ofVersion? header.version).filter (policy.Admits ·) with
  | none => .error (.versionRefused header.version policy)
  | some format =>
      if header.firstWord ≠ header.secondWord then
        .error (.wordsDisagree header.firstWord header.secondWord)
      else
        match ChecksumKind.ofTag? header.tag with
        | none => .error (.unknownFormat header.tag)
        | some checksum => .ok (format, checksum)

/-- A region ends at the number it was written at. -/
def checkEnd (lsn : Nat) (records : List Record) : Except RegionFault Unit :=
  match records.getLast? with
  | none => .error .noRecords
  | some last => if last.lsn = lsn then .ok () else .error (.endMismatch last.lsn lsn)

/-- The payloads have the checksum of the header. -/
def checkSum (lsn : Nat) (checksum : ChecksumKind) (word : Nat) (records : List Record) :
    Except LogError Unit :=
  match checksum with
  | .none => .ok ()
  | .adler32 =>
      let actual := (payloadSums records).finish
      if word = actual.toNat then .ok ()
      else .error (.checksumMismatch lsn (UInt32.ofNat word) actual)

/-- The records of the region that a device holds at `lsn`, oldest first. -/
def unpack (lsn : Nat) (policy : FormatPolicy) (bytes : Bytes) :
    Except LogError (List Record) := do
  let some (header, body) := readHeader? bytes
    | throw (.integrity lsn (.noHeader bytes.length))
  let (format, checksum) ← (header.check policy).mapError (.integrity lsn)
  let records ← (readRecords format none body).mapError (.integrity lsn)
  (checkEnd lsn records).mapError (.integrity lsn)
  checkSum lsn checksum header.firstWord records
  return records

end Logbook.Region

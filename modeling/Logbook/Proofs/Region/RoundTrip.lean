import Logbook.Proofs.Bytes
import Logbook.Region

/-!
# Regions are read back

A region of consecutive records, packed in a format that the reader admits and
with any checksum, is unpacked to the same records. The legacy format has no
place for the lowest live number of a record, so there a reader gets that of a
fresh log. A reader that does not admit the format, or that looks for another
last record, refuses the region.
-/

namespace Logbook

theorem RegionFormat.version_lt (format : RegionFormat) : format.version < 256 ^ 2 := by
  cases format <;> decide

theorem RegionFormat.version_injective {format other : RegionFormat}
    (same : format.version = other.version) : format = other :=
  Option.some.inj ((ofVersion?_eq_some_iff.mpr same).symm.trans (ofVersion?_eq_some_iff.mpr rfl))

theorem RegionFormat.recordTag_lt (format : RegionFormat) : format.recordTag < 256 ^ 2 := by
  cases format <;> decide

theorem ChecksumKind.tag_lt (checksum : ChecksumKind) : checksum.tag < 256 ^ 2 := by
  cases checksum <;> decide

namespace Record

/-- The fields of a record fit their places in a region. -/
structure Fits (record : Record) : Prop where
  lsn_lt : record.lsn < 256 ^ 8
  lowest_lt : record.lowest < 256 ^ 8
  length_lt : record.payload.length < 256 ^ 8

/-- The records have the numbers from `first` on, in order. -/
def Consecutive (first : Nat) (records : List Record) : Prop :=
  records.map (·.lsn) = List.range' first records.length

@[simp]
theorem consecutive_nil (first : Nat) : Consecutive first [] :=
  rfl

@[simp]
theorem consecutive_cons {first : Nat} {record : Record} {records : List Record} :
    Consecutive first (record :: records) ↔
      record.lsn = first ∧ Consecutive (first + 1) records := by
  simp [Consecutive, List.range'_succ]

theorem consecutive_append {first : Nat} {front back : List Record} :
    Consecutive first (front ++ back) ↔
      Consecutive first front ∧ Consecutive (first + front.length) back := by
  induction front generalizing first with
  | nil => simp
  | cons record front ih =>
      rw [List.cons_append, consecutive_cons, consecutive_cons, ih, and_assoc, List.length_cons,
        Nat.add_right_comm, Nat.add_assoc first]

theorem Consecutive.lsn_of_getElem? {first : Nat} {records : List Record}
    (consecutive : Consecutive first records) {offset : Nat} {record : Record}
    (found : records[offset]? = some record) : record.lsn = first + offset := by
  have lsns := congrArg (·[offset]?) consecutive
  simp only [List.getElem?_map, found, Option.map_some] at lsns
  rcases List.getElem?_eq_some_iff.mp lsns.symm with ⟨_, lsn_eq⟩
  rw [← lsn_eq, List.getElem_range', Nat.one_mul]

theorem Consecutive.bounds {first : Nat} {records : List Record}
    (consecutive : Consecutive first records) {record : Record} (member : record ∈ records) :
    first ≤ record.lsn ∧ record.lsn < first + records.length := by
  rcases List.getElem?_of_mem member with ⟨offset, found⟩
  have inside := (List.getElem?_eq_some_iff.mp found).1
  rw [consecutive.lsn_of_getElem? found]
  omega

theorem Consecutive.getLast {first : Nat} {records : List Record} {last : Record}
    (consecutive : Consecutive first records) (found : records.getLast? = some last) :
    last.lsn + 1 = first + records.length := by
  rw [List.getLast?_eq_getElem?] at found
  have := (List.getElem?_eq_some_iff.mp found).1
  rw [consecutive.lsn_of_getElem? found]
  omega

/-- Consecutive records are told apart by their numbers. -/
theorem Consecutive.find?_lsn {first : Nat} {records : List Record}
    (consecutive : Consecutive first records) {record : Record} (member : record ∈ records) :
    records.find? (·.lsn = record.lsn) = some record := by
  induction records generalizing first with
  | nil => cases member
  | cons head records ih =>
      rcases consecutive_cons.mp consecutive with ⟨rfl, consecutive⟩
      rcases List.mem_cons.mp member with rfl | member
      · simp
      · have above : head.lsn < record.lsn := by
          rcases List.getElem?_of_mem member with ⟨offset, found⟩
          rw [consecutive.lsn_of_getElem? found]
          omega
        rw [List.find?_cons_of_neg (by simpa using Nat.ne_of_lt above)]
        exact ih consecutive member

theorem Consecutive.eq_of_lsn_eq {first : Nat} {records : List Record}
    (consecutive : Consecutive first records) {record other : Record}
    (member : record ∈ records) (other_member : other ∈ records) (same : record.lsn = other.lsn) :
    record = other := by
  have found := consecutive.find?_lsn member
  rw [same, consecutive.find?_lsn other_member] at found
  exact (Option.some.inj found).symm

/-- Records of a log are known from their numbers. -/
theorem Consecutive.eq_of_map_lsn_eq {first : Nat} {records : List Record}
    (consecutive : Consecutive first records) {xs ys : List Record}
    (xs_sub : ∀ record ∈ xs, record ∈ records) (ys_sub : ∀ record ∈ ys, record ∈ records)
    (same : xs.map (·.lsn) = ys.map (·.lsn)) : xs = ys := by
  induction xs generalizing ys with
  | nil => exact (List.map_eq_nil_iff.mp same.symm).symm
  | cons x xs ih =>
      rcases List.map_eq_cons_iff.mp same.symm with ⟨y, ys, rfl, same_head, same_tail⟩
      rw [List.forall_mem_cons] at xs_sub ys_sub
      rw [consecutive.eq_of_lsn_eq xs_sub.1 ys_sub.1 same_head.symm,
        ih xs_sub.2 ys_sub.2 same_tail.symm]

theorem Consecutive.drop {first : Nat} {records : List Record}
    (consecutive : Consecutive first records) {count : Nat} (le : count ≤ records.length) :
    Consecutive (first + count) (records.drop count) := by
  rw [← List.take_append_drop count records, consecutive_append] at consecutive
  rw [List.length_take_of_le le] at consecutive
  exact consecutive.2

theorem Consecutive.take {first : Nat} {records : List Record}
    (consecutive : Consecutive first records) (count : Nat) :
    Consecutive first (records.take count) := by
  rw [← List.take_append_drop count records, consecutive_append] at consecutive
  exact consecutive.1

end Record

namespace Region

open Record

/-- What a reader makes of a record that was written in a format. -/
def received (format : RegionFormat) (record : Record) : Record :=
  { record with lowest := lowestOfMarker format (marker format record) }

@[simp]
theorem received_lsn (format : RegionFormat) (record : Record) :
    (received format record).lsn = record.lsn :=
  rfl

@[simp]
theorem received_payload (format : RegionFormat) (record : Record) :
    (received format record).payload = record.payload :=
  rfl

theorem marker_lt {format : RegionFormat} {record : Record} (fits : record.Fits) :
    marker format record < 256 ^ 8 := by
  cases format with
  | current => exact fits.lowest_lt
  | legacy => exact Nat.lt_of_le_of_lt (Nat.sub_le _ _) fits.lsn_lt

theorem readRecordHeader?_encodeRecordWith {format : RegionFormat} {record : Record}
    (fits : record.Fits) {marker : Nat} (marker_lt : marker < 256 ^ 8) (rest : Bytes) :
    readRecordHeader? (encodeRecordWith format marker record ++ rest) =
      some (⟨format.recordTag, record.lsn, marker, record.payload.length⟩,
        record.payload ++ rest) := by
  simp only [readRecordHeader?, encodeRecordWith, List.append_assoc,
    Bytes.readNat?_ofNat format.recordTag_lt, Bytes.readNat?_ofNat fits.lsn_lt,
    Bytes.readNat?_ofNat marker_lt, Bytes.readNat?_ofNat fits.length_lt, Option.bind_eq_bind,
    Option.bind_some, Option.pure_def]

/-- A record is read back if it comes in its turn. -/
theorem readRecord_encodeRecordWith {format : RegionFormat} {record : Record} (fits : record.Fits)
    {marker : Nat} (marker_lt : marker < 256 ^ 8) (rest : Bytes) {previous : Option Nat}
    (follows : ∀ before, previous = some before → record.lsn = before + 1) :
    readRecord format previous (encodeRecordWith format marker record ++ rest) =
      .ok ({ record with lowest := lowestOfMarker format marker }, rest) := by
  have taken : Bytes.split? record.payload.length (record.payload ++ rest) =
      some (record.payload, rest) :=
    Bytes.split?_eq_some_iff.mpr ⟨rfl, rfl⟩
  simp only [readRecord, readRecordHeader?_encodeRecordWith fits marker_lt, taken, ne_eq,
    not_true_eq_false, ↓reduceIte]
  cases previous with
  | none => rfl
  | some before => simp [follows before rfl]

theorem readRecord_encodeRecord {format : RegionFormat} {record : Record} (fits : record.Fits)
    (rest : Bytes) {previous : Option Nat}
    (follows : ∀ before, previous = some before → record.lsn = before + 1) :
    readRecord format previous (encodeRecord format record ++ rest) =
      .ok (received format record, rest) :=
  readRecord_encodeRecordWith fits (marker_lt fits) rest follows

theorem encodeRecord_ne_nil (format : RegionFormat) (record : Record) :
    encodeRecord format record ≠ [] := by
  intro empty
  have := congrArg List.length empty
  simp [encodeRecord, encodeRecordWith] at this

theorem readRecords_eq_cons {format : RegionFormat} {previous : Option Nat} {bytes after : Bytes}
    {record : Record} {records : List Record}
    (read : readRecord format previous bytes = .ok (record, after))
    (rest : readRecords format (some record.lsn) after = .ok records) (some_bytes : bytes ≠ []) :
    readRecords format previous bytes = .ok (record :: records) := by
  cases bytes with
  | nil => exact absurd rfl some_bytes
  | cons byte bytes =>
      rw [readRecords]
      split
      · rename_i fault failed
        rw [read] at failed
        cases failed
      · rename_i record' after' read'
        rw [read] at read'
        cases read'
        rw [rest]

/-- Consecutive records are read back one after the other. -/
theorem readRecords_encodeRecord {format : RegionFormat} {records : List Record} {first : Nat}
    (fits : ∀ record ∈ records, record.Fits) (consecutive : Consecutive first records)
    {previous : Option Nat} (follows : ∀ before, previous = some before → first = before + 1) :
    readRecords format previous (records.flatMap (encodeRecord format)) =
      .ok (records.map (received format)) := by
  induction records generalizing first previous with
  | nil => rw [List.flatMap_nil, readRecords, List.map_nil]
  | cons record records ih =>
      rcases consecutive_cons.mp consecutive with ⟨rfl, consecutive⟩
      rw [List.flatMap_cons, List.map_cons]
      apply readRecords_eq_cons
      · exact readRecord_encodeRecord (fits record List.mem_cons_self) _ follows
      · refine ih (fun other member => fits other (List.mem_cons_of_mem _ member)) consecutive ?_
        rintro before equal
        cases equal
        rfl
      · exact List.append_ne_nil_of_left_ne_nil (encodeRecord_ne_nil format record) _

theorem readHeader?_encodeHeader (format : RegionFormat) (checksum : ChecksumKind) {word : Nat}
    (word_lt : word < 256 ^ 8) (rest : Bytes) :
    readHeader? (encodeHeader format checksum word ++ rest) =
      some (⟨format.version, word, word, checksum.tag⟩, rest) := by
  simp only [readHeader?, encodeHeader, List.append_assoc,
    Bytes.readNat?_ofNat format.version_lt, Bytes.readNat?_ofNat word_lt,
    Bytes.readNat?_ofNat checksum.tag_lt, Option.bind_eq_bind, Option.bind_some, Option.pure_def]

theorem checksumWord_lt (checksum : ChecksumKind) (records : List Record) :
    checksumWord checksum records < 256 ^ 8 := by
  cases checksum with
  | adler32 =>
      exact Nat.lt_trans (UInt32.toNat_lt _) (by decide)
  | none => exact Nat.zero_lt_of_lt (Nat.lt_pow_self (by decide))

theorem check_encoded {format : RegionFormat} {policy : FormatPolicy}
    (admits : policy.Admits format) (checksum : ChecksumKind) (word : Nat) :
    Header.check ⟨format.version, word, word, checksum.tag⟩ policy = .ok (format, checksum) := by
  simp [Header.check, RegionFormat.ofVersion?_eq_some_iff.mpr rfl,
    ChecksumKind.ofTag?_eq_some_iff.mpr rfl, Option.filter, admits]

theorem mapError_ok {ε ε' β : Type} (f : ε → ε') (value : β) :
    (Except.ok value : Except ε β).mapError f = .ok value :=
  rfl

theorem mapError_error {ε ε' β : Type} (f : ε → ε') (error : ε) :
    (Except.error error : Except ε β).mapError f = .error (f error) :=
  rfl

/-- A region of a format that the reader does not admit is refused at its version. -/
theorem unpack_refused {format : RegionFormat} {policy : FormatPolicy}
    (refuses : ¬ policy.Admits format) (checksum : ChecksumKind) (records : List Record)
    (last : Nat) :
    unpack last policy (pack format checksum records) =
      .error (.integrity last (.versionRefused format.version policy)) := by
  have refused : Header.check ⟨format.version, checksumWord checksum records,
      checksumWord checksum records, checksum.tag⟩ policy =
        .error (.versionRefused format.version policy) := by
    simp [Header.check, RegionFormat.ofVersion?_eq_some_iff.mpr rfl, Option.filter, refuses]
  simp only [unpack, pack, readHeader?_encodeHeader _ _ (checksumWord_lt checksum records),
    refused, mapError_error, bind, Except.bind]

/-- A region that was unpacked is of a format that the reader admits. -/
theorem admits_of_unpack {format : RegionFormat} {policy : FormatPolicy} {checksum : ChecksumKind}
    {records unpacked : List Record} {last : Nat}
    (ok : unpack last policy (pack format checksum records) = .ok unpacked) :
    policy.Admits format := by
  refine Classical.byContradiction fun refuses => ?_
  rw [unpack_refused refuses] at ok
  cases ok

/-- The checksum does not depend on the lowest live numbers. -/
theorem payloadSums_received (format : RegionFormat) (records : List Record) :
    payloadSums (records.map (received format)) = payloadSums records := by
  simp [payloadSums, List.foldl_map]

theorem checkSum_checksumWord (lsn : Nat) (checksum : ChecksumKind) (format : RegionFormat)
    (records : List Record) :
    checkSum lsn checksum (checksumWord checksum records) (records.map (received format)) =
      .ok () := by
  cases checksum with
  | none => rfl
  | adler32 => simp [checkSum, checksumWord, payloadSums_received]

/-- A region of consecutive records is unpacked at the number of the last one. -/
theorem unpack_pack {format : RegionFormat} {policy : FormatPolicy}
    (admits : policy.Admits format) (checksum : ChecksumKind) {records : List Record}
    {first last : Nat} (fits : ∀ record ∈ records, record.Fits)
    (consecutive : Consecutive first records) (some_records : records ≠ [])
    (ends : last + 1 = first + records.length) :
    unpack last policy (pack format checksum records) = .ok (records.map (received format)) := by
  have read : readRecords format none (records.flatMap (encodeRecord format)) =
      .ok (records.map (received format)) :=
    readRecords_encodeRecord fits consecutive (by simp)
  have checked : checkEnd last (records.map (received format)) = .ok () := by
    have found := List.getLast?_eq_some_getLast some_records
    have := consecutive.getLast found
    have lsn_eq : (records.getLast some_records).lsn = last := by omega
    simp only [checkEnd, List.getLast?_map, found, Option.map_some, received_lsn, lsn_eq,
      ↓reduceIte]
  simp only [unpack, pack, readHeader?_encodeHeader _ _ (checksumWord_lt checksum records),
    check_encoded admits, read, checked, mapError_ok, checkSum_checksumWord, bind,
    Except.bind, pure, Except.pure]

/-- A region is refused at any other number than that of its last record. -/
theorem unpack_astray {format : RegionFormat} {policy : FormatPolicy}
    (admits : policy.Admits format) (checksum : ChecksumKind) {records : List Record}
    {first lsn : Nat} {last : Record} (fits : ∀ record ∈ records, record.Fits)
    (consecutive : Consecutive first records) (newest : records.getLast? = some last)
    (astray : last.lsn ≠ lsn) :
    unpack lsn policy (pack format checksum records) =
      .error (.integrity lsn (.endMismatch last.lsn lsn)) := by
  have read : readRecords format none (records.flatMap (encodeRecord format)) =
      .ok (records.map (received format)) :=
    readRecords_encodeRecord fits consecutive (by simp)
  have checked : checkEnd lsn (records.map (received format)) =
      .error (.endMismatch last.lsn lsn) := by
    simp only [checkEnd, List.getLast?_map, newest, Option.map_some, received_lsn]
    exact if_neg astray
  simp only [unpack, pack, readHeader?_encodeHeader _ _ (checksumWord_lt checksum records),
    check_encoded admits, read, checked, mapError_ok, mapError_error, bind, Except.bind]

/-- Packed records are unpacked unchanged in the current format, and with the lowest live
number of a fresh log in the legacy format; at another number than that of the last
record, or by a reader that does not admit the format, they are not unpacked. -/
theorem unpack_packed {records : List Record} {first : Nat} {last : Record}
    (fits : ∀ record ∈ records, record.Fits) (consecutive : Consecutive first records)
    (newest : records.getLast? = some last) (format : RegionFormat) (checksum : ChecksumKind)
    (policy : FormatPolicy) (lsn : Nat) :
    unpack lsn policy (pack format checksum records) =
      if policy.Admits format then
        if last.lsn = lsn then
          .ok (match format with
            | .current => records
            | .legacy => records.map ({ · with lowest := Lsn.first }))
        else .error (.integrity lsn (.endMismatch last.lsn lsn))
      else .error (.integrity lsn (.versionRefused format.version policy)) := by
  by_cases admits : policy.Admits format
  · rw [if_pos admits]
    by_cases ends : last.lsn = lsn
    · have some_records : records ≠ [] := List.getLast?_isSome.mp (by rw [newest]; rfl)
      have total : lsn + 1 = first + records.length := ends ▸ consecutive.getLast newest
      rw [if_pos ends, unpack_pack admits checksum fits consecutive some_records total]
      cases format with
      | current => exact congrArg _ (List.map_id records)
      | legacy => rfl
    · rw [if_neg ends]
      exact unpack_astray admits checksum fits consecutive newest ends
  · rw [if_neg admits]
    exact unpack_refused admits checksum records lsn

/-- Two records, of which the first carries the letters of a record tag and the second
nothing. -/
def lookalikePair : List Record := [⟨200, 150, [0x4C, 0x52]⟩, ⟨201, 150, []⟩]

theorem fits_lookalikePair : ∀ record ∈ lookalikePair, record.Fits := by
  simp only [lookalikePair, List.forall_mem_cons]
  exact ⟨⟨by decide, by decide, by decide⟩, ⟨by decide, by decide, by decide⟩, nofun⟩

theorem unpack_packed_lookalikePair :
    (∀ record ∈ lookalikePair, record.Fits) ∧ Consecutive 200 lookalikePair ∧
      lookalikePair.getLast? = some ⟨201, 150, []⟩ ∧
      unpack 201 .auto (pack .current .adler32 lookalikePair) = .ok lookalikePair ∧
      unpack 201 .legacy (pack .legacy .none lookalikePair) =
        .ok [⟨200, 100, [0x4C, 0x52]⟩, ⟨201, 100, []⟩] ∧
      unpack 202 .auto (pack .current .adler32 lookalikePair) =
        .error (.integrity 202 (.endMismatch 201 202)) ∧
      unpack 201 .current (pack .legacy .none lookalikePair) =
        .error (.integrity 201 (.versionRefused 1 .current)) := by
  have consecutive : Consecutive 200 lookalikePair := rfl
  have unpacked := unpack_packed fits_lookalikePair consecutive rfl
  exact ⟨fits_lookalikePair, consecutive, rfl, unpacked .current .adler32 .auto 201,
    unpacked .legacy .none .legacy 201, unpacked .current .adler32 .auto 202,
    unpacked .legacy .none .current 201⟩

end Region

end Logbook

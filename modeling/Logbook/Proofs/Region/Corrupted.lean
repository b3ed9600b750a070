import Logbook.Proofs.Adler32
import Logbook.Proofs.Region.Grammar

/-!
# A corrupted byte is found

No byte of a payload says where anything else in a region is. So with another byte in a
payload a region is read as before, but for this byte, and its checksum is compared to that
of the changed payloads. The two differ in their low halves.
-/

namespace Logbook

namespace Record

/-- The record with another byte in its payload. -/
def withByte (offset : Nat) (byte : UInt8) (record : Record) : Record :=
  { record with payload := record.payload.set offset byte }

/-- Records with another byte in the payload of one of them. -/
def corrupt (records : List Record) (place offset : Nat) (byte : UInt8) : List Record :=
  records.modify place (withByte offset byte)

variable {record : Record} {offset : Nat} {byte : UInt8}

theorem Fits.withByte (fits : record.Fits) : (record.withByte offset byte).Fits where
  lsn_lt := fits.lsn_lt
  lowest_lt := fits.lowest_lt
  length_lt := by
    rw [Record.withByte, List.length_set]
    exact fits.length_lt

/-- The other records stay as they are. -/
theorem exists_split_of_found {records : List Record} {place : Nat}
    (found : records[place]? = some record) (offset : Nat) (byte : UInt8) :
    ∃ front back, records = front ++ record :: back ∧ front.length = place ∧
      corrupt records place offset byte = front ++ record.withByte offset byte :: back := by
  rcases List.getElem?_eq_some_iff.mp found with ⟨inside, rfl⟩
  refine ⟨records.take place, records.drop (place + 1), ?_, List.length_take_of_le (by omega),
    List.modify_eq_take_cons_drop inside⟩
  rw [← List.drop_eq_getElem_cons inside, List.take_append_drop]

theorem length_corrupt (records : List Record) (place offset : Nat) (byte : UInt8) :
    (corrupt records place offset byte).length = records.length :=
  List.length_modify _ _ _

theorem fits_corrupt {records : List Record} {place : Nat}
    (found : records[place]? = some record) (offset : Nat) (byte : UInt8)
    (fits : ∀ record ∈ records, record.Fits) :
    ∀ record ∈ corrupt records place offset byte, record.Fits := by
  rcases exists_split_of_found found offset byte with ⟨front, back, rfl, _, corrupted⟩
  simp only [corrupted, List.forall_mem_append, List.forall_mem_cons] at fits ⊢
  exact ⟨fits.1, fits.2.1.withByte, fits.2.2⟩

theorem consecutive_corrupt {records : List Record} {place first : Nat}
    (found : records[place]? = some record) (offset : Nat) (byte : UInt8)
    (consecutive : Consecutive first records) :
    Consecutive first (corrupt records place offset byte) := by
  rcases exists_split_of_found found offset byte with ⟨front, back, rfl, _, corrupted⟩
  rw [corrupted]
  rw [consecutive_append, consecutive_cons] at consecutive ⊢
  exact consecutive

end Record

namespace Region

open Record

/-! ## Where a payload lies -/

/-- The length that some records have in a region. -/
def bodyLength : List Record → Nat
  | [] => 0
  | record :: records => record.encodedLength + bodyLength records

/-- Where the payload of a record starts in a region. -/
def payloadStart (records : List Record) (place : Nat) : Nat :=
  headerSize + bodyLength (records.take place) + Record.headerSize

theorem length_encodeHeader (format : RegionFormat) (checksum : ChecksumKind) (word : Nat) :
    (encodeHeader format checksum word).length = headerSize := by
  simp only [encodeHeader, List.length_append, Bytes.length_ofNat, headerSize]

/-- The bytes of a record in front of its payload. -/
def fields (format : RegionFormat) (record : Record) : Bytes :=
  Bytes.ofNat 2 format.recordTag ++ Bytes.ofNat 8 record.lsn
    ++ Bytes.ofNat 8 (marker format record) ++ Bytes.ofNat 8 record.payload.length

theorem encodeRecord_eq (format : RegionFormat) (record : Record) :
    encodeRecord format record = fields format record ++ record.payload :=
  rfl

theorem length_fields (format : RegionFormat) (record : Record) :
    (fields format record).length = Record.headerSize := by
  simp only [fields, List.length_append, Bytes.length_ofNat, Record.headerSize]

theorem length_encodeRecord (format : RegionFormat) (record : Record) :
    (encodeRecord format record).length = record.encodedLength := by
  rw [encodeRecord_eq, List.length_append, length_fields, encodedLength]

theorem length_flatMap_encodeRecord (format : RegionFormat) (records : List Record) :
    (records.flatMap (encodeRecord format)).length = bodyLength records := by
  induction records with
  | nil => rfl
  | cons record records ih =>
      rw [List.flatMap_cons, List.length_append, length_encodeRecord, ih, bodyLength]

theorem fields_withByte (format : RegionFormat) (record : Record) (offset : Nat) (byte : UInt8) :
    fields format (record.withByte offset byte) = fields format record := by
  have same_marker : marker format (record.withByte offset byte) = marker format record := by
    cases format <;> rfl
  have same_length : (record.withByte offset byte).payload.length = record.payload.length :=
    List.length_set
  rw [fields, same_marker, same_length]
  rfl

theorem set_inside {before middle after : Bytes} {offset : Nat} (inside : offset < middle.length)
    (byte : UInt8) : (before ++ (middle ++ after)).set (before.length + offset) byte =
      before ++ (middle.set offset byte ++ after) := by
  rw [List.set_append_right _ _ (Nat.le_add_right _ _), Nat.add_sub_cancel_left,
    List.set_append_left _ _ inside]

variable {format : RegionFormat} {records : List Record} {record : Record} {place offset : Nat}
  {old byte : UInt8}

/-- A region has the payload of each record where it starts, and the region of the corrupted
records, under the checksum of the others, has nothing else in another way. -/
theorem exists_split_of_pack (format : RegionFormat) (checksum : ChecksumKind)
    (found : records[place]? = some record) (offset : Nat) (byte : UInt8) :
    ∃ before after, before.length = payloadStart records place ∧
      pack format checksum records = before ++ (record.payload ++ after) ∧
      encodeHeader format checksum (checksumWord checksum records)
        ++ (corrupt records place offset byte).flatMap (encodeRecord format) =
          before ++ (record.payload.set offset byte ++ after) := by
  rcases exists_split_of_found found offset byte with ⟨front, back, split, rfl, corrupted⟩
  refine ⟨encodeHeader format checksum (checksumWord checksum records)
    ++ (front.flatMap (encodeRecord format) ++ fields format record),
    back.flatMap (encodeRecord format), ?_, ?_, ?_⟩
  · rw [payloadStart, split, List.take_left, List.length_append, length_encodeHeader,
      List.length_append, length_fields, length_flatMap_encodeRecord, Nat.add_assoc]
  · rw [pack]
    nth_rewrite 2 [split]
    simp only [List.flatMap_append, List.flatMap_cons, encodeRecord_eq, List.append_assoc]
  · rw [corrupted]
    simp only [List.flatMap_append, List.flatMap_cons, encodeRecord_eq, List.append_assoc,
      fields_withByte]
    rfl

/-- The bytes of a payload follow from where it starts. -/
theorem getElem?_pack (checksum : ChecksumKind) (found : records[place]? = some record)
    (held : record.payload[offset]? = some old) :
    (pack format checksum records)[payloadStart records place + offset]? = some old := by
  have inside := (List.getElem?_eq_some_iff.mp held).1
  rcases exists_split_of_pack format checksum found offset old with
    ⟨before, after, start, packed, _⟩
  rw [packed, ← start, List.getElem?_append_right (Nat.le_add_right _ _),
    Nat.add_sub_cancel_left, List.getElem?_append_left inside, held]

/-- Another byte in the place of a payload's byte gives the corrupted records, under the
checksum of the others. -/
theorem set_pack (checksum : ChecksumKind) (found : records[place]? = some record)
    (inside : offset < record.payload.length) (byte : UInt8) :
    (pack format checksum records).set (payloadStart records place + offset) byte =
      encodeHeader format checksum (checksumWord checksum records)
        ++ (corrupt records place offset byte).flatMap (encodeRecord format) := by
  rcases exists_split_of_pack format checksum found offset byte with
    ⟨before, after, start, packed, corrupted⟩
  rw [packed, corrupted, ← start, set_inside inside]

/-! ## What the checksum sees -/

theorem toNat_a_foldl_update {sums : Adler32} (reduced : sums.a.toNat < Adler32.modulus.toNat)
    (records : List Record) :
    (records.foldl (fun sums record => sums.update record.payload) sums).a.toNat =
      (sums.a.toNat + Bytes.total (records.flatMap (·.payload))) % Adler32.modulus.toNat := by
  induction records generalizing sums with
  | nil => exact (Nat.mod_eq_of_lt reduced).symm
  | cons record records ih =>
      rw [List.foldl_cons, ih (Adler32.a_lt_modulus_of_update reduced _),
        Adler32.toNat_a_update reduced, Nat.mod_add_mod, List.flatMap_cons, Bytes.total_append,
        Nat.add_assoc]

/-- The first sum of the checksum of some records. -/
theorem toNat_a_payloadSums (records : List Record) :
    (payloadSums records).a.toNat =
      (1 + Bytes.total (records.flatMap (·.payload))) % Adler32.modulus.toNat :=
  toNat_a_foldl_update (by decide) records

theorem a_lt_modulus_of_payloadSums (records : List Record) :
    (payloadSums records).a.toNat < Adler32.modulus.toNat := by
  rw [toNat_a_payloadSums]
  exact Nat.mod_lt _ (by decide)

/-- The corrupted records have another checksum. -/
theorem finish_corrupt_ne (found : records[place]? = some record)
    (held : record.payload[offset]? = some old) (changed : byte ≠ old) :
    (payloadSums records).finish ≠ (payloadSums (corrupt records place offset byte)).finish := by
  intro same
  have sums_eq : (payloadSums records).a.toNat =
      (payloadSums (corrupt records place offset byte)).a.toNat := by
    rw [← Adler32.toNat_finish_mod (a_lt_modulus_of_payloadSums _), same,
      Adler32.toNat_finish_mod (a_lt_modulus_of_payloadSums _)]
  have totals : Bytes.total ((corrupt records place offset byte).flatMap (·.payload)) + old.toNat =
      Bytes.total (records.flatMap (·.payload)) + byte.toNat := by
    rcases exists_split_of_found found offset byte with ⟨front, back, rfl, _, corrupted⟩
    have payload_total := Bytes.total_set held byte
    rw [corrupted]
    simp only [List.flatMap_append, List.flatMap_cons, Bytes.total_append, withByte]
    omega
  rw [toNat_a_payloadSums, toNat_a_payloadSums, Adler32.toNat_modulus] at sums_eq
  have old_lt := old.toNat_lt
  have byte_lt := byte.toNat_lt
  exact changed (UInt8.toNat_inj.mp (by omega))

/-- One other byte in a payload of a region is found: the reader that looks for the region's
last number gets the checksum of the payloads that were written and that of the payloads that
are there, and they differ. -/
theorem unpack_corrupted {policy : FormatPolicy} (admits : policy.Admits format) {first : Nat}
    {last : Record} (fits : ∀ record ∈ records, record.Fits)
    (consecutive : Consecutive first records) (newest : records.getLast? = some last)
    (found : records[place]? = some record) (held : record.payload[offset]? = some old)
    (changed : byte ≠ old) :
    (pack format .adler32 records)[payloadStart records place + offset]? = some old ∧
      unpack last.lsn policy
          ((pack format .adler32 records).set (payloadStart records place + offset) byte) =
        .error (.checksumMismatch last.lsn (payloadSums records).finish
          (payloadSums (corrupt records place offset byte)).finish) ∧
      (payloadSums records).finish ≠ (payloadSums (corrupt records place offset byte)).finish := by
  have differ := finish_corrupt_ne found held changed
  refine ⟨getElem?_pack .adler32 found held, ?_, differ⟩
  have inside := (List.getElem?_eq_some_iff.mp held).1
  have some_records : corrupt records place offset byte ≠ [] := by
    rw [← List.length_pos_iff, length_corrupt]
    exact Nat.lt_of_le_of_lt (Nat.zero_le _) (List.getElem?_eq_some_iff.mp found).1
  have total : last.lsn + 1 = first + (corrupt records place offset byte).length := by
    rw [length_corrupt]
    exact consecutive.getLast newest
  have corrupt_fits := fits_corrupt found offset byte fits
  have ends : EndsAt last.lsn ((corrupt records place offset byte).map (received format)) :=
    endsAt_received format corrupt_fits (consecutive_corrupt found offset byte consecutive)
      some_records total
  have spells := spells_encoded format .adler32 (checksumWord_lt .adler32 records) corrupt_fits
  have wrong : checksumWord .adler32 records ≠
      checksumWord .adler32 ((corrupt records place offset byte).map (received format)) := by
    rw [checksumWord, checksumWord, payloadSums_received]
    exact fun same => differ (UInt32.toNat_inj.mp same)
  rw [set_pack .adler32 found inside byte]
  refine unpack_eq_mismatch_iff.mpr ⟨_, format, _, ends, admits, spells, wrong, ?_, ?_⟩
  · exact UInt32.ofNat_toNat.symm
  · rw [payloadSums_received]

/-- The second letter of the first payload is the next one in the alphabet. -/
theorem unpack_corrupted_lookalikePair :
    FormatPolicy.auto.Admits .legacy ∧ (∀ record ∈ lookalikePair, record.Fits) ∧
      Consecutive 200 lookalikePair ∧ lookalikePair.getLast? = some ⟨201, 150, []⟩ ∧
      lookalikePair[0]? = some ⟨200, 150, [0x4C, 0x52]⟩ ∧
      unpack 201 .auto ((pack .legacy .adler32 lookalikePair).set 47 0x53) =
        .error (.checksumMismatch 201 0x00EC009F 0x00ED00A0) := by
  have consecutive : Consecutive 200 lookalikePair := rfl
  have admits : FormatPolicy.auto.Admits .legacy := trivial
  have found : lookalikePair[0]? = some ⟨200, 150, [0x4C, 0x52]⟩ := rfl
  have held : [0x4C, (0x52 : UInt8)][1]? = some 0x52 := rfl
  have changed : (0x53 : UInt8) ≠ 0x52 := by decide
  have place : payloadStart lookalikePair 0 + 1 = 47 := rfl
  have written : (payloadSums lookalikePair).finish = 0x00EC009F := by cbv
  have there : (payloadSums (corrupt lookalikePair 0 1 0x53)).finish = 0x00ED00A0 := by cbv
  rcases unpack_corrupted admits fits_lookalikePair consecutive rfl found held changed with
    ⟨_, mismatched, _⟩
  rw [place, written, there] at mismatched
  exact ⟨admits, fits_lookalikePair, consecutive, rfl, found, mismatched⟩

end Region

end Logbook

import Mathlib.Data.List.Forall2
import Logbook.Proofs.Region.RoundTrip

/-!
# The grammar of regions

A byte string is a region of some records if a writer could have made it from them,
but for the two fields that a reader does not compare: the words of a region without a
checksum, and the markers of legacy records. Such byte strings, of records that end at
the number the region was written at, are all that a reader accepts. It gives an
integrity fault for every other byte string, unless nothing but the words of an Adler-32
checksum is wrong.
-/

namespace Logbook.Region

open Record

/-- A marker that a record can have been written with, if a reader made it out of it. -/
structure Marks (format : RegionFormat) (marker : Nat) (record : Record) : Prop where
  marker_lt : marker < 256 ^ 8
  lowest_eq : record.lowest = lowestOfMarker format marker

/-- The region of records under a given checksum word, with a marker for each of them. -/
def image (format : RegionFormat) (checksum : ChecksumKind) (word : Nat) (markers : List Nat)
    (records : List Record) : Bytes :=
  encodeHeader format checksum word
    ++ (List.zipWith (encodeRecordWith format) markers records).flatten

/-- What a writer makes of records is one of their images, whatever the checksum word. -/
theorem encoded_eq_image (format : RegionFormat) (checksum : ChecksumKind) (word : Nat)
    (records : List Record) :
    encodeHeader format checksum word ++ records.flatMap (encodeRecord format) =
      image format checksum word (records.map (marker format)) records := by
  rw [image, List.zipWith_map_left, List.zipWith_self, List.flatMap_def]
  rfl

/-- The bytes are an image of the records, with markers that agree with them. -/
structure Spells (format : RegionFormat) (checksum : ChecksumKind) (word : Nat)
    (records : List Record) (bytes : Bytes) : Prop where
  word_lt : word < 256 ^ 8
  image : ∃ markers, List.Forall₂ (Marks format) markers records ∧
    bytes = image format checksum word markers records

/-- Records under any checksum word spell what a reader makes of them. -/
theorem spells_encoded (format : RegionFormat) (checksum : ChecksumKind) {word : Nat}
    (word_lt : word < 256 ^ 8) {records : List Record} (fits : ∀ record ∈ records, record.Fits) :
    Spells format checksum word (records.map (received format))
      (encodeHeader format checksum word ++ records.flatMap (encodeRecord format)) := by
  refine ⟨word_lt, records.map (marker format), ?_, ?_⟩
  · rw [List.forall₂_map_left_iff, List.forall₂_map_right_iff, List.forall₂_same]
    intro record member
    exact ⟨marker_lt (fits record member), rfl⟩
  · rw [encoded_eq_image, image, image, List.zipWith_map_right]
    rfl

/-- What a writer makes of records spells what a reader makes of them. -/
theorem spells_pack (format : RegionFormat) (checksum : ChecksumKind) {records : List Record}
    (fits : ∀ record ∈ records, record.Fits) :
    Spells format checksum (checksumWord checksum records) (records.map (received format))
      (pack format checksum records) :=
  spells_encoded format checksum (checksumWord_lt checksum records) fits

/-- Records that fit their fields, one after the other up to `lsn`. -/
structure EndsAt (lsn : Nat) (records : List Record) : Prop where
  fits : ∀ record ∈ records, record.Fits
  consecutive : ∃ first, Consecutive first records
  last : ∃ record, records.getLast? = some record ∧ record.lsn = lsn

variable {format : RegionFormat} {checksum : ChecksumKind} {policy : FormatPolicy}

/-! ## Records -/

theorem of_readRecordHeader? {bytes rest : Bytes} {header : RecordHeader}
    (found : readRecordHeader? bytes = some (header, rest)) :
    header.tag < 256 ^ 2 ∧ header.lsn < 256 ^ 8 ∧ header.marker < 256 ^ 8 ∧
      header.length < 256 ^ 8 ∧
        bytes = Bytes.ofNat 2 header.tag ++ (Bytes.ofNat 8 header.lsn ++
          (Bytes.ofNat 8 header.marker ++ (Bytes.ofNat 8 header.length ++ rest))) := by
  simp only [readRecordHeader?, Option.bind_eq_bind, Option.bind_eq_some_iff, Option.pure_def,
    Option.some.injEq, Prod.mk.injEq, Prod.exists, Bytes.readNat?_eq_some_iff] at found
  rcases found with ⟨tag, _, ⟨tag_lt, rfl⟩, lsn, _, ⟨lsn_lt, rfl⟩, marker, _, ⟨marker_lt, rfl⟩,
    length, _, ⟨length_lt, rfl⟩, rfl, rfl⟩
  exact ⟨tag_lt, lsn_lt, marker_lt, length_lt, rfl⟩

theorem lowestOfMarker_lt (format : RegionFormat) {marker : Nat} (marker_lt : marker < 256 ^ 8) :
    lowestOfMarker format marker < 256 ^ 8 := by
  cases format with
  | current => exact marker_lt
  | legacy => exact Nat.lt_trans (show Lsn.first < 256 ^ 1 by decide) (by decide)

/-- A record is read exactly from its images, in its turn. -/
theorem readRecord_eq_ok_iff {previous : Option Nat} {bytes rest : Bytes} {record : Record} :
    readRecord format previous bytes = .ok (record, rest) ↔
      record.Fits ∧ (∀ before, previous = some before → record.lsn = before + 1) ∧
        ∃ marker, Marks format marker record ∧
          bytes = encodeRecordWith format marker record ++ rest := by
  constructor
  · intro read
    unfold readRecord at read
    split at read
    · cases read
    · rename_i header body found
      rcases of_readRecordHeader? found with ⟨_, lsn_lt, marker_lt, length_lt, rfl⟩
      split at read
      · cases read
      · rename_i tag_eq
        split at read
        · cases read
        · rename_i payload after split
          rcases Bytes.split?_eq_some_iff.mp split with ⟨rfl, length_eq⟩
          have spelled : Bytes.ofNat 2 header.tag ++ (Bytes.ofNat 8 header.lsn ++
              (Bytes.ofNat 8 header.marker ++ (Bytes.ofNat 8 header.length ++
                (payload ++ after)))) =
              encodeRecordWith format header.marker
                ⟨header.lsn, lowestOfMarker format header.marker, payload⟩ ++ after := by
            simp only [encodeRecordWith, length_eq, not_not.mp tag_eq, List.append_assoc]
          have fits : Record.Fits ⟨header.lsn, lowestOfMarker format header.marker, payload⟩ :=
            ⟨lsn_lt, lowestOfMarker_lt format marker_lt, length_eq ▸ length_lt⟩
          dsimp only at read
          split at read
          · cases read
            exact ⟨fits, by rintro _ ⟨⟩, header.marker, ⟨marker_lt, rfl⟩, spelled⟩
          · rename_i before
            split at read
            · rename_i successor
              cases read
              exact ⟨fits, by rintro _ ⟨⟩; exact successor, header.marker, ⟨marker_lt, rfl⟩,
                spelled⟩
            · cases read
  · rintro ⟨fits, follows, marker, marks, rfl⟩
    rw [readRecord_encodeRecordWith fits marks.marker_lt rest follows, ← marks.lowest_eq]

theorem encodeRecordWith_ne_nil (format : RegionFormat) (marker : Nat) (record : Record) :
    encodeRecordWith format marker record ≠ [] := by
  intro empty
  have := congrArg List.length empty
  simp [encodeRecordWith] at this

/-- All bytes are read as the records of which they are images, one after the other. -/
theorem readRecords_eq_ok_iff {previous : Option Nat} {bytes : Bytes} {records : List Record} :
    readRecords format previous bytes = .ok records ↔
      (∀ record ∈ records, record.Fits) ∧
        (∃ first, Consecutive first records ∧
          ∀ before, previous = some before → first = before + 1) ∧
        ∃ markers, List.Forall₂ (Marks format) markers records ∧
          bytes = (List.zipWith (encodeRecordWith format) markers records).flatten := by
  constructor
  · intro read
    fun_induction readRecords format previous bytes generalizing records with
    | case1 previous =>
        cases read
        exact ⟨nofun, ⟨previous.elim 0 (· + 1), rfl, by rintro before rfl; rfl⟩, [], .nil, rfl⟩
    | case2 => cases read
    | case3 => cases read
    | case4 previous byte rest record after found others others_read ih =>
        cases read
        rcases readRecord_eq_ok_iff.mp found with ⟨record_fits, follows, marker, marks, spelled⟩
        rcases ih others_read with ⟨fits, ⟨first, consecutive, first_eq⟩, markers, all, rfl⟩
        cases first_eq record.lsn rfl
        exact ⟨List.forall_mem_cons.mpr ⟨record_fits, fits⟩,
          ⟨record.lsn, consecutive_cons.mpr ⟨rfl, consecutive⟩, follows⟩,
          marker :: markers, .cons marks all, spelled⟩
  · rintro ⟨fits, ⟨first, consecutive, follows⟩, markers, all, rfl⟩
    induction all generalizing first previous with
    | nil => rw [List.zipWith_nil_left, List.flatten_nil, readRecords]
    | @cons marker record markers records marks all ih =>
        rcases consecutive_cons.mp consecutive with ⟨rfl, consecutive⟩
        rw [List.forall_mem_cons] at fits
        rw [List.zipWith_cons_cons, List.flatten_cons]
        apply readRecords_eq_cons
        · exact readRecord_eq_ok_iff.mpr ⟨fits.1, follows, marker, marks, rfl⟩
        · exact ih fits.2 (record.lsn + 1) consecutive (by rintro before ⟨⟩; rfl)
        · exact List.append_ne_nil_of_left_ne_nil (encodeRecordWith_ne_nil format marker record) _

/-! ## Headers -/

theorem of_readHeader? {bytes rest : Bytes} {header : Header}
    (found : readHeader? bytes = some (header, rest)) :
    header.firstWord < 256 ^ 8 ∧
      bytes = Bytes.ofNat 2 header.version ++ (Bytes.ofNat 8 header.firstWord ++
        (Bytes.ofNat 8 header.secondWord ++ (Bytes.ofNat 2 header.tag ++ rest))) := by
  simp only [readHeader?, Option.bind_eq_bind, Option.bind_eq_some_iff, Option.pure_def,
    Option.some.injEq, Prod.mk.injEq, Prod.exists, Bytes.readNat?_eq_some_iff] at found
  rcases found with ⟨version, _, ⟨_, rfl⟩, firstWord, _, ⟨word_lt, rfl⟩, secondWord, _, ⟨_, rfl⟩,
    tag, _, ⟨_, rfl⟩, rfl, rfl⟩
  exact ⟨word_lt, rfl⟩

/-- A header is admitted exactly if a writer of an admitted format could have put it. -/
theorem check_eq_ok_iff {header : Header} :
    header.check policy = .ok (format, checksum) ↔
      policy.Admits format ∧
        header = ⟨format.version, header.firstWord, header.firstWord, checksum.tag⟩ := by
  constructor
  · intro checked
    unfold Header.check at checked
    split at checked
    · cases checked
    · rename_i found
      rcases Option.filter_eq_some_iff.mp found with ⟨version, admits⟩
      split at checked
      · cases checked
      · rename_i words
        split at checked
        · cases checked
        · rename_i named
          cases checked
          rw [RegionFormat.ofVersion?_eq_some_iff] at version
          rw [ChecksumKind.ofTag?_eq_some_iff] at named
          refine ⟨of_decide_eq_true admits, ?_⟩
          rw [version, named]
          exact congrArg (Header.mk _ _ · _) (not_not.mp words).symm
  · rintro ⟨admits, same⟩
    rw [same]
    exact check_encoded admits checksum header.firstWord

/-! ## Regions -/

theorem checkEnd_eq_ok_iff {lsn : Nat} {records : List Record} :
    checkEnd lsn records = .ok () ↔ ∃ last, records.getLast? = some last ∧ last.lsn = lsn := by
  unfold checkEnd
  cases records.getLast? with
  | none => simp
  | some last => simp

/-- The payloads have the checksum that the word says, if there is one. -/
def Summed (checksum : ChecksumKind) (word : Nat) (records : List Record) : Prop :=
  checksum = .adler32 → word = checksumWord checksum records

theorem checkSum_of_summed {word : Nat} {records : List Record}
    (summed : Summed checksum word records) (lsn : Nat) :
    checkSum lsn checksum word records = .ok () := by
  cases checksum with
  | adler32 => exact if_pos (summed rfl)
  | none => rfl

theorem checkSum_of_ne {word : Nat} {records : List Record}
    (ne : word ≠ checksumWord .adler32 records) (lsn : Nat) :
    checkSum lsn .adler32 word records =
      .error (.checksumMismatch lsn (UInt32.ofNat word) (payloadSums records).finish) :=
  if_neg ne

/-- When the structure of a region is right, its checksum decides. -/
theorem unpack_of_read {lsn : Nat} {bytes body : Bytes} {header : Header} {records : List Record}
    (found : readHeader? bytes = some (header, body))
    (checked : header.check policy = .ok (format, checksum))
    (read : readRecords format none body = .ok records) (ends : checkEnd lsn records = .ok ()) :
    unpack lsn policy bytes =
      (checkSum lsn checksum header.firstWord records).map fun _ => records := by
  simp only [unpack, found, checked, read, ends, mapError_ok, bind, Except.bind, pure,
    Except.pure]
  cases checkSum lsn checksum header.firstWord records <;> rfl

/-- A byte string is no region, or it is one but for the value of its checksum word. -/
theorem unpack_cases (lsn : Nat) (policy : FormatPolicy) (bytes : Bytes) :
    (∃ fault, unpack lsn policy bytes = .error (.integrity lsn fault)) ∨
      ∃ format checksum word records, policy.Admits format ∧ EndsAt lsn records ∧
        Spells format checksum word records bytes := by
  cases found : readHeader? bytes with
  | none => exact .inl ⟨_, by rw [unpack, found]; rfl⟩
  | some parts =>
      rcases parts with ⟨header, body⟩
      cases checked : header.check policy with
      | error fault =>
          refine .inl ⟨fault, ?_⟩
          simp only [unpack, found, checked, mapError_error, bind, Except.bind]
      | ok kinds =>
          rcases kinds with ⟨format, checksum⟩
          cases read : readRecords format none body with
          | error fault =>
              refine .inl ⟨fault, ?_⟩
              simp only [unpack, found, checked, read, mapError_ok, mapError_error, bind,
                Except.bind]
          | ok records =>
              cases ends : checkEnd lsn records with
              | error fault =>
                  refine .inl ⟨fault, ?_⟩
                  simp only [unpack, found, checked, read, ends, mapError_ok, mapError_error,
                    bind, Except.bind]
              | ok done =>
                  rcases of_readHeader? found with ⟨word_lt, rfl⟩
                  rcases check_eq_ok_iff.mp checked with ⟨admits, same⟩
                  rcases readRecords_eq_ok_iff.mp read with
                    ⟨fits, ⟨first, consecutive, _⟩, markers, all, rfl⟩
                  refine .inr ⟨format, checksum, header.firstWord, records, admits,
                    ⟨fits, ⟨first, consecutive⟩, checkEnd_eq_ok_iff.mp ends⟩, word_lt, markers,
                    all, ?_⟩
                  rw [image, encodeHeader, List.append_assoc, List.append_assoc,
                    List.append_assoc, same]

/-- The header and the records of an image are read back. -/
theorem read_of_spells {lsn word : Nat} {records : List Record} {bytes : Bytes}
    (ends : EndsAt lsn records) (spells : Spells format checksum word records bytes) :
    ∃ body, readHeader? bytes = some (⟨format.version, word, word, checksum.tag⟩, body) ∧
      readRecords format none body = .ok records := by
  rcases spells.image with ⟨markers, all, rfl⟩
  rcases ends.consecutive with ⟨first, consecutive⟩
  exact ⟨_, readHeader?_encodeHeader format checksum spells.word_lt _,
    readRecords_eq_ok_iff.mpr ⟨ends.fits, ⟨first, consecutive, nofun⟩, markers, all, rfl⟩⟩

/-- What a reader makes of an image that ends at the number it was written at. -/
theorem unpack_of_spells {lsn word : Nat} {records : List Record} {bytes : Bytes}
    (admits : policy.Admits format) (ends : EndsAt lsn records)
    (spells : Spells format checksum word records bytes) :
    unpack lsn policy bytes = (checkSum lsn checksum word records).map fun _ => records := by
  rcases read_of_spells ends spells with ⟨body, headed, read⟩
  exact unpack_of_read headed (check_encoded admits checksum word) read
    (checkEnd_eq_ok_iff.mpr ends.last)

/-- The word of an image is right, or a reader finds it wrong. -/
theorem unpack_of_image {lsn word : Nat} {records : List Record} {bytes : Bytes}
    (admits : policy.Admits format) (ends : EndsAt lsn records)
    (spells : Spells format checksum word records bytes) :
    Summed checksum word records ∧ unpack lsn policy bytes = .ok records ∨
      checksum = .adler32 ∧ word ≠ checksumWord .adler32 records ∧
        unpack lsn policy bytes = .error (.checksumMismatch lsn (UInt32.ofNat word)
          (payloadSums records).finish) := by
  rw [unpack_of_spells admits ends spells]
  cases checksum with
  | none => exact .inl ⟨nofun, rfl⟩
  | adler32 =>
      by_cases right : word = checksumWord .adler32 records
      · have summed : Summed .adler32 word records := fun _ => right
        exact .inl ⟨summed, by rw [checkSum_of_summed summed]; rfl⟩
      · exact .inr ⟨rfl, right, by rw [checkSum_of_ne right]; rfl⟩

theorem unpack_eq_ok_iff {lsn : Nat} {bytes : Bytes} {records : List Record} :
    unpack lsn policy bytes = .ok records ↔
      EndsAt lsn records ∧ ∃ format checksum word, policy.Admits format ∧
        Spells format checksum word records bytes ∧ Summed checksum word records := by
  constructor
  · intro ok
    rcases unpack_cases lsn policy bytes with
      ⟨fault, failed⟩ | ⟨format, checksum, word, found, admits, ends, spells⟩
    · rw [failed] at ok
      cases ok
    · rcases unpack_of_image admits ends spells with ⟨summed, accepted⟩ | ⟨_, _, mismatched⟩
      · rw [accepted] at ok
        cases ok
        exact ⟨ends, format, checksum, word, admits, spells, summed⟩
      · rw [mismatched] at ok
        cases ok
  · rintro ⟨ends, format, checksum, word, admits, spells, summed⟩
    rw [unpack_of_spells admits ends spells, checkSum_of_summed summed]
    rfl

theorem endsAt_of_unpack {lsn : Nat} {bytes : Bytes} {records : List Record}
    (unpacked : unpack lsn policy bytes = .ok records) : EndsAt lsn records :=
  (unpack_eq_ok_iff.mp unpacked).1

/-- What a reader makes of consecutive records ends where they do. -/
theorem endsAt_received (format : RegionFormat) {records : List Record} {first lsn : Nat}
    (fits : ∀ record ∈ records, record.Fits) (consecutive : Consecutive first records)
    (some_records : records ≠ []) (ends : lsn + 1 = first + records.length) :
    EndsAt lsn (records.map (received format)) := by
  have admits : FormatPolicy.auto.Admits format := trivial
  exact endsAt_of_unpack (unpack_pack admits .none fits consecutive some_records ends)

/-- A reader of all formats reads what any other reader does. -/
theorem unpack_auto {lsn : Nat} {bytes : Bytes} {records : List Record}
    (unpacked : unpack lsn policy bytes = .ok records) : unpack lsn .auto bytes = .ok records := by
  rcases unpack_eq_ok_iff.mp unpacked with ⟨ends, format, checksum, word, _, spelled⟩
  exact unpack_eq_ok_iff.mpr ⟨ends, format, checksum, word, trivial, spelled⟩

theorem unpack_eq_mismatch_iff {lsn : Nat} {bytes : Bytes} {expected actual : UInt32} :
    unpack lsn policy bytes = .error (.checksumMismatch lsn expected actual) ↔
      ∃ records format word, EndsAt lsn records ∧ policy.Admits format ∧
        Spells format .adler32 word records bytes ∧ word ≠ checksumWord .adler32 records ∧
          expected = UInt32.ofNat word ∧ actual = (payloadSums records).finish := by
  constructor
  · intro wrong
    rcases unpack_cases lsn policy bytes with
      ⟨fault, failed⟩ | ⟨format, checksum, word, records, admits, ends, spells⟩
    · rw [failed] at wrong
      cases wrong
    · rcases unpack_of_image admits ends spells with ⟨_, accepted⟩ | ⟨rfl, ne, mismatched⟩
      · rw [accepted] at wrong
        cases wrong
      · rw [mismatched] at wrong
        cases wrong
        exact ⟨records, format, word, ends, admits, spells, ne, rfl, rfl⟩
  · rintro ⟨records, format, word, ends, admits, spells, ne, rfl, rfl⟩
    rw [unpack_of_spells admits ends spells, checkSum_of_ne ne]
    rfl

/-- A reader accepts exactly the regions of records that end at the number the region was
written at, in a format that it admits, under the right checksum if there is one. Any
other byte string is an integrity fault, or it is such a region but for the two equal
words of its Adler-32 checksum. -/
theorem unpack_exact (lsn : Nat) (policy : FormatPolicy) (bytes : Bytes) :
    (∀ records, unpack lsn policy bytes = .ok records ↔
      EndsAt lsn records ∧ ∃ format checksum word, policy.Admits format ∧
        Spells format checksum word records bytes ∧ Summed checksum word records) ∧
    ((∃ records, unpack lsn policy bytes = .ok records) ∨
      (∃ fault, unpack lsn policy bytes = .error (.integrity lsn fault)) ∨
      ∃ expected actual,
        unpack lsn policy bytes = .error (.checksumMismatch lsn expected actual)) ∧
    ∀ expected actual,
      unpack lsn policy bytes = .error (.checksumMismatch lsn expected actual) ↔
        ∃ records format word, EndsAt lsn records ∧ policy.Admits format ∧
          Spells format .adler32 word records bytes ∧ word ≠ checksumWord .adler32 records ∧
            expected = UInt32.ofNat word ∧ actual = (payloadSums records).finish := by
  refine ⟨fun _ => unpack_eq_ok_iff, ?_, fun _ _ => unpack_eq_mismatch_iff⟩
  rcases unpack_cases lsn policy bytes with
    failed | ⟨format, checksum, word, records, admits, ends, spells⟩
  · exact .inr (.inl failed)
  · rcases unpack_of_image admits ends spells with ⟨_, accepted⟩ | ⟨_, _, mismatched⟩
    · exact .inl ⟨records, accepted⟩
    · exact .inr (.inr ⟨_, _, mismatched⟩)

end Logbook.Region

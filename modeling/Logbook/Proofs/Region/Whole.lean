import Logbook.Proofs.Region.Grammar

/-!
# Only whole regions are read

What a reader has read of a byte string it reads also when more bytes follow, and then
goes on with them. So no two regions that end at one number are such that one of them
starts the other, and a region is refused when bytes are missing at its end or are added
there. This does not depend on the checksum: a cut between two records, or a record too
many, is found by the number that the region was written at.
-/

namespace Logbook.Region

open Record

variable {format : RegionFormat} {checksum : ChecksumKind} {policy : FormatPolicy}

/-! ## More bytes -/

theorem readRecord_append {previous : Option Nat} {bytes rest : Bytes} {record : Record}
    (read : readRecord format previous bytes = .ok (record, rest)) (extra : Bytes) :
    readRecord format previous (bytes ++ extra) = .ok (record, rest ++ extra) := by
  rcases readRecord_eq_ok_iff.mp read with ⟨fits, follows, marker, marks, rfl⟩
  rw [List.append_assoc]
  exact readRecord_eq_ok_iff.mpr ⟨fits, follows, marker, marks, rfl⟩

/-- Records are read one after the other. -/
theorem readRecords_of_readRecord {previous : Option Nat} {bytes rest : Bytes} {record : Record}
    (read : readRecord format previous bytes = .ok (record, rest)) (some_bytes : bytes ≠ []) :
    readRecords format previous bytes =
      (readRecords format (some record.lsn) rest).map (record :: ·) := by
  cases others : readRecords format (some record.lsn) rest with
  | ok records => exact readRecords_eq_cons read others some_bytes
  | error fault =>
      cases bytes with
      | nil => exact absurd rfl some_bytes
      | cons byte bytes =>
          rw [readRecords]
          split
          · rename_i failed
            rw [read] at failed
            cases failed
          · rename_i read'
            rw [read] at read'
            cases read'
            rw [others]
            rfl

/-- Behind the records that were read, a reader goes on with the bytes that follow. -/
theorem readRecords_append {previous : Option Nat} {bytes : Bytes} {records : List Record}
    (read : readRecords format previous bytes = .ok records) (extra : Bytes) :
    ∃ before, readRecords format previous (bytes ++ extra) =
      (readRecords format before extra).map (records ++ ·) := by
  fun_induction readRecords format previous bytes generalizing records with
  | case1 previous =>
      cases read
      refine ⟨previous, ?_⟩
      rw [List.nil_append]
      cases readRecords format previous extra <;> rfl
  | case2 => cases read
  | case3 => cases read
  | case4 previous byte rest record after found others others_read ih =>
      cases read
      rcases ih others_read with ⟨before, continued⟩
      refine ⟨before, ?_⟩
      rw [readRecords_of_readRecord (readRecord_append found extra) (List.cons_ne_nil byte _),
        continued]
      cases readRecords format before extra <;> rfl

theorem eq_nil_of_readRecords {previous : Option Nat} {bytes : Bytes}
    (read : readRecords format previous bytes = .ok []) : bytes = [] := by
  fun_induction readRecords format previous bytes with
  | case1 => rfl
  | case2 => cases read
  | case3 => cases read
  | case4 => cases read

theorem readHeader?_append {bytes rest : Bytes} {header : Header}
    (found : readHeader? bytes = some (header, rest)) (extra : Bytes) :
    readHeader? (bytes ++ extra) = some (header, rest ++ extra) := by
  simp only [readHeader?, Option.bind_eq_bind, Option.bind_eq_some_iff, Option.pure_def,
    Option.some.injEq, Prod.mk.injEq, Prod.exists, Bytes.readNat?_eq_some_iff] at found ⊢
  rcases found with ⟨version, _, ⟨version_lt, rfl⟩, firstWord, _, ⟨first_lt, rfl⟩, secondWord, _,
    ⟨second_lt, rfl⟩, tag, _, ⟨tag_lt, rfl⟩, same, rfl⟩
  simp only [List.append_assoc]
  exact ⟨version, _, ⟨version_lt, rfl⟩, firstWord, _, ⟨first_lt, rfl⟩, secondWord, _,
    ⟨second_lt, rfl⟩, tag, _, ⟨tag_lt, rfl⟩, same, rfl⟩

/-! ## Whole regions -/

/-- Records that end at one number and start alike are the same. -/
theorem EndsAt.eq_nil {lsn : Nat} {records more : List Record} (ends : EndsAt lsn records)
    (ends_more : EndsAt lsn (records ++ more)) : more = [] := by
  rcases ends_more.consecutive with ⟨first, consecutive⟩
  rcases ends.last with ⟨last, newest, last_eq⟩
  rcases ends_more.last with ⟨other, other_newest, other_eq⟩
  have bound := (consecutive_append.mp consecutive).1.getLast newest
  have other_bound := consecutive.getLast other_newest
  rw [List.length_append] at other_bound
  exact List.length_eq_zero_iff.mp (by omega)

/-- A region with more bytes behind it is none that ends at its number. -/
theorem unpack_append {lsn : Nat} {bytes extra : Bytes} {records : List Record}
    (ends : EndsAt lsn records) {word : Nat} (spells : Spells format checksum word records bytes)
    (some_extra : extra ≠ []) (policy : FormatPolicy) :
    ∃ fault, unpack lsn policy (bytes ++ extra) = .error (.integrity lsn fault) := by
  rcases unpack_cases lsn policy (bytes ++ extra) with
    refused | ⟨format', checksum', word', all, admits, all_ends, all_spells⟩
  · exact refused
  · rcases read_of_spells ends spells with ⟨body, headed, read⟩
    rcases read_of_spells all_ends all_spells with ⟨all_body, all_headed, all_read⟩
    -- The header is the same, so the records are read in the same format.
    rw [readHeader?_append headed extra] at all_headed
    rcases Prod.mk.inj (Option.some.inj all_headed) with ⟨header_eq, rfl⟩
    have format_eq : format = format' :=
      RegionFormat.version_injective (congrArg Header.version header_eq)
    subst format_eq
    rcases readRecords_append read extra with ⟨before, continued⟩
    rw [continued] at all_read
    cases more_read : readRecords format before extra with
    | error fault =>
        rw [more_read] at all_read
        cases all_read
    | ok more =>
        rw [more_read] at all_read
        cases all_read
        rw [ends.eq_nil all_ends] at more_read
        exact absurd (eq_nil_of_readRecords more_read) some_extra

/-- A region of consecutive records is refused at the number of the last one if it is cut off
anywhere, or if any bytes are put behind it. -/
theorem unpack_whole {records : List Record} {first : Nat} {last : Record}
    (fits : ∀ record ∈ records, record.Fits) (consecutive : Consecutive first records)
    (newest : records.getLast? = some last) (format : RegionFormat) (checksum : ChecksumKind)
    (policy : FormatPolicy) :
    (∀ torn, torn <+: pack format checksum records → torn ≠ pack format checksum records →
      ∃ fault, unpack last.lsn policy torn = .error (.integrity last.lsn fault)) ∧
    ∀ extra, extra ≠ [] →
      ∃ fault, unpack last.lsn policy (pack format checksum records ++ extra) =
        .error (.integrity last.lsn fault) := by
  have some_records : records ≠ [] := List.getLast?_isSome.mp (by rw [newest]; rfl)
  have total := consecutive.getLast newest
  have ends := endsAt_received format fits consecutive some_records total
  have spells := spells_pack format checksum fits
  constructor
  · rintro torn ⟨missing, whole⟩ strict
    have some_missing : missing ≠ [] := by
      rintro rfl
      rw [List.append_nil] at whole
      exact strict whole
    rcases unpack_cases last.lsn policy torn with
      refused | ⟨format', checksum', word, kept, admits, kept_ends, kept_spells⟩
    · exact refused
    · -- What is left would be a region that the whole one goes on behind.
      have admits : FormatPolicy.auto.Admits format := trivial
      rcases unpack_append kept_ends kept_spells some_missing .auto with ⟨fault, refused⟩
      rw [whole, unpack_pack admits checksum fits consecutive some_records total] at refused
      cases refused
  · intro extra some_extra
    exact unpack_append ends spells some_extra policy

/-- The first of two records without the second, and both with one more of the next number. -/
theorem unpack_whole_lookalikePair :
    (∀ record ∈ lookalikePair, record.Fits) ∧ Consecutive 200 lookalikePair ∧
      lookalikePair.getLast? = some ⟨201, 150, []⟩ ∧
      (∃ fault, unpack 201 .auto ((pack .current .none lookalikePair).take 48) =
        .error (.integrity 201 fault)) ∧
      ∃ fault, unpack 201 .auto
          (pack .current .none lookalikePair ++ encodeRecord .current ⟨202, 150, []⟩) =
        .error (.integrity 201 fault) := by
  have consecutive : Consecutive 200 lookalikePair := rfl
  have strict : (pack .current .none lookalikePair).take 48 ≠ pack .current .none lookalikePair :=
    by decide
  rcases unpack_whole fits_lookalikePair consecutive rfl .current .none .auto with ⟨torn, overlong⟩
  exact ⟨fits_lookalikePair, consecutive, rfl, torn _ (List.take_prefix 48 _) strict,
    overlong _ (encodeRecord_ne_nil .current ⟨202, 150, []⟩)⟩

end Logbook.Region

import Logbook.Proofs.Region.RoundTrip
import Logbook.Recovery.Scan

/-!
# What a scan finds

A log that was cut into regions anywhere, each in a format that the reader admits
and with any checksum, is scanned record by record from its end, as if there were
no regions.
-/

namespace Logbook

/-- Consecutive records of a log that share a region, and how it is written. -/
structure Piece where
  format : RegionFormat
  checksum : ChecksumKind
  records : List Record

namespace Piece

/-- The region of a piece, under the number of its last record. -/
def chunk (piece : Piece) : Chunk where
  lsn := (piece.records.getLast?.map (·.lsn)).getD Lsn.none
  bytes := Region.pack piece.format piece.checksum piece.records

/-- What a reader makes of the records of a piece. -/
def received (piece : Piece) : List Record :=
  piece.records.map (Region.received piece.format)

/-- A log from `first` on, cut into pieces that a reader under `policy` accepts. -/
structure Cut (policy : FormatPolicy) (first : Nat) (pieces : List Piece) : Prop where
  consecutive : Record.Consecutive first (pieces.flatMap records)
  some_records : ∀ piece ∈ pieces, piece.records ≠ []
  admitted : ∀ piece ∈ pieces, policy.Admits piece.format
  fits : ∀ piece ∈ pieces, ∀ record ∈ piece.records, record.Fits

variable {policy : FormatPolicy} {first : Nat}

theorem unpack_chunk {piece : Piece} (consecutive : Record.Consecutive first piece.records)
    (some_records : piece.records ≠ []) (admits : policy.Admits piece.format)
    (fits : ∀ record ∈ piece.records, record.Fits) :
    Region.unpack piece.chunk.lsn policy piece.chunk.bytes = .ok piece.received := by
  have found := List.getLast?_eq_some_getLast some_records
  refine Region.unpack_pack admits piece.checksum fits consecutive some_records ?_
  rw [chunk, found]
  exact consecutive.getLast found

theorem cut_cons {piece : Piece} {pieces : List Piece} :
    Cut policy first (piece :: pieces) ↔
      (Record.Consecutive first piece.records ∧ piece.records ≠ [] ∧
        policy.Admits piece.format ∧ ∀ record ∈ piece.records, record.Fits) ∧
      Cut policy (first + piece.records.length) pieces := by
  constructor
  · rintro ⟨consecutive, some_records, admitted, fits⟩
    rw [List.flatMap_cons, Record.consecutive_append] at consecutive
    rw [List.forall_mem_cons] at some_records admitted fits
    exact ⟨⟨consecutive.1, some_records.1, admitted.1, fits.1⟩,
      ⟨consecutive.2, some_records.2, admitted.2, fits.2⟩⟩
  · rintro ⟨⟨here, some_here, admits, fits_here⟩, rest⟩
    constructor
    · rw [List.flatMap_cons, Record.consecutive_append]
      exact ⟨here, rest.consecutive⟩
    · exact List.forall_mem_cons.mpr ⟨some_here, rest.some_records⟩
    · exact List.forall_mem_cons.mpr ⟨admits, rest.admitted⟩
    · exact List.forall_mem_cons.mpr ⟨fits_here, rest.fits⟩

/-- Pieces of a log behind pieces of it. -/
theorem cut_append {front back : List Piece} :
    Cut policy first (front ++ back) ↔
      Cut policy first front ∧ Cut policy (first + (front.flatMap records).length) back := by
  induction front generalizing first with
  | nil =>
      simp only [List.nil_append, List.flatMap_nil, List.length_nil, Nat.add_zero]
      exact ⟨fun cut => ⟨⟨rfl, nofun, nofun, nofun⟩, cut⟩, And.right⟩
  | cons piece front ih =>
      simp only [List.cons_append, cut_cons, ih, and_assoc, List.flatMap_cons,
        List.length_append, Nat.add_assoc]

/-- Pieces of the current format are read under each policy that admits it. -/
theorem Cut.of_current {other : FormatPolicy} {pieces : List Piece}
    (cut : Cut policy first pieces) (current : ∀ piece ∈ pieces, piece.format = .current)
    (admits : other.Admits .current) : Cut other first pieces where
  consecutive := cut.consecutive
  some_records := cut.some_records
  admitted piece member := current piece member ▸ admits
  fits := cut.fits

theorem Cut.unpack {pieces : List Piece} (cut : Cut policy first pieces) :
    ∀ piece ∈ pieces,
      Region.unpack piece.chunk.lsn policy piece.chunk.bytes = .ok piece.received := by
  induction pieces generalizing first with
  | nil => simp
  | cons piece pieces ih =>
      rcases cut_cons.mp cut with ⟨⟨consecutive, some_records, admits, fits⟩, rest⟩
      exact List.forall_mem_cons.mpr
        ⟨unpack_chunk consecutive some_records admits fits, ih rest⟩

theorem map_lsn_received (pieces : List Piece) :
    (pieces.flatMap received).map (·.lsn) = (pieces.flatMap records).map (·.lsn) := by
  induction pieces with
  | nil => rfl
  | cons piece pieces ih =>
      rw [List.flatMap_cons, List.flatMap_cons, List.map_append, List.map_append, ih, received,
        List.map_map]
      rfl

theorem Cut.consecutive_received {pieces : List Piece} (cut : Cut policy first pieces) :
    Record.Consecutive first (pieces.flatMap received) := by
  have length := congrArg List.length (map_lsn_received pieces)
  rw [List.length_map, List.length_map] at length
  rw [Record.Consecutive, map_lsn_received, length]
  exact cut.consecutive

/-- The regions of a log are written at ascending numbers. -/
theorem Cut.pairwise_lsn {policy : FormatPolicy} {first : Nat} {pieces : List Piece}
    (cut : Cut policy first pieces) :
    (∀ piece ∈ pieces, first ≤ piece.chunk.lsn) ∧
      (pieces.map (·.chunk.lsn)).Pairwise (· < ·) := by
  induction pieces generalizing first with
  | nil => simp
  | cons piece pieces ih =>
      rcases cut_cons.mp cut with ⟨⟨consecutive, some_records, _, _⟩, rest⟩
      rcases ih rest with ⟨above, pairwise⟩
      have found := List.getLast?_eq_some_getLast some_records
      have ends := consecutive.getLast found
      have lsn_eq : piece.chunk.lsn = (piece.records.getLast some_records).lsn := by
        rw [chunk, found]
        rfl
      have some_length := List.length_pos_iff.mpr some_records
      refine ⟨List.forall_mem_cons.mpr ⟨by omega, fun other member => ?_⟩, ?_⟩
      · exact Nat.le_trans (Nat.le_add_right _ _) (above other member)
      · rw [List.map_cons, List.pairwise_cons]
        refine ⟨fun lsn member => ?_, pairwise⟩
        rcases List.mem_map.mp member with ⟨other, other_member, rfl⟩
        have := above other other_member
        omega

theorem received_of_current {piece : Piece} (current : piece.format = .current) :
    piece.received = piece.records := by
  rw [received, current]
  exact List.map_id _

theorem flatMap_received_of_current {pieces : List Piece}
    (current : ∀ piece ∈ pieces, piece.format = .current) :
    pieces.flatMap received = pieces.flatMap records := by
  rw [List.flatMap_def, List.flatMap_def]
  apply congrArg List.flatten
  apply List.map_congr_left
  exact fun piece member => received_of_current (current piece member)

/-- A log without records has no regions. -/
theorem Cut.eq_nil {pieces : List Piece} (cut : Cut policy first pieces)
    (no_records : pieces.flatMap records = []) : pieces = [] := by
  cases pieces with
  | nil => rfl
  | cons piece pieces =>
      rw [List.flatMap_eq_nil_iff] at no_records
      exact absurd (no_records piece List.mem_cons_self)
        (cut.some_records piece List.mem_cons_self)

end Piece

namespace Recovery

/-- Regions that are unpacked give their records, the newest first. -/
theorem unpackAll_pieces {policy : FormatPolicy} {pieces : List Piece}
    (unpacked : ∀ piece ∈ pieces,
      Region.unpack piece.chunk.lsn policy piece.chunk.bytes = .ok piece.received)
    (regions : Nat) :
    ∃ scanned : List Scanned,
      unpackAll policy regions (pieces.map fun piece => .ok piece.chunk) = scanned.map .ok ∧
        scanned.map (·.record) = pieces.flatMap fun piece => piece.received.reverse := by
  induction pieces generalizing regions with
  | nil => exact ⟨[], rfl, rfl⟩
  | cons piece pieces ih =>
      rw [List.forall_mem_cons] at unpacked
      rcases ih unpacked.2 (regions + 1) with ⟨scanned, found, records⟩
      refine ⟨piece.received.reverse.map (⟨·, regions + 1⟩) ++ scanned, ?_, ?_⟩
      · rw [List.map_cons, unpackAll, unpacked.1]
        simp [found]
      · rw [List.map_append, records, List.map_map, List.flatMap_cons]
        congr 1
        exact List.map_id _

/-- Records that follow one another downwards have no gap. -/
theorem checkDescent_eq_self {scanned : List Scanned} {lowest count : Nat}
    (lsns : scanned.map (·.record.lsn) = (List.range' lowest count).reverse)
    {expected : Option Nat} (expects : ∀ lsn, expected = some lsn → lsn = lowest + count - 1) :
    checkDescent expected (scanned.map .ok) = scanned.map .ok := by
  induction count generalizing scanned expected with
  | zero =>
      rw [List.map_eq_nil_iff.mp lsns]
      rfl
  | succ count ih =>
      rw [List.range'_1_concat, List.reverse_append, List.reverse_singleton,
        List.singleton_append] at lsns
      rcases List.map_eq_cons_iff.mp lsns with ⟨newest, older, rfl, lsn_eq, lsns⟩
      have matching : expected.filter (· ≠ newest.record.lsn) = none := by
        cases expected with
        | none => rfl
        | some lsn =>
            have := expects lsn rfl
            rw [Option.filter_some, if_neg]
            rw [lsn_eq]
            simpa using this
      rw [List.map_cons, checkDescent, matching]
      simp only
      rw [ih lsns]
      rintro lsn same
      cases same
      rw [lsn_eq]

/-- The scan of a log that was cut into pieces. -/
theorem scan_pieces {policy : FormatPolicy} {first : Nat} {pieces : List Piece}
    (cut : Piece.Cut policy first pieces) :
    ∃ scanned : List Scanned,
      scan policy (pieces.reverse.map fun piece => .ok piece.chunk) = scanned.map .ok ∧
        scanned.map (·.record) = (pieces.flatMap Piece.received).reverse := by
  have unpacked : ∀ piece ∈ pieces.reverse,
      Region.unpack piece.chunk.lsn policy piece.chunk.bytes = .ok piece.received :=
    fun piece member => cut.unpack piece (List.mem_reverse.mp member)
  rcases unpackAll_pieces unpacked 0 with ⟨scanned, unpacked, records⟩
  have reversed : scanned.map (·.record) = (pieces.flatMap Piece.received).reverse := by
    rw [records, List.reverse_flatMap]
    rfl
  refine ⟨scanned, ?_, reversed⟩
  have lsns : scanned.map (·.record.lsn) =
      (List.range' first (pieces.flatMap Piece.received).length).reverse := by
    rw [← cut.consecutive_received, ← List.map_reverse, ← reversed, List.map_map]
    rfl
  rw [scan, unpacked]
  exact checkDescent_eq_self lsns (by simp)

end Recovery

end Logbook

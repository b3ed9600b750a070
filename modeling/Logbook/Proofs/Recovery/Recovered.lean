import Logbook.Proofs.Recovery.Passed
import Logbook.Proofs.Recovery.Scanned

/-!
# What recovery makes of a log

Recovery of a log that was cut into pieces is one pass over its entries from the
newest down to the boundary, with whatever crew.
-/

namespace Logbook

namespace Recovery

variable {α σ : Type} {app : Application α σ}

/-- A log that recovery can read down to the boundary: it is cut into pieces that
the reader accepts, reaches down to the boundary, and has entries from there on. -/
structure Recoverable (app : Application α σ) (policy : FormatPolicy)
    (options : RecoveryOptions) (first : Nat) (pieces : List Piece) (newest : Record)
    (boundary : Nat) : Prop where
  cut : Piece.Cut policy first pieces
  newest_eq : (pieces.flatMap Piece.received).getLast? = some newest
  boundary_eq : boundary = max (options.lowestLive.getD newest.lowest) Lsn.first
  first_le : first ≤ boundary
  boundary_le : boundary ≤ newest.lsn
  decodes : ∀ record ∈ pieces.flatMap Piece.records, boundary ≤ record.lsn →
    ∃ entry, Entry.decode app record.payload = .ok entry

/-- A log of the current format whose records go back to the first number is recovered as
a whole. -/
theorem recoverable_of_whole {policy : FormatPolicy} {pieces : List Piece} {newest : Record}
    (cut : Piece.Cut policy Lsn.first pieces) (current : ∀ piece ∈ pieces, piece.format = .current)
    (newest_eq : (pieces.flatMap Piece.records).getLast? = some newest)
    (lowest_eq : newest.lowest = Lsn.first)
    (decodes : ∀ record ∈ pieces.flatMap Piece.records,
      ∃ entry, Entry.decode app record.payload = .ok entry) :
    Recoverable app policy {} Lsn.first pieces newest Lsn.first where
  cut := cut
  newest_eq := by
    rw [Piece.flatMap_received_of_current current]
    exact newest_eq
  boundary_eq := by
    rw [Option.getD_none, lowest_eq, Nat.max_self]
  first_le := Nat.le_refl _
  boundary_le := by
    have last := cut.consecutive.getLast newest_eq
    have some_records := List.length_pos_of_mem (List.mem_of_getLast? newest_eq)
    omega
  decodes record member _ := decodes record member

/-- The entries of pieces, up to the newest one. -/
def Ledger.ofPieces (app : Application α σ) (newest : Record) (pieces : List Piece) :
    Ledger α :=
  .ofRecords app newest.lsn (pieces.flatMap Piece.records)

/-- The numbers from a boundary up to the newest record, in descending order. -/
def descent (boundary highest : Nat) : List Nat :=
  (List.range' boundary (highest + 1 - boundary)).reverse

theorem mem_descent {boundary highest lsn : Nat} :
    lsn ∈ descent boundary highest ↔ boundary ≤ lsn ∧ lsn ≤ highest := by
  rw [descent, List.mem_reverse, List.mem_range'_1]
  omega

theorem pairwise_descent (boundary highest : Nat) :
    (descent boundary highest).Pairwise fun newer older => older < newer := by
  rw [descent, List.pairwise_reverse]
  exact List.pairwise_lt_range'

theorem ledger_entry {policy : FormatPolicy} {first : Nat} {pieces : List Piece}
    (cut : Piece.Cut policy first pieces) (newest : Record) {seen : Record}
    (member : seen ∈ pieces.flatMap Piece.received) {entry : Entry α}
    (decoded : Entry.decode app seen.payload = .ok entry) :
    (Ledger.ofPieces app newest pieces).entry seen.lsn = some entry := by
  rcases List.mem_flatMap.mp member with ⟨piece, piece_member, member⟩
  rcases List.mem_map.mp member with ⟨record, record_member, rfl⟩
  have logged := List.mem_flatMap.mpr ⟨piece, piece_member, record_member⟩
  have found := cut.consecutive.find?_lsn logged
  rw [Region.received_payload] at decoded
  simp only [Ledger.ofPieces, Ledger.ofRecords, Region.received_lsn, found, Option.bind_some,
    decoded]
  rfl

namespace Recoverable

variable {policy : FormatPolicy} {options : RecoveryOptions} {first : Nat}
  {pieces : List Piece} {newest : Record} {boundary : Nat}

theorem newest_lsn (recoverable : Recoverable app policy options first pieces newest boundary) :
    newest.lsn + 1 = first + (pieces.flatMap Piece.received).length :=
  recoverable.cut.consecutive_received.getLast recoverable.newest_eq

theorem decoded (recoverable : Recoverable app policy options first pieces newest boundary)
    {seen : Record} (member : seen ∈ pieces.flatMap Piece.received)
    (boundary_le : boundary ≤ seen.lsn) :
    ∃ entry, Entry.decode app seen.payload = .ok entry ∧
      (Ledger.ofPieces app newest pieces).entry seen.lsn = some entry := by
  rcases List.mem_flatMap.mp member with ⟨piece, piece_member, received⟩
  rcases List.mem_map.mp received with ⟨record, record_member, rfl⟩
  obtain ⟨entry, decoded⟩ := recoverable.decodes record
    (List.mem_flatMap.mpr ⟨piece, piece_member, record_member⟩) boundary_le
  exact ⟨entry, decoded, ledger_entry recoverable.cut newest member decoded⟩

/-- The scan finds the newest record first, and all numbers down to the boundary. -/
theorem scan_eq (recoverable : Recoverable app policy options first pieces newest boundary) :
    ∃ (front below : List Scanned),
      scan policy ((pieces.map Piece.chunk).reverse.map .ok) = (front ++ below).map .ok ∧
        (front.map (·.record)).head? = some newest ∧
        front.map (·.record.lsn) = descent boundary newest.lsn ∧
        ∀ scanned ∈ front, scanned.record ∈ pieces.flatMap Piece.received := by
  rcases scan_pieces recoverable.cut with ⟨scanned, scan_eq, records⟩
  have newest_lsn := recoverable.newest_lsn
  have first_le := recoverable.first_le
  have boundary_le := recoverable.boundary_le
  let taken := newest.lsn + 1 - boundary
  have lsns : scanned.map (·.record.lsn) =
      (List.range' first (boundary - first + taken)).reverse := by
    have length : (pieces.flatMap Piece.received).length = boundary - first + taken := by omega
    have consecutive := recoverable.cut.consecutive_received
    rw [Record.Consecutive, length] at consecutive
    rw [← consecutive, ← List.map_reverse, ← records, List.map_map]
    rfl
  refine ⟨scanned.take taken, scanned.drop taken, ?_, ?_, ?_, fun seen member => ?_⟩
  · rw [List.take_append_drop, ← scan_eq, ← List.map_reverse, List.map_map]
    rfl
  · have some_taken : taken ≠ 0 := by omega
    rw [List.map_take, records, List.head?_take, if_neg some_taken, List.head?_reverse,
      recoverable.newest_eq]
  · have start : first + (boundary - first) = boundary := by omega
    rw [List.map_take, lsns, ← List.range'_append_1, List.reverse_append, start]
    exact List.take_left' (by simp)
  · rw [← List.mem_reverse, ← records]
    exact List.mem_map.mpr ⟨seen, List.mem_of_mem_take member, rfl⟩

end Recoverable

/-- A recovery is a pass over the numbers from the newest down to the boundary. -/
theorem recoverWith_eq_conclude {options : RecoveryOptions} {config : Config} {first : Nat}
    {pieces : List Piece} {newest : Record} {boundary : Nat}
    (recoverable : Recoverable app config.formatPolicy options first pieces newest boundary)
    {holds : List (Use α) → Crew α σ → Prop}
    (steady : Crew.Steady app
      ((Ledger.ofPieces app newest pieces).uses app (descent boundary newest.lsn)) holds)
    (schedule : Schedule) {state : σ} (held : holds [] (.assemble config.replayWorkers state)) :
    ∃ pass : Pass α σ,
      recoverWith app schedule config options
          ((pieces.map Piece.chunk).reverse.map .ok) state = conclude app schedule .done pass ∧
        Reported app (.ofPieces app newest pieces) (descent boundary newest.lsn)
          (.initial (some newest.lsn) boundary) pass.report ∧
        holds ((Ledger.ofPieces app newest pieces).uses app (descent boundary newest.lsn))
          pass.crew := by
  rcases recoverable.scan_eq with ⟨front, below, scan_eq, newest_eq, lsns, seen⟩
  have boundary_le := recoverable.boundary_le
  cases front with
  | nil => cases newest_eq
  | cons scanned older =>
      obtain rfl : scanned.record = newest := Option.some.inj newest_eq
      have count : scanned.record.lsn + 1 - boundary = scanned.record.lsn - boundary + 1 := by
        omega
      have knows : Tables.Knows app (.ofPieces app scanned.record pieces)
          (boundary + (scanned.record.lsn - boundary) + 1) .empty := by
        rw [Nat.add_sub_cancel' boundary_le]
        exact Tables.knows_empty
      have decoded : ∀ other ∈ scanned :: older, ∃ entry,
          Entry.decode app other.record.payload = .ok entry ∧
            (Ledger.ofPieces app scanned.record pieces).entry other.record.lsn = some entry := by
        intro other member
        have lsn : other.record.lsn ∈ descent boundary scanned.record.lsn := by
          rw [← lsns]
          exact List.mem_map.mpr ⟨other, member, rfl⟩
        exact recoverable.decoded (seen other member) (mem_descent.mp lsn).1
      obtain ⟨pass, run_eq, reported, held⟩ := Pass.run_spec steady schedule
        ⟨.initial (some scanned.record.lsn) boundary, .empty,
          .assemble config.replayWorkers state⟩ below none
        (lsns.trans (by rw [descent, count]; rfl)) decoded knows
        (Nat.le_of_eq (Nat.add_sub_cancel' boundary_le)) held (by rw [lsns]; rfl)
      refine ⟨pass, ?_, lsns ▸ reported, held⟩
      rw [List.cons_append, List.map_cons] at scan_eq run_eq
      rw [recoverWith, scan_eq]
      simp only [← recoverable.boundary_eq, run_eq]

end Recovery

end Logbook

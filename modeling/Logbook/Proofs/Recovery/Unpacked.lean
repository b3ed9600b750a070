import Logbook.Proofs.Recovery.Newest
import Logbook.Proofs.Recovery.Scanned

/-!
# What was read is what the regions say

Any region that is unpacked, however it came about, holds consecutive records. So a
scan that found consecutive records has read regions which follow one another, and it
stops at the first record that does not follow.
-/

namespace Logbook

/-- Consecutive records, from a number on. -/
theorem Record.Consecutive.filter_ge {first boundary : Nat} {records : List Record}
    (consecutive : Record.Consecutive first records) (first_le : first ≤ boundary) :
    (records.filter (boundary ≤ ·.lsn)).map (·.lsn) =
      List.range' boundary (first + records.length - boundary) := by
  induction records generalizing first with
  | nil =>
      rw [List.length_nil, Nat.add_zero, Nat.sub_eq_zero_of_le first_le]
      rfl
  | cons record records ih =>
      have lsns := consecutive
      rcases Record.consecutive_cons.mp consecutive with ⟨lsn_eq, consecutive⟩
      rcases Nat.eq_or_lt_of_le first_le with rfl | lt
      · have all_above : ∀ other ∈ record :: records, decide (first ≤ other.lsn) = true := by
          intro other member
          rcases List.getElem?_of_mem member with ⟨offset, found⟩
          rw [lsns.lsn_of_getElem? found]
          exact decide_eq_true (Nat.le_add_right first offset)
        rw [List.filter_eq_self.mpr all_above, Nat.add_sub_cancel_left]
        exact lsns
      · rw [List.filter_cons_of_neg (by simp [lsn_eq, lt]), ih consecutive lt, List.length_cons,
          Nat.add_right_comm, Nat.add_assoc first]

/-- Each region is unpacked, at the number it was written at, to some records. -/
def Unpacks (policy : FormatPolicy) (chunks : List Chunk) (parts : List (List Record)) : Prop :=
  chunks.map (fun chunk => Region.unpack chunk.lsn policy chunk.bytes) = parts.map .ok

/-- Pieces of the current format are unpacked to the records they were cut from. -/
theorem Piece.Cut.unpacks {policy : FormatPolicy} {first : Nat} {pieces : List Piece}
    (cut : Piece.Cut policy first pieces) (current : ∀ piece ∈ pieces, piece.format = .current) :
    Unpacks policy (pieces.map Piece.chunk) (pieces.map Piece.records) := by
  rw [Unpacks, List.map_map, List.map_map]
  refine List.map_congr_left ?_
  intro piece member
  rw [Function.comp_apply, cut.unpack piece member, Piece.received_of_current (current piece member)]
  rfl

theorem Unpacks.append {policy : FormatPolicy} {front back : List Chunk}
    {front_parts back_parts : List (List Record)} (unpacks : Unpacks policy front front_parts)
    (unpacks_back : Unpacks policy back back_parts) :
    Unpacks policy (front ++ back) (front_parts ++ back_parts) := by
  rw [Unpacks, List.map_append, List.map_append, unpacks, unpacks_back]

namespace Recovery

variable {policy : FormatPolicy}

/-- The items of a scan that have the numbers from `lowest` on, the highest first. -/
def Descends (lowest : Nat) (items : List Scanned) : Prop :=
  items.map (·.record.lsn) = (List.range' lowest items.length).reverse

theorem descends_cons {lowest : Nat} {newest : Scanned} {older : List Scanned} :
    Descends lowest (newest :: older) ↔
      newest.record.lsn = lowest + older.length ∧ Descends lowest older := by
  rw [Descends, List.length_cons, List.range'_1_concat, List.reverse_append,
    List.reverse_singleton, List.singleton_append, List.map_cons, List.cons.injEq]
  rfl

theorem descends_append {lowest : Nat} {front back : List Scanned} :
    Descends lowest (front ++ back) ↔
      Descends (lowest + back.length) front ∧ Descends lowest back := by
  induction front with
  | nil => simp [Descends]
  | cons newest older ih =>
      rw [List.cons_append, descends_cons, ih, descends_cons, List.length_append, and_assoc,
        Nat.add_assoc, Nat.add_comm back.length]

theorem descends_singleton {lowest : Nat} {item : Scanned} :
    Descends lowest [item] ↔ item.record.lsn = lowest := by
  simp [Descends]

theorem Descends.head {lowest : Nat} {items : List Scanned} {newest : Scanned}
    (descends : Descends lowest items) (begins : items.head? = some newest) :
    newest.record.lsn + 1 = lowest + items.length := by
  cases items with
  | nil => cases begins
  | cons head older =>
      cases begins
      rw [(descends_cons.mp descends).1, List.length_cons, Nat.add_assoc]

/-- What a scan finds in a region, the first `regions` of which it has then read. -/
def block (regions : Nat) (records : List Record) : List Scanned :=
  records.reverse.map (⟨·, regions⟩)

@[simp]
theorem length_block (regions : Nat) (records : List Record) :
    (block regions records).length = records.length := by
  simp [block]

theorem map_record_block (regions : Nat) (records : List Record) :
    (block regions records).map (·.record) = records.reverse := by
  rw [block, List.map_map]
  exact List.map_id _

theorem regions_of_mem_block {regions : Nat} {records : List Record} {item : Scanned}
    (member : item ∈ block regions records) : item.regions = regions := by
  rcases List.mem_map.mp member with ⟨_, _, rfl⟩
  rfl

theorem descends_block {regions first : Nat} {records : List Record} :
    Descends first (block regions records) ↔ Record.Consecutive first records := by
  have lsns : (block regions records).map (·.record.lsn) = (records.map (·.lsn)).reverse := by
    rw [← List.map_reverse, ← map_record_block regions, List.map_map]
    rfl
  rw [Descends, lsns, length_block, List.reverse_inj]
  rfl

theorem descends_of_consecutive {first : Nat} {records : List Record}
    (consecutive : Record.Consecutive first records) (regions : Nat) :
    Descends first (block regions records) :=
  descends_block.mpr consecutive

theorem unpackAll_cons {chunk : Chunk} {records : List Record}
    (unpacked : Region.unpack chunk.lsn policy chunk.bytes = .ok records) (regions : Nat)
    (rest : List (Except StorageError Chunk)) :
    unpackAll policy regions (.ok chunk :: rest) =
      (block (regions + 1) records).map .ok ++ unpackAll policy (regions + 1) rest := by
  rw [unpackAll, unpacked, block, List.map_map]
  rfl

/-- An item of two stretches is in the first or in the second. -/
theorem split_of_append_eq {block front : List Scanned} {item : Scanned}
    {back rest : List (Except LogError Scanned)}
    (found : block.map .ok ++ back = front.map .ok ++ .ok item :: rest) :
    (∃ older, front = block ++ older ∧ back = older.map .ok ++ .ok item :: rest) ∨
      ∃ more, block = front ++ item :: more := by
  induction block generalizing front with
  | nil => exact .inl ⟨front, rfl, found⟩
  | cons head block ih =>
      cases front with
      | nil =>
          cases found
          exact .inr ⟨block, rfl⟩
      | cons other front =>
          have same : head = other := Except.ok.inj (List.cons.inj found).1
          subst same
          rcases ih (List.cons.inj found).2 with ⟨older, rfl, back_eq⟩ | ⟨more, rfl⟩
          · exact .inl ⟨older, rfl, back_eq⟩
          · exact .inr ⟨more, rfl⟩

/-- As long as records follow one another, a scan goes on. -/
theorem checkDescent_append {lowest : Nat} {front : List Scanned}
    (descends : Descends lowest front)
    (rest : List (Except LogError Scanned)) :
    checkDescent (some (lowest + front.length - 1)) (front.map .ok ++ rest) =
      front.map .ok ++ checkDescent (some (lowest - 1)) rest := by
  induction front with
  | nil => rfl
  | cons newest older ih =>
      rcases descends_cons.mp descends with ⟨lsn_eq, descends⟩
      have matching : (some (lowest + (newest :: older).length - 1)).filter
          (· ≠ newest.record.lsn) = none := by
        simp [lsn_eq, ← Nat.add_assoc]
      rw [List.map_cons, List.cons_append, checkDescent, matching]
      dsimp only
      rw [lsn_eq, ih descends]
      rfl

/-- The scan starts with the newest record, whatever its number is. -/
theorem checkDescent_newest (newest : Scanned) (older : List (Except LogError Scanned)) :
    checkDescent none (.ok newest :: older) =
      checkDescent (some newest.record.lsn) (.ok newest :: older) := by
  simp [checkDescent, Option.filter]

/-- Regions that are all unpacked are found record by record, before those that come
behind them. -/
theorem unpackAll_append_of_unpacks {chunks : List Chunk} {parts : List (List Record)}
    (unpacks : Unpacks policy chunks parts) (regions : Nat)
    (more : List (Except StorageError Chunk)) :
    ∃ items : List Scanned, unpackAll policy regions (chunks.map .ok ++ more) =
        items.map .ok ++ unpackAll policy (regions + chunks.length) more ∧
      items.map (·.record) = parts.reverse.flatten.reverse := by
  induction chunks generalizing regions parts with
  | nil =>
      obtain rfl : parts = [] := List.map_eq_nil_iff.mp unpacks.symm
      exact ⟨[], rfl, rfl⟩
  | cons chunk chunks ih =>
      rcases List.map_eq_cons_iff.mp unpacks.symm with ⟨records, parts, rfl, unpacked, unpacks⟩
      rcases ih unpacks.symm (regions + 1) with ⟨items, found, records_eq⟩
      refine ⟨block (regions + 1) records ++ items, ?_, ?_⟩
      · rw [List.map_cons, List.cons_append, unpackAll_cons unpacked.symm, found, List.map_append,
          List.append_assoc, List.length_cons, Nat.add_assoc, Nat.add_comm 1]
      · rw [List.map_append, map_record_block, records_eq, List.reverse_cons, List.flatten_concat,
          List.reverse_append]

/-- From some records that follow one another down to `item`, the regions that were read
up to there follow one another, too. -/
theorem read_of_unpackAll {chunks : List Chunk} {regions : Nat} {front : List Scanned}
    {item : Scanned} {rest : List (Except LogError Scanned)}
    (found : unpackAll policy regions (chunks.map .ok) = front.map .ok ++ .ok item :: rest)
    (descends : Descends item.record.lsn (front ++ [item])) :
    ∃ read unread parts first, chunks = read ++ unread ∧
      regions + read.length = item.regions ∧ Unpacks policy read parts ∧
      Record.Consecutive first parts.reverse.flatten ∧ first ≤ item.record.lsn ∧
      first + parts.reverse.flatten.length = item.record.lsn + front.length + 1 ∧
      (front ++ [item]).map (·.record) <+: parts.reverse.flatten.reverse := by
  induction chunks generalizing regions front with
  | nil => cases front <;> cases found
  | cons chunk chunks ih =>
      cases unpacked : Region.unpack chunk.lsn policy chunk.bytes with
      | error error =>
          rw [List.map_cons, unpackAll, unpacked] at found
          cases front <;> cases found
      | ok records =>
          rw [List.map_cons, unpackAll_cons unpacked] at found
          rcases (Region.endsAt_of_unpack unpacked).consecutive with ⟨first, consecutive⟩
          rcases split_of_append_eq found with ⟨older, rfl, found_older⟩ | ⟨more, block_eq⟩
          · -- the item is in a later region
            rw [List.append_assoc, descends_append, descends_block] at descends
            rcases ih found_older descends.2 with
              ⟨read, unread, parts, lowest, rfl, count, unpacks, below, lowest_le, ends, seen⟩
            refine ⟨chunk :: read, unread, records :: parts, lowest, rfl, ?_, ?_, ?_, ?_, ?_, ?_⟩
            · rw [← count, List.length_cons, Nat.add_assoc, Nat.add_comm 1]
            · rw [Unpacks, List.map_cons, unpacked, unpacks]
              rfl
            · rw [List.reverse_cons, List.flatten_concat, Record.consecutive_append, ends]
              rw [List.length_append, ← Nat.add_assoc] at descends
              exact ⟨below, descends.1⟩
            · exact lowest_le
            · rw [List.reverse_cons, List.flatten_concat, List.length_append, ← Nat.add_assoc,
                ends, List.length_append, length_block]
              omega
            · rw [List.append_assoc, List.map_append, map_record_block, List.reverse_cons,
                List.flatten_concat, List.reverse_append]
              exact List.prefix_append_right_inj _ |>.mpr seen
          · -- the item is in this region
            have block_descends := descends_of_consecutive consecutive (regions + 1)
            have length := length_block (regions + 1) records
            rw [block_eq, descends_append, descends_cons] at block_descends
            rw [block_eq, List.length_append, List.length_cons] at length
            refine ⟨[chunk], chunks, [records], first, rfl, ?_, ?_, ?_, ?_, ?_, ?_⟩
            · have member : item ∈ block (regions + 1) records := by simp [block_eq]
              exact (regions_of_mem_block member).symm
            · rw [Unpacks, List.map_singleton, unpacked]
              rfl
            · simpa using consecutive
            · omega
            · simp only [List.reverse_singleton, List.flatten_singleton]
              omega
            · rw [List.reverse_singleton, List.flatten_singleton, ← map_record_block (regions + 1),
                block_eq]
              exact List.IsPrefix.map _ ⟨more, by simp⟩

end Recovery

end Logbook

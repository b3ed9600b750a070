import Logbook.Proofs.Bytes
import Logbook.Proofs.Storage.File
import Logbook.Storage.AppendLog

/-!
# Frames one behind the other

The bytes of a log file are the frames of its regions, in the order of their numbers,
and perhaps a tail that a crash has left of one more. A scan of them finds the frames and
where they end. Cut off anywhere, they are again frames and a tail, and the frames are the
ones that end before the cut.
-/

namespace Logbook

/-- The region's length and its number fit their fields of a frame. -/
structure Chunk.Fits (chunk : Chunk) : Prop where
  length_lt : chunk.bytes.length < 256 ^ 4
  lsn_lt : chunk.lsn < 256 ^ 8

instance (chunk : Chunk) : Decidable chunk.Fits :=
  decidable_of_iff (chunk.bytes.length < 256 ^ 4 ∧ chunk.lsn < 256 ^ 8)
    ⟨fun both => ⟨both.1, both.2⟩, fun fits => ⟨fits.length_lt, fits.lsn_lt⟩⟩

namespace Frame

/-- Regions that a file can hold, oldest first. -/
structure Sequence (chunks : List Chunk) : Prop where
  fits : ∀ chunk ∈ chunks, chunk.Fits
  ordered : chunks.Pairwise (·.lsn < ·.lsn)

/-- What may be left of a frame: less than a header, or a header that announces more
bytes than are there. -/
def Torn (tail : Bytes) : Prop :=
  tail.length < headerSize ∨
    tail.take 4 = magic ∧ tail.length < size (Bytes.toNat ((tail.drop 4).take 4))

/-- The index of the frames of some regions, one behind the other from `start` on. -/
def index (start : Nat) : List Chunk → List FrameEntry
  | [] => []
  | chunk :: chunks =>
      ⟨start, chunk.bytes.length, chunk.lsn⟩ :: index (start + size chunk.bytes.length) chunks

/-- The number comes after that of the newest region, if there is one. -/
def Above (chunks : List Chunk) (lsn : Nat) : Prop :=
  ∀ last, chunks.getLast? = some last → last.lsn < lsn

variable {offset start : Nat} {previous : Option Nat} {chunk : Chunk} {chunks : List Chunk}

/-! ## Sequences -/

theorem Sequence.nil : Sequence [] :=
  ⟨nofun, .nil⟩

theorem Sequence.of_prefix {kept : List Chunk} (sequence : Sequence chunks)
    (prefixed : kept <+: chunks) : Sequence kept where
  fits chunk member := sequence.fits chunk (prefixed.subset member)
  ordered := sequence.ordered.sublist prefixed.sublist

/-- A number after that of the newest region comes after all others too. -/
theorem Sequence.lt_of_above (sequence : Sequence chunks) {lsn : Nat} (above : Above chunks lsn)
    {old : Chunk} (member : old ∈ chunks) : old.lsn < lsn := by
  cases newest : chunks.getLast? with
  | none =>
      rw [List.getLast?_eq_none_iff.mp newest] at member
      cases member
  | some last =>
      rcases List.getLast?_eq_some_iff.mp newest with ⟨older, rfl⟩
      rcases List.mem_append.mp member with before | same
      · have ordered := (List.pairwise_append.mp sequence.ordered).2.2
        exact Nat.lt_trans (ordered old before last (List.mem_singleton.mpr rfl))
          (above last newest)
      · cases List.mem_singleton.mp same
        exact above old newest

theorem Sequence.concat (sequence : Sequence chunks) (fits : chunk.Fits)
    (above : Above chunks chunk.lsn) : Sequence (chunks ++ [chunk]) where
  fits := by
    simp only [List.forall_mem_append, List.forall_mem_singleton]
    exact ⟨sequence.fits, fits⟩
  ordered := by
    refine List.pairwise_append.mpr ⟨sequence.ordered, List.pairwise_singleton _ _, ?_⟩
    intro old member new same
    cases List.mem_singleton.mp same
    exact sequence.lt_of_above above member

/-! ## One frame -/

theorem magic_of_header (chunk : Chunk) : (header chunk).take 4 = magic :=
  List.take_left' rfl

theorem length_of_header (fits : chunk.Fits) :
    Bytes.toNat (((header chunk).drop 4).take 4) = chunk.bytes.length := by
  have field : ((header chunk).drop 4).take 4 = Bytes.ofNat 4 chunk.bytes.length := by
    simp [header, magic]
  rw [field, Bytes.toNat_ofNat, Nat.mod_eq_of_lt fits.length_lt]

theorem lsn_of_header (fits : chunk.Fits) : Bytes.toNat ((header chunk).drop 8) = chunk.lsn := by
  have field : (header chunk).drop 8 = Bytes.ofNat 8 chunk.lsn := by
    simp [header, magic]
  rw [field, Bytes.toNat_ofNat, Nat.mod_eq_of_lt fits.lsn_lt]

theorem length_of_trailer (fits : chunk.Fits) :
    Bytes.toNat ((trailer chunk).take 4) = chunk.bytes.length := by
  have field : (trailer chunk).take 4 = Bytes.ofNat 4 chunk.bytes.length := by
    simp [trailer]
  rw [field, Bytes.toNat_ofNat, Nat.mod_eq_of_lt fits.length_lt]

theorem magic_of_trailer (chunk : Chunk) : (trailer chunk).drop 4 = trailerMagic := by
  simp [trailer]

/-- A frame is seen in front of any bytes, if its number comes after the previous one. -/
theorem look_encode (fits : chunk.Fits)
    (above : ∀ before, previous = some before → before < chunk.lsn) (rest : Bytes) :
    look offset previous (encode chunk ++ rest) = .frame chunk.bytes.length chunk.lsn rest := by
  have headed : Bytes.split? headerSize (encode chunk ++ rest) =
      some (header chunk, (chunk.bytes ++ trailer chunk) ++ rest) := by
    rw [Bytes.split?_eq_some_iff, encode_eq, List.append_assoc]
    exact ⟨rfl, length_header chunk⟩
  have framed : Bytes.split? (chunk.bytes.length + trailerSize)
      ((chunk.bytes ++ trailer chunk) ++ rest) = some (chunk.bytes ++ trailer chunk, rest) := by
    rw [Bytes.split?_eq_some_iff, List.length_append, length_trailer]
    exact ⟨rfl, rfl⟩
  have closed : ¬ ((trailer chunk).drop 4 ≠ trailerMagic ∨
      Bytes.toNat ((trailer chunk).take 4) ≠ chunk.bytes.length) := by
    simp only [magic_of_trailer, length_of_trailer fits, ne_eq, not_true, or_self, not_false_iff]
  simp only [look, headed, magic_of_header, length_of_header fits, lsn_of_header fits, framed,
    List.drop_left, closed, ne_eq, not_true, ↓reduceIte]
  cases previous with
  | none => rfl
  | some before => exact if_neg (Nat.not_le.mpr (above before rfl))

/-- A tail with a whole header is torn if the header announces more bytes. -/
theorem torn_append_iff {front body : Bytes} (front_length : front.length = headerSize) :
    Torn (front ++ body) ↔ front.take 4 = magic ∧
      body.length < Bytes.toNat ((front.drop 4).take 4) + trailerSize := by
  have opening : (front ++ body).take 4 = front.take 4 :=
    List.take_append_of_le_length (by rw [front_length]; decide)
  have announced : ((front ++ body).drop 4).take 4 = (front.drop 4).take 4 := by
    rw [List.drop_append_of_le_length (by rw [front_length]; decide)]
    exact List.take_append_of_le_length (by rw [List.length_drop, front_length]; decide)
  rw [Torn, opening, announced, List.length_append, front_length, size]
  constructor
  · rintro (short | ⟨opened, short⟩)
    · omega
    · exact ⟨opened, by omega⟩
  · rintro ⟨opened, short⟩
    exact .inr ⟨opened, by omega⟩

/-- What is left of a frame is not seen as one. -/
theorem look_of_torn {tail : Bytes} (torn : Torn tail) : look offset previous tail = .torn := by
  unfold look
  split
  · rfl
  · rename_i front body headed
    rcases Bytes.split?_eq_some_iff.mp headed with ⟨rfl, front_length⟩
    rcases (torn_append_iff front_length).mp torn with ⟨opened, short⟩
    have unframed : Bytes.split? (Bytes.toNat ((front.drop 4).take 4) + trailerSize) body =
        none := Bytes.split?_eq_none_iff.mpr short
    simp only [opened, unframed, ne_eq, not_true, ↓reduceIte]

/-- A frame without its end is torn. -/
theorem torn_take (fits : chunk.Fits) {count : Nat} (short : count < size chunk.bytes.length) :
    Torn ((encode chunk).take count) := by
  by_cases headless : count < headerSize
  · exact .inl (Nat.lt_of_le_of_lt (List.length_take_le _ _) headless)
  · rw [encode_eq, List.take_append, length_header,
      List.take_of_length_le (by rw [length_header]; omega), torn_append_iff (length_header chunk),
      length_of_header fits, List.length_take]
    refine ⟨magic_of_header chunk, ?_⟩
    rw [size] at short
    omega

/-! ## Many frames -/

theorem length_index (start : Nat) (chunks : List Chunk) :
    (index start chunks).length = chunks.length := by
  induction chunks generalizing start with
  | nil => rfl
  | cons chunk chunks ih => rw [index, List.length_cons, ih, List.length_cons]

theorem map_lsn_index (start : Nat) (chunks : List Chunk) :
    (index start chunks).map (·.lsn) = chunks.map (·.lsn) := by
  induction chunks generalizing start with
  | nil => rfl
  | cons chunk chunks ih => rw [index, List.map_cons, ih, List.map_cons]

/-- The newest frame has the number of the newest region. -/
theorem getLast?_index (start : Nat) (chunks : List Chunk) :
    (index start chunks).getLast?.map (·.lsn) = chunks.getLast?.map (·.lsn) := by
  rw [← List.getLast?_map, map_lsn_index, List.getLast?_map]

theorem index_concat (start : Nat) (chunks : List Chunk) (chunk : Chunk) :
    index start (chunks ++ [chunk]) =
      index start chunks ++
        [⟨start + (chunks.flatMap encode).length, chunk.bytes.length, chunk.lsn⟩] := by
  induction chunks generalizing start with
  | nil => rfl
  | cons first chunks ih =>
      rw [List.cons_append, index, ih, index, List.flatMap_cons, List.length_append,
        length_encode, Nat.add_assoc]
      rfl

/-- Every region lies where the index says. -/
theorem map_chunkOf_index (front : Bytes) (chunks : List Chunk) :
    (index front.length chunks).map (LogFile.chunkOf (front ++ chunks.flatMap encode)) =
      chunks := by
  induction chunks generalizing front with
  | nil => rfl
  | cons chunk chunks ih =>
      have behind := ih (front ++ encode chunk)
      rw [List.length_append, length_encode, List.append_assoc] at behind
      rw [index, List.map_cons, List.flatMap_cons, behind, LogFile.chunkOf,
        FrameEntry.payloadOffset, slice_encode]

theorem inside_of_mem_index {entry : FrameEntry} (member : entry ∈ index start chunks) :
    entry.payloadOffset + entry.length ≤ start + (chunks.flatMap encode).length := by
  induction chunks generalizing start with
  | nil => cases member
  | cons chunk chunks ih =>
      rw [List.flatMap_cons, List.length_append, length_encode]
      rcases List.mem_cons.mp member with rfl | behind
      · simp only [FrameEntry.payloadOffset, size]
        omega
      · have := ih behind
        omega

/-! ## Scans -/

/-- A scan goes on behind every frame that it sees. -/
theorem scanFrom_eq (offset : Nat) (previous : Option Nat) (bytes : Bytes) :
    scanFrom offset previous bytes =
      match look offset previous bytes with
      | .torn => .ok ([], offset)
      | .corrupt cause => .error cause
      | .frame length lsn rest =>
          (scanFrom (offset + size length) (some lsn) rest).map fun (entries, valid) =>
            (⟨offset, length, lsn⟩ :: entries, valid) := by
  rw [scanFrom]
  split
  · rename_i seen
    rw [seen]
  · rename_i seen
    rw [seen]
  · rename_i length lsn rest seen
    rw [seen]
    dsimp only
    cases scanFrom (offset + size length) (some lsn) rest <;> rfl

/-- A scan finds the frames of a sequence of regions in front of a torn tail. -/
theorem scanFrom_frames {tail : Bytes} (sequence : Sequence chunks) (torn : Torn tail)
    (above : ∀ before, previous = some before → ∀ chunk ∈ chunks, before < chunk.lsn) :
    scanFrom offset previous (chunks.flatMap encode ++ tail) =
      .ok (index offset chunks, offset + (chunks.flatMap encode).length) := by
  induction chunks generalizing offset previous with
  | nil =>
      rw [List.flatMap_nil, List.nil_append, scanFrom_eq, look_of_torn torn]
      rfl
  | cons chunk chunks ih =>
      rcases List.forall_mem_cons.mp sequence.fits with ⟨chunk_fits, fits⟩
      rcases List.pairwise_cons.mp sequence.ordered with ⟨follow, ordered⟩
      -- The rest is scanned with the number of this region before it.
      have behind := @ih (offset + size chunk.bytes.length) (some chunk.lsn) ⟨fits, ordered⟩
        (by rintro _ ⟨⟩; exact follow)
      have after_previous : ∀ before, previous = some before → before < chunk.lsn :=
        fun before preceded => above before preceded chunk List.mem_cons_self
      rw [List.flatMap_cons, List.append_assoc, scanFrom_eq,
        look_encode chunk_fits after_previous]
      dsimp only
      rw [behind, index, List.length_append, length_encode, ← Nat.add_assoc]
      rfl

/-! ## Cuts -/

theorem endingBy_of_le {limit : Nat} (le : limit ≤ start) (chunks : List Chunk) :
    endingBy limit start chunks = [] := by
  induction chunks generalizing start with
  | nil => rfl
  | cons chunk chunks ih =>
      have beyond : ¬ start + size chunk.bytes.length ≤ limit := by
        rw [size, headerSize]
        omega
      rw [endingBy, if_neg beyond]
      exact ih (Nat.le_trans le (Nat.le_add_right _ _))

/-- The regions that end before a cut are the oldest ones. -/
theorem endingBy_prefix (limit start : Nat) (chunks : List Chunk) :
    endingBy limit start chunks <+: chunks := by
  induction chunks generalizing start with
  | nil => exact List.nil_prefix
  | cons chunk chunks ih =>
      rw [endingBy]
      split
      · exact (List.prefix_cons_inj chunk).mpr (ih _)
      · rename_i beyond
        rw [endingBy_of_le (Nat.le_of_not_le beyond)]
        exact List.nil_prefix

/-- The bytes in front of a cut are the frames that end before it, and a torn tail. -/
theorem take_frames (sequence : Sequence chunks) (count start : Nat) :
    ∃ tail, Torn tail ∧ (chunks.flatMap encode).take count =
      (endingBy (start + count) start chunks).flatMap encode ++ tail := by
  induction chunks generalizing count start with
  | nil => exact ⟨[], .inl (by decide), by rw [List.flatMap_nil, List.take_nil]; rfl⟩
  | cons chunk chunks ih =>
      rcases List.forall_mem_cons.mp sequence.fits with ⟨chunk_fits, fits⟩
      have ordered := (List.pairwise_cons.mp sequence.ordered).2
      rw [endingBy, List.flatMap_cons, List.take_append, length_encode]
      -- The first frame is whole, or the cut is in it and nothing behind it is left.
      by_cases whole : size chunk.bytes.length ≤ count
      · rcases ih ⟨fits, ordered⟩ (count - size chunk.bytes.length)
          (start + size chunk.bytes.length) with ⟨tail, torn, taken⟩
        rw [Nat.add_assoc, Nat.add_sub_cancel' whole] at taken
        refine ⟨tail, torn, ?_⟩
        rw [if_pos (Nat.add_le_add_left whole start), taken, List.flatMap_cons, List.append_assoc,
          List.take_of_length_le (by rw [length_encode]; exact whole)]
      · refine ⟨_, torn_take chunk_fits (Nat.not_le.mp whole), ?_⟩
        rw [if_neg (by omega), endingBy_of_le (by omega), Nat.sub_eq_zero_of_le (by omega),
          List.take_zero, List.append_nil]
        rfl

end Frame

end Logbook

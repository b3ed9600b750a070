import Logbook.Storage.Device

/-!
# Frames of a log file

A log file is a sequence of frames, one per region.

    "RLOG" | length (4) | lsn (8) | region | length (4) | "GOLR"

A scan indexes the frames from the start of the file. It ends cleanly where
fewer bytes are left than a header takes, and at a header that announces more
bytes than are left: that is a tail torn by a crash. Anything else that is not a
frame is corruption.
-/

namespace Logbook

namespace Frame

/-- The bytes that open a frame, `RLOG`. -/
def magic : Bytes := [0x52, 0x4C, 0x4F, 0x47]

/-- The bytes that close a frame, `GOLR`. -/
def trailerMagic : Bytes := [0x47, 0x4F, 0x4C, 0x52]

/-- Bytes in front of the region. -/
def headerSize : Nat := 16

/-- Bytes after the region. -/
def trailerSize : Nat := 8

/-- The frame of a region. -/
def encode (chunk : Chunk) : Bytes :=
  magic ++ Bytes.ofNat 4 chunk.bytes.length ++ Bytes.ofNat 8 chunk.lsn ++ chunk.bytes
    ++ Bytes.ofNat 4 chunk.bytes.length ++ trailerMagic

/-- The bytes that the frame of a region of `length` bytes takes. -/
def size (length : Nat) : Nat := headerSize + length + trailerSize

end Frame

/-- Where a frame lies in its file. -/
structure FrameEntry where
  offset : Nat
  length : Nat
  lsn : Nat
deriving DecidableEq, Repr

namespace FrameEntry

/-- Where the region of the frame starts. -/
def payloadOffset (entry : FrameEntry) : Nat := entry.offset + Frame.headerSize

end FrameEntry

namespace Frame

/-- What the bytes at some offset of a file are. -/
inductive Sight where
  /-- A frame of this length and number, and the bytes after it. -/
  | frame (length : Nat) (lsn : Nat) (rest : Bytes)
  /-- A tail too short to be a frame. -/
  | torn
  | corrupt (cause : Corruption)

/-- Look at the bytes at `offset` of a file, where the last frame before them
has the number `previous`. -/
def look (offset : Nat) (previous : Option Nat) (bytes : Bytes) : Sight :=
  match Bytes.split? headerSize bytes with
  | none => .torn
  | some (header, body) =>
      let length := Bytes.toNat ((header.drop 4).take 4)
      let lsn := Bytes.toNat (header.drop 8)
      if header.take 4 ≠ magic then .corrupt (.frameMagic offset)
      else
        match Bytes.split? (length + trailerSize) body with
        | none => .torn
        | some (frame, rest) =>
            let trailer := frame.drop length
            if trailer.drop 4 ≠ trailerMagic ∨ Bytes.toNat (trailer.take 4) ≠ length then
              .corrupt (.frameTrailer offset)
            else
              match previous with
              | none => .frame length lsn rest
              | some before =>
                  if lsn ≤ before then .corrupt (.frameOrder lsn before offset)
                  else .frame length lsn rest

/-- A frame that is seen takes up its own size. -/
theorem length_of_look {offset length lsn : Nat} {previous : Option Nat} {bytes rest : Bytes}
    (seen : look offset previous bytes = .frame length lsn rest) :
    bytes.length = size length + rest.length := by
  unfold look at seen
  split at seen
  · cases seen
  · rename_i header body split₁
    rcases Bytes.split?_eq_some_iff.mp split₁ with ⟨rfl, header_length⟩
    dsimp only at seen
    split at seen
    · cases seen
    · split at seen
      · cases seen
      · rename_i frame after split₂
        rcases Bytes.split?_eq_some_iff.mp split₂ with ⟨rfl, frame_length⟩
        have total : (header ++ (frame ++ after)).length =
            size (Bytes.toNat ((header.drop 4).take 4)) + after.length := by
          rw [List.length_append, List.length_append, header_length, frame_length, size]
          omega
        split at seen
        · cases seen
        · split at seen
          · cases seen
            exact total
          · split at seen
            · cases seen
            · cases seen
              exact total

theorem length_lt_of_look {offset length lsn : Nat} {previous : Option Nat} {bytes rest : Bytes}
    (seen : look offset previous bytes = .frame length lsn rest) :
    rest.length < bytes.length := by
  rw [length_of_look seen, size, headerSize]
  omega

/-- Index the frames of the bytes at `offset`; the result is the index and the
offset where the frames end. -/
def scanFrom (offset : Nat) (previous : Option Nat) (bytes : Bytes) :
    Except Corruption (List FrameEntry × Nat) :=
  match _seen : look offset previous bytes with
  | .torn => .ok ([], offset)
  | .corrupt cause => .error cause
  | .frame length lsn rest =>
      match scanFrom (offset + size length) (some lsn) rest with
      | .error cause => .error cause
      | .ok (entries, valid) => .ok (⟨offset, length, lsn⟩ :: entries, valid)
termination_by bytes.length
decreasing_by exact length_lt_of_look (by assumption)

/-- Index the frames of a file. -/
def scan (content : Bytes) : Except Corruption (List FrameEntry × Nat) :=
  scanFrom 0 none content

end Frame

end Logbook

/-!
# Paths

A path is kept as the pieces of its text between the slashes, as they were
written: an empty piece or a single dot leads nowhere by itself, but behind a
name it asks that the name be a directory. What a path leads to is for the
folder to say that it is followed in.
-/

namespace Logbook

/-- A path from the root of the system: the pieces between its slashes. -/
abbrev FilePath := List String

namespace FilePath

/-- The most bytes of a name. -/
def maxName : Nat := 255

/-- The most bytes of a path. -/
def maxSize : Nat := 4095

/-- The pieces of a text. -/
def ofText (text : String) : FilePath := text.splitOn "/"

/-- A path that starts from another one; from the root, if the text says so. -/
def join (base : FilePath) (text : String) : FilePath :=
  if text.startsWith "/" then ofText text else base ++ ofText text

/-- Whether a piece stays where it is. -/
def Blank (piece : String) : Prop := piece = "" ∨ piece = "."

instance (piece : String) : Decidable (Blank piece) := by
  unfold Blank
  infer_instance

/-- A path without the pieces at its end that stay where they are. -/
def trim (path : FilePath) : FilePath :=
  (path.reverse.dropWhile fun piece => decide (Blank piece)).reverse

/-- The path that a path is named in: what stands before its last name. The root
is named nowhere. -/
def parent? (path : FilePath) : Option FilePath :=
  match trim path with
  | [] => none
  | named => some (trim named.dropLast)

/-- How many bytes the text of a path has. -/
def size (path : FilePath) : Nat :=
  ("/".intercalate path).utf8ByteSize

/-- Whether a path can be followed at all: it is not too long, and no zero ends
its text early. -/
def Legible (path : FilePath) : Prop :=
  size path ≤ maxSize ∧ ∀ piece ∈ path, !piece.contains (Char.ofNat 0)

instance (path : FilePath) : Decidable path.Legible := by
  unfold Legible
  infer_instance

end FilePath

end Logbook

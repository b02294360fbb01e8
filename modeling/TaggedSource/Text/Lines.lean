/-
Lines. A text is cut at every line feed, so it always has at least one
line, and `joinLines` undoes `splitLines`.
-/
import TaggedSource.Text

namespace TaggedSource.Text

/-- Puts a character in front of the first line. -/
def extendFirst (c : Char) : List Text → List Text
  | [] => [[c]]
  | line :: lines => (c :: line) :: lines

/-- The lines of a text; a line feed ends one line and begins the next. -/
def splitLines : Text → List Text
  | [] => [[]]
  | c :: t => if c = '\n' then [] :: splitLines t else extendFirst c (splitLines t)

/-- Lines with a line feed between each two of them. -/
def joinLines : List Text → Text
  | [] => []
  | [line] => line
  | line :: lines => line ++ '\n' :: joinLines lines

/-- Even the empty text has a line. -/
theorem splitLines_ne_nil (t : Text) : splitLines t ≠ [] := by
  cases t with
  | nil => simp [splitLines]
  | cons c t =>
    unfold splitLines
    split
    · simp
    · cases splitLines t <;> simp [extendFirst]

/-- Joining the lines of a text gives the text back. -/
theorem joinLines_splitLines (t : Text) : joinLines (splitLines t) = t := by
  induction t with
  | nil => rfl
  | cons c t ih =>
    unfold splitLines
    split
    · next h =>
      cases hs : splitLines t with
      | nil => exact absurd hs (splitLines_ne_nil t)
      | cons line lines => simp [joinLines, ← hs, ih, h]
    · cases hs : splitLines t with
      | nil => exact absurd hs (splitLines_ne_nil t)
      | cons line lines =>
        rw [hs] at ih
        cases lines with
        | nil => simpa [extendFirst, joinLines] using ih
        | cons l ls => simpa [extendFirst, joinLines] using ih

end TaggedSource.Text

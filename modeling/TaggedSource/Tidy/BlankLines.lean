/-
Blank lines. Lines between the first and the last that hold only blanks
are emptied, and a run of line feeds becomes a single one.
-/
import TaggedSource.Text.Lines

namespace TaggedSource.Tidy

/-- What a blank line may hold. -/
def isLineBlank (c : Char) : Bool := c = ' ' || c = '\t' || c = '\r'

/-- Empties the blank lines of a list, its last line excepted. -/
def clearBlank : List Text → List Text
  | [] => []
  | [last] => [last]
  | line :: lines => (if line.all isLineBlank then [] else line) :: clearBlank lines

/-- Empties the blank lines between the first and the last. -/
def clearInner : List Text → List Text
  | [] => []
  | first :: lines => first :: clearBlank lines

/-- Drops a line feed that follows another. -/
def squeezeBreaks : Text → Text
  | '\n' :: '\n' :: t => squeezeBreaks ('\n' :: t)
  | c :: t => c :: squeezeBreaks t
  | [] => []

/-- Drops the blank lines of a text. -/
def blankLines (t : Text) : Text :=
  squeezeBreaks (Text.joinLines (clearInner (Text.splitLines t)))

end TaggedSource.Tidy

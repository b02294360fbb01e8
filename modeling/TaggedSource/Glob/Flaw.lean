/-
What keeps a text from being a glob.
-/
import TaggedSource.Text

namespace TaggedSource.Glob

/-- What is wrong with the text of a glob. -/
inductive Flaw where
  /-- A class is not closed. -/
  | unclosedClass
  /-- A range of a class ends before it begins. -/
  | emptyRange (first last : Char)
  /-- A group is not closed. -/
  | unclosedGroup
  /-- A group is closed that was not opened. -/
  | unopenedGroup
  /-- A backslash ends the text. -/
  | danglingEscape
  deriving DecidableEq, Repr

/-- The wording of a flaw. -/
def Flaw.message : Flaw → String
  | .unclosedClass => "unclosed character class; missing ']'"
  | .emptyRange first last => s!"invalid range; '{first}' > '{last}'"
  | .unclosedGroup =>
    "unclosed alternate group; missing '\x7d' (maybe escape '\x7b' with '[\x7b]'?)"
  | .unopenedGroup =>
    "unopened alternate group; missing '\x7b' (maybe escape '\x7d' with '[\x7d]'?)"
  | .danglingEscape => "dangling '\\'"

end TaggedSource.Glob

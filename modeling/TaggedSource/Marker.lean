/-
Markers. A feature is known in tagged sources by its id and eyecatcher,
and delimits regions with three tokens: one that opens the region, one
that separates the gated body from its fallback, one that closes it.
-/
import TaggedSource.Text

namespace TaggedSource

/-- What every marker begins with. -/
def markerLead : Text := text "/*Piranhito?@-"

/-- What every marker ends with. -/
def markerTail : Text := text "*/"

/-- The three places that a marker can mark. -/
inductive Mark where
  /-- The begin of a region. -/
  | start
  /-- The begin of a region's fallback. -/
  | leave
  /-- The end of a region. -/
  | finish
  deriving DecidableEq, Repr

/-- The letter that stands for a mark in a token. -/
def Mark.letter : Mark → Char
  | .start => 'S'
  | .leave => 'L'
  | .finish => 'E'

/-- A feature as tagged sources know it. -/
structure Feature where
  /-- The feature's id. -/
  id : Text
  /-- A text that makes the feature's markers stand out. -/
  eyecatcher : Text
  deriving DecidableEq, Repr

/-- The token of a feature for a mark. -/
def Feature.token (feature : Feature) (mark : Mark) : Text :=
  markerLead ++ feature.id ++ ['-', mark.letter] ++ feature.eyecatcher ++ markerTail

/-- The length of a token does not depend on what it marks. -/
theorem Feature.length_token (feature : Feature) (mark : Mark) :
    (feature.token mark).length = 18 + feature.id.length + feature.eyecatcher.length := by
  have hl : markerLead.length = 14 := by decide
  have ht : markerTail.length = 2 := by decide
  simp only [token, List.length_append, List.length_cons, List.length_nil, hl, ht]
  omega

end TaggedSource

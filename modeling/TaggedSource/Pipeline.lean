/-
Pipelines: the steps of each pass over one source text. A pipeline takes
its random identifiers from a word source and leaves the source where it
stopped drawing.
-/
import TaggedSource.Catalogue
import TaggedSource.Strip
import TaggedSource.Substitute
import TaggedSource.Tidy.BlankLines
import TaggedSource.Tidy.Conditions

namespace TaggedSource

/-- What stripping reports: its orphans and its tally. -/
def Stripped.events (s : Stripped) : List Log.Event :=
  s.unbalanced.map (fun orphan => .orphan orphan.feature orphan.offset) ++
    [.stripped s.removed s.guarded s.unbalanced.length]

namespace Pipeline

/-- Strips features and reports the markers left in place. -/
def stripFeatures (profile : Profile) (features : List Feature) (t : Text) :
    Action WordSource Text := do
  let stripped := strip features t
  .log stripped.events
  if !stripped.balanced then
    .log [.leftInPlace profile.id stripped.unbalanced.length]
  pure stripped.text

/-- Drops the forbidden lines of a text and edits the others. -/
def mapLines (profile : Profile) (edit : Text → Text) (t : Text) : Text :=
  Text.joinLines ((Line.dropForbidden profile.removableLines (Text.splitLines t)).map edit)

/-- Tidies up a text whose features are stripped and strings substituted. -/
def tidy (profile : Profile) (t : Text) : Text :=
  Tidy.blankLines <|
    mapLines profile (Line.edit profile.removableTokens profile.replaceableTokens) <|
      Tidy.conditions t

/-- The steps of a transformation. -/
def transform (profile : Profile) (t : Text) : Action WordSource Text := do
  let t ← stripFeatures profile profile.removableFeatures t
  let t ← substitute profile.replaceableStrings t
  pure (tidy profile t)

/-- The steps of a copyright alignment. -/
def copyright (profile : Profile) (t : Text) : Action WordSource Text := do
  let t ← stripFeatures profile profile.copyrightFeatures t
  let t ← substitute profile.copyrightStrings t
  pure (mapLines profile id t)

end Pipeline

/-- Runs a pass of a profile over a text. -/
def Pass.run : Pass → Profile → Text → Action WordSource Text
  | .transform => Pipeline.transform
  | .copyright => Pipeline.copyright

/-- Runs a pass of the profile with an id over a text. -/
def Catalogue.run (catalogue : Catalogue) (pass : Pass) (id : Text) (t : Text) :
    Action WordSource Text := do
  let profile ← .ofExcept (catalogue.get id)
  pass.run profile t

end TaggedSource

/-
Profiles: the settings of a project, and what makes them valid.
-/
import TaggedSource.Failure
import TaggedSource.Line
import TaggedSource.Marker

namespace TaggedSource

/-- The settings of a project. -/
structure Profile where
  /-- The project's id. -/
  id : Text
  /-- The features that a transformation strips. -/
  removableFeatures : List Feature := []
  /-- The rules that a transformation applies. -/
  replaceableStrings : List Rule := []
  /-- The patterns whose lines are dropped. -/
  removableLines : List Text := []
  /-- The tokens that a transformation deletes from lines. -/
  removableTokens : List Text := []
  /-- The tokens that a transformation replaces in lines. -/
  replaceableTokens : List TokenPair := []
  /-- The features that a copyright alignment strips. -/
  copyrightFeatures : List Feature := []
  /-- The rules that a copyright alignment applies. -/
  copyrightStrings : List Rule := []
  deriving DecidableEq, Repr

namespace Profile

/-- A feature needs an id and an eyecatcher. -/
def checkFeature (profile : Profile) (feature : Feature) : Except Failure Unit :=
  if feature.id.isEmpty || feature.eyecatcher.isEmpty then
    .error (.misconfigured (.incompleteFeature profile.id feature.id))
  else
    .ok ()

/-- A rule needs a pattern, and its directive, if it has one, a length. -/
def checkRule (profile : Profile) (rule : Rule) : Except Failure Unit :=
  if rule.pattern.isEmpty then
    .error (.misconfigured (.emptyPattern profile.id))
  else
    match Replacement.parse rule.replacement with
    | .error flaw => .error (.badDirective rule flaw)
    | .ok _ => .ok ()

/-- The first failure of a check on a list. -/
def checkAll {α : Type} (check : α → Except Failure Unit) : List α → Except Failure Unit
  | [] => .ok ()
  | x :: rest =>
    match check x with
    | .error cause => .error cause
    | .ok () => checkAll check rest

/-- Fails if a condition holds. -/
def refuse (condition : Bool) (cause : Misconfiguration) : Except Failure Unit :=
  if condition then .error (.misconfigured cause) else .ok ()

/-- Checks a profile; of several flaws the first in this order counts. -/
def validate (profile : Profile) : Except Failure Unit := do
  refuse (Text.trim profile.id).isEmpty .blankProfileId
  checkAll profile.checkFeature (profile.removableFeatures ++ profile.copyrightFeatures)
  checkAll profile.checkRule (profile.replaceableStrings ++ profile.copyrightStrings)
  refuse (profile.removableLines.any (·.isEmpty)) (.emptyLine profile.id)
  refuse (profile.removableTokens.any (·.isEmpty)) (.emptyToken profile.id)
  refuse (profile.replaceableTokens.any (·.old.isEmpty)) (.emptyFrom profile.id)

end Profile

end TaggedSource

/-
Catalogues: valid profiles with distinct ids, in the order in which they
were registered.
-/
import TaggedSource.Action
import TaggedSource.Profile

namespace TaggedSource

/-- The profiles that a run can choose from. -/
structure Catalogue where
  /-- The profiles, in the order of their registration. -/
  profiles : List Profile := []
  deriving DecidableEq, Repr

namespace Catalogue

variable {σ : Type}

/-- The ids of the profiles. -/
def ids (catalogue : Catalogue) : List Text := catalogue.profiles.map (·.id)

/-- Adds a profile, which has to be valid and new. -/
def register (catalogue : Catalogue) (profile : Profile) : Action σ Catalogue := do
  .ofExcept profile.validate
  if catalogue.ids.contains profile.id then
    .fail (.misconfigured (.duplicateProfile profile.id))
  else
    .log [.registered profile.id]
    pure { profiles := catalogue.profiles ++ [profile] }

/-- Adds profiles in their order. -/
def registerAll (catalogue : Catalogue) : List Profile → Action σ Catalogue
  | [] => pure catalogue
  | profile :: rest => do
    let catalogue ← catalogue.register profile
    catalogue.registerAll rest

/-- The catalogue of the given profiles. -/
def ofProfiles (profiles : List Profile) : Action σ Catalogue :=
  registerAll {} profiles

/-- The profile with an id. -/
def get (catalogue : Catalogue) (id : Text) : Except Failure Profile :=
  match catalogue.profiles.find? fun profile => profile.id = id with
  | some profile => .ok profile
  | none => .error (.unknownProfile id catalogue.ids)

end Catalogue

end TaggedSource

/-
The two passes that can be run over a source tree.
-/

namespace TaggedSource

/-- A pass over the sources of a project. -/
inductive Pass where
  /-- Strips features, substitutes strings and tidies up. -/
  | transform
  /-- Aligns copyright headers. -/
  | copyright
  deriving DecidableEq, Repr

/-- The name of a pass in reports. -/
def Pass.title : Pass → String
  | .transform => "Transformation"
  | .copyright => "Copyright alignment"

end TaggedSource

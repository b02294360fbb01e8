/-
Kinds of files, told by the ending of the file name, and the passes that
change files of a kind.
-/
import TaggedSource.Pass
import TaggedSource.Path

namespace TaggedSource

/-- A kind of file. -/
inductive FileKind where
  /-- A source file. -/
  | source
  /-- A script. -/
  | script
  /-- A data file. -/
  | data
  /-- A table of texts for one language. -/
  | localization
  deriving DecidableEq, Repr

namespace FileKind

/-- The endings of file names, and the kinds that they tell. -/
def endings : List (Text × FileKind) :=
  [(text ".swift", .source), (text ".js", .script), (text ".json", .data),
    (text ".strings", .localization)]

/-- The kind of a file by its name. Capital letters count as small ones. -/
def ofName? (name : Text) : Option FileKind :=
  (endings.find? fun e => e.1.isSuffixOf (name.map Char.toLower)).map (·.2)

/-- The kind of the file at a path. -/
def ofPath? (path : Text) : Option FileKind := (Path.fileName? path).bind ofName?

/-- The passes that change files of a kind. -/
def passes : FileKind → List Pass
  | .source | .script => [.transform, .copyright]
  | .data | .localization => [.copyright]

/-- Whether a pass changes files of a kind. -/
def supports (kind : FileKind) (pass : Pass) : Bool := kind.passes.contains pass

end FileKind

end TaggedSource

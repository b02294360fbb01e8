/-
Catalogues from files: a profile file, or a directory that holds one.
-/
import TaggedSource.FileTree.Calls
import TaggedSource.Profile.Document

namespace TaggedSource.Catalogue

/-- The names of profile files; the first that is there counts. -/
def fileNames : List Text :=
  [text "piranhito.json", text "piranhito.yml", text "piranhito.yaml"]

/-- The profile file that a path means. -/
def find (tree : FileTree) (path : Text) : Except Misconfiguration Text :=
  if tree.isDirectory path then
    match (fileNames.map (Path.join path)).find? tree.isFile with
    | some file => .ok file
    | none => .error (.noProfileFile path fileNames)
  else if tree.isFile path then
    .ok path
  else
    .error (.notProfilePath path)

/-- Reads the catalogue that a path means. -/
def load (path : Text) : Action FileTree Catalogue := do
  let tree ← Action.get
  let file ← Action.ofExcept ((find tree path).mapError .misconfigured)
  Action.log [.loading file]
  let content ← Action.ofExcept ((tree.readText file).mapError .system)
  ofText content

end TaggedSource.Catalogue

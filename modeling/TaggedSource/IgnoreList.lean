/-
Ignore lists: globs for the paths that a batch leaves alone. A directory
may hold a file of globs, one to a line; some globs hold everywhere.
-/
import TaggedSource.Action
import TaggedSource.FileTree.Calls
import TaggedSource.Glob.Parser
import TaggedSource.Text.Blank
import TaggedSource.Text.Lines

namespace TaggedSource

/-- The globs of the paths to leave alone. -/
structure IgnoreList where
  /-- The globs, in the order in which they were read. -/
  globs : List Glob

namespace IgnoreList

/-- The list that ignores nothing. -/
def none : IgnoreList := ⟨[]⟩

/-- Whether some glob matches a path. -/
def covers (list : IgnoreList) (path : Text) : Bool :=
  list.globs.any (·.matchesPath path)

/-- Whether a path is ignored below a root: as it leads from the root, or
as it stands. -/
def ignores (list : IgnoreList) (root path : Text) : Bool :=
  list.covers ((Path.relative? root path).getD path) || list.covers path

-- ================================================================ reading

/-- The name of the file of globs. -/
def fileName : Text := text ".piranhitoignore"

/-- The globs that hold in every directory. -/
def everywhere : List Text := [text "**/.git/**", text "**/.DS_Store"]

/-- The globs that a file spells: its lines without the blanks around
them, except blank ones and those that begin with a number sign. -/
def patterns (content : Text) : List Text :=
  ((Text.splitLines content).map Text.trim).filter fun line =>
    !line.isEmpty && line.head? ≠ some '#'

/-- The list of some globs. -/
def ofPatterns : List Text → Except IgnoreFlaw IgnoreList
  | [] => .ok none
  | pattern :: patterns =>
    match Glob.parse pattern with
    | .error flaw => .error (.badGlob fileName pattern flaw)
    | .ok glob =>
      match ofPatterns patterns with
      | .error flaw => .error flaw
      | .ok list => .ok ⟨glob :: list.globs⟩

/-- The list of the globs that hold everywhere and of those in a file. -/
def ofContent (content : Text) : Except IgnoreFlaw IgnoreList :=
  ofPatterns (everywhere ++ patterns content)

/-- Reads the ignore list of a directory, which need not have a file. -/
def load (directory : Text) : Action FileTree IgnoreList := do
  let path := Path.join directory fileName
  let tree ← Action.get
  match tree.readText path with
  | .ok content => Action.ofExcept ((ofContent content).mapError .ignoreFile)
  | .error .noEntry => do
    Action.log [.noIgnoreFile path]
    Action.ofExcept ((ofContent []).mapError .ignoreFile)
  | .error fault => Action.fail (.ignoreFile (.unreadable path fault))

end IgnoreList

end TaggedSource

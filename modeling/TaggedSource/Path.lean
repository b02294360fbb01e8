/-
Paths as texts: their steps, their file names, and how paths are joined
and taken apart. Nothing here looks at a file tree.

A path has a front (`/`, `.` or nothing) and, behind it, pieces between
slashes. Slashes in a row count as one, and a piece `.` behind the front
counts as nothing; what is left are the steps of the path.
-/
import TaggedSource.Text

namespace TaggedSource.Path

/-- The pieces of a path between its slashes; empty ones are left out. -/
def pieces (path : Text) : List Text :=
  (path.splitOn '/').filter fun piece => !piece.isEmpty

/-- The pieces that lead somewhere. -/
def stepsOf (rest : Text) : List Text := (pieces rest).filter (· ≠ ['.'])

/-- The front of a path and what stands behind it. The front is the slash
of an absolute path, the `.` that a relative path begins with, or empty. -/
def splitFront : Text → Text × Text
  | '/' :: rest => (['/'], rest)
  | ['.'] => (['.'], [])
  | '.' :: '/' :: rest => (['.'], '/' :: rest)
  | path => ([], path)

/-- The name that a path ends in. -/
def fileName? (path : Text) : Option Text :=
  match (stepsOf (splitFront path).2).getLast? with
  | none => none
  | some step => if step = ['.', '.'] then none else some step

/-- Whether a path starts at the root. -/
def isAbsolute (path : Text) : Bool := path.head? = some '/'

/-- Whether a path ends in a slash. -/
def endsInSlash (path : Text) : Bool := path.getLast? = some '/'

/-- A path that is read from another one. -/
def join (base path : Text) : Text :=
  if isAbsolute path || base.isEmpty then path
  else if endsInSlash base then base ++ path
  else base ++ '/' :: path

-- ========================================================= taking apart

/-- A path without the slashes and dots in front of its first step. -/
def trimFront : Text → Text
  | '/' :: rest => trimFront rest
  | ['.'] => []
  | '.' :: '/' :: rest => trimFront rest
  | path => path

/-- A path without the slashes and dots behind its last step. -/
def trimEnd (path : Text) : Text := (trimFront path.reverse).reverse

/-- A path without its last step. -/
def withoutLast (path : Text) : Text :=
  let (front, rest) := splitFront path
  front ++ trimEnd ((trimEnd rest).reverse.dropWhile (· ≠ '/')).reverse

/-- The path of another name beside the last step of a path. -/
def sibling (path name : Text) : Text := join (withoutLast path) name

/-- What follows the given steps, if the rest of a path begins with them. -/
def dropSteps? : List Text → Text → Option Text
  | [], rest => some (trimEnd (trimFront rest))
  | step :: steps, rest =>
    let rest := trimFront rest
    if rest.takeWhile (· ≠ '/') = step then
      dropSteps? steps (rest.dropWhile (· ≠ '/'))
    else
      none

/-- The path that leads from `base` to `path`, if it starts as `base` does. -/
def relative? (base path : Text) : Option Text :=
  let (baseFront, baseRest) := splitFront base
  let (front, rest) := splitFront path
  if baseFront.isEmpty && (stepsOf baseRest).isEmpty then
    some (front ++ trimEnd rest)
  else if baseFront = front then
    dropSteps? (stepsOf baseRest) rest
  else
    none

end TaggedSource.Path

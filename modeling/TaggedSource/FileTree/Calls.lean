/-
The calls on a file tree that the program makes. A call that changes the
tree gives the tree after it; one that fails leaves the tree as it was.
-/
import TaggedSource.FileTree.Locate

namespace TaggedSource.FileTree

/-- The permission bits of a new file. -/
def newFileMode : Nat := 0o644

/-- The permission bits of a directory. -/
def directoryMode : Nat := 0o755

-- ================================================================ looking

/-- What exists at a path. -/
def lookAt (tree : FileTree) (intent : Intent) (path : Text) : Except Fault Node :=
  match tree.locate intent path with
  | .error fault => .error fault
  | .ok (.vacant ..) => .error .noEntry
  | .ok (.node _ node) => .ok node

/-- Whether a path leads to a directory. -/
def isDirectory (tree : FileTree) (path : Text) : Bool :=
  match tree.lookAt .target path with
  | .ok .directory => true
  | _ => false

/-- Whether a path leads to a regular file. -/
def isFile (tree : FileTree) (path : Text) : Bool :=
  match tree.lookAt .target path with
  | .ok (.file ..) => true
  | _ => false

/-- The permission bits of what a path leads to. -/
def modeOf (tree : FileTree) (path : Text) : Except Fault Nat :=
  match tree.lookAt .target path with
  | .error fault => .error fault
  | .ok (.file _ mode) => .ok mode
  | .ok _ => .ok directoryMode

/-- The bytes of the file that a path leads to. -/
def readBytes (tree : FileTree) (path : Text) : Except Fault Bytes :=
  match tree.lookAt .target path with
  | .error fault => .error fault
  | .ok (.file content _) => .ok content
  | .ok _ => .error .isDirectory

/-- The text of the file that a path leads to. -/
def readText (tree : FileTree) (path : Text) : Except Fault Text :=
  match tree.readBytes path with
  | .error fault => .error fault
  | .ok bytes =>
    match Utf8.decode bytes with
    | .error _ => .error .notText
    | .ok t => .ok t

/-- The entries of the directory that a path leads to, by name. -/
def readDirectory (tree : FileTree) (path : Text) : Except Fault (List (Name × Node)) :=
  match tree.locate .target path with
  | .error fault => .error fault
  | .ok (.vacant ..) => .error .noEntry
  | .ok (.node place .directory) => .ok (tree.children place)
  | .ok (.node ..) => .error .notDirectory

-- =============================================================== changing

/-- Writes bytes to the file that a path leads to, which may be new. -/
def writeBytes (tree : FileTree) (path : Text) (content : Bytes) : Except Fault FileTree :=
  match tree.locate .write path with
  | .error fault => .error fault
  | .ok (.vacant directory name) => .ok (tree.put (directory ++ [name]) (.file content newFileMode))
  | .ok (.node place (.file _ mode)) => .ok (tree.put place (.file content mode))
  | .ok (.node ..) => .error .isDirectory

/-- Sets the permission bits of the file that a path leads to. -/
def setMode (tree : FileTree) (path : Text) (mode : Nat) : Except Fault FileTree :=
  match tree.locate .target path with
  | .error fault => .error fault
  | .ok (.vacant ..) => .error .noEntry
  | .ok (.node place (.file content _)) => .ok (tree.put place (.file content mode))
  | .ok (.node ..) => .ok tree

/-- Removes the file or link at a path. -/
def remove (tree : FileTree) (path : Text) : Except Fault FileTree :=
  match tree.locate .entry path with
  | .error fault => .error fault
  | .ok (.vacant ..) => .error .noEntry
  | .ok (.node _ .directory) => .error .isDirectory
  | .ok (.node place _) => .ok (tree.erase place)

/-- The directory that holds the last piece of a path, and the piece. -/
def splitLast (tree : FileTree) (path : Text) : Except Fault (Place × Text) :=
  match refusal? path with
  | some fault => .error fault
  | none =>
    let pieces := Path.pieces path
    match tree.follow .target maxLinks (tree.start path) pieces.dropLast true with
    | .error fault => .error fault
    | .ok (.vacant ..) => .error .noEntry
    | .ok (.node place _) => .ok (place, pieces.getLastD ['.'])

/-- Moves the file or link at a path to another path. What stood there is
replaced, unless it is a directory. -/
def rename (tree : FileTree) (source destination : Text) : Except Fault FileTree := do
  let (directory, name) ← tree.splitLast destination
  match tree.locate .entry source with
  | .error fault => .error fault
  | .ok (.vacant ..) => .error .noEntry
  | .ok (.node place node) =>
    let target := directory ++ [name]
    if name = ['.'] || name = ['.', '.'] then .error .busy
    else if maxName < Text.byteSize name then .error .nameTooLong
    else if Path.endsInSlash destination then .error .notDirectory
    else if (tree.get? target).any Node.isDirectory then .error .isDirectory
    else if target = place then .ok tree
    else .ok ((tree.erase place).put target node)

end TaggedSource.FileTree

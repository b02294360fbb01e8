/-
What a path leads to in a file tree. A path is followed piece by piece
from the root or the working directory; a link on the way, or at its end
if the call follows it, is replaced by its target, forty times at most. A
path that ends in a slash has to lead to a directory.
-/
import TaggedSource.Fault
import TaggedSource.FileTree
import TaggedSource.Path

namespace TaggedSource.FileTree

/-- What a path leads to. -/
inductive Target where
  /-- Something that exists. -/
  | node (place : Place) (node : Node)
  /-- Nothing, in a directory that exists. -/
  | vacant (directory : Place) (name : Name)
  deriving DecidableEq, Repr

/-- What a call wants at the end of a path. -/
inductive Intent where
  /-- The entry itself, a link included. -/
  | entry
  /-- What the entry leads to. -/
  | target
  /-- What the entry leads to, to be written, also if it is vacant. -/
  | write
  deriving DecidableEq, Repr

/-- The greatest number of bytes in a name. -/
def maxName : Nat := 255

/-- The greatest number of bytes in a path. -/
def maxPath : Nat := 4095

/-- The greatest number of links on the way. -/
def maxLinks : Nat := 40

/-- Follows the pieces of a path from a directory. -/
def follow (tree : FileTree) (intent : Intent) (links : Nat) (directory : Place)
    (pieces : List Text) (slash : Bool) : Except Fault Target :=
  match pieces with
  | [] => .ok (.node directory .directory)
  | piece :: rest =>
    if piece = ['.'] then
      tree.follow intent links directory rest slash
    else if piece = ['.', '.'] then
      tree.follow intent links directory.dropLast rest slash
    else if rest.isEmpty && slash && intent = .write then
      .error .isDirectory
    else if maxName < Text.byteSize piece then
      .error .nameTooLong
    else
      let place := directory ++ [piece]
      match tree.get? place with
      | none => if rest.isEmpty then .ok (.vacant directory piece) else .error .noEntry
      | some .directory => tree.follow intent links place rest slash
      | some (.file content mode) =>
        if rest.isEmpty && !slash then .ok (.node place (.file content mode))
        else .error .notDirectory
      | some (.link target) =>
        if rest.isEmpty && !slash && intent = .entry then
          .ok (.node place (.link target))
        else
          match links with
          | 0 => .error .tooManyLinks
          | links + 1 =>
            tree.follow intent links (if Path.isAbsolute target then [] else directory)
              (Path.pieces target ++ rest)
              (slash || (rest.isEmpty && Path.endsInSlash target))
termination_by (links, pieces.length)

/-- What is wrong with a path before it is followed. -/
def refusal? (path : Text) : Option Fault :=
  if path.contains '\x00' then some .nulInPath
  else if path.isEmpty then some .noEntry
  else if maxPath < Text.byteSize path then some .nameTooLong
  else none

/-- Where a path starts. -/
def start (tree : FileTree) (path : Text) : Place :=
  if Path.isAbsolute path then [] else tree.home

/-- What a path leads to. -/
def locate (tree : FileTree) (intent : Intent) (path : Text) : Except Fault Target :=
  match refusal? path with
  | some fault => .error fault
  | none =>
    tree.follow intent maxLinks (tree.start path) (Path.pieces path) (Path.endsInSlash path)

end TaggedSource.FileTree

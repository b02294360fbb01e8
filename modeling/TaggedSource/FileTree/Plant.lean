/-
Trees from entries and entries of trees: how a tree is set up before a
run, and what is seen of it afterwards: its entries, or what has changed
at which place.
-/
import TaggedSource.FileTree.Locate

namespace TaggedSource.FileTree

/-- A tree whose working directory is empty. -/
def emptyAt (home : Place) : FileTree := { entries := [], home }

/-- The tree with a directory at each place on the way to `place` where
nothing stood. -/
def plantDirectories (tree : FileTree) (place : Place) : FileTree :=
  (List.range place.length).foldl
    (fun tree n =>
      let upper := place.take (n + 1)
      if (tree.get? upper).isSome then tree else tree.put upper .directory)
    tree

/-- The tree with a node at a path, and directories on the way to it. A
file that goes where a link stands is written through the link. -/
def plant (tree : FileTree) (path : Text) (node : Node) : FileTree :=
  let place := tree.start path ++ Path.stepsOf path
  let tree := tree.plantDirectories place.dropLast
  match node, tree.locate .write path with
  | .file .., .ok (.node place (.file ..)) => tree.put place node
  | .file .., .ok (.vacant directory name) => tree.put (directory ++ [name]) node
  | .directory, _ => tree.plantDirectories place
  | _, _ => tree.put place node

/-- The path of a place below the working directory. -/
def pathOf (place : Place) : Text := ['/'].intercalate place

/-- What stands below the working directory, by path. -/
def listing (tree : FileTree) : List (Text × Node) :=
  let below := tree.entries.filterMap fun (place, node) =>
    if tree.home.isPrefixOf place && place.length ≠ tree.home.length then
      some (pathOf (place.drop tree.home.length), node)
    else
      none
  below.mergeSort fun a b => Text.atMost a.1 b.1

-- ================================================================ changes

/-- Puts a node at a place, or takes away what stands there. -/
def change (tree : FileTree) : Place × Option Node → FileTree
  | (place, some node) => tree.put place node
  | (place, none) => tree.erase place

/-- The places where two trees differ, with what stands there in the second
one. -/
def changes (before after : FileTree) : List (Place × Option Node) :=
  let gone := before.entries.filter fun entry => (after.get? entry.1).isNone
  let places := (after.entries ++ gone).map (·.1)
  (places.filter fun place => before.get? place ≠ after.get? place).map fun place =>
    (place, after.get? place)

end TaggedSource.FileTree

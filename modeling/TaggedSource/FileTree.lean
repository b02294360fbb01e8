/-
File trees: files, directories and links by place, and the directory that
relative paths start from. A place is the list of names that leads to it
from the root; the root itself is a directory that always exists.
-/
import TaggedSource.Utf8

namespace TaggedSource

/-- The name of an entry in its directory. -/
abbrev Name := Text

/-- Where an entry is: the names that lead to it from the root. -/
abbrev Place := List Name

/-- What stands at a place. -/
inductive Node where
  /-- A regular file with its permission bits. -/
  | file (content : Bytes) (mode : Nat)
  /-- A directory. -/
  | directory
  /-- A symbolic link. -/
  | link (target : Text)
  deriving DecidableEq, Repr

/-- Whether a node is a directory. -/
def Node.isDirectory : Node → Bool
  | .directory => true
  | _ => false

/-- The files of a machine, as far as they matter. -/
structure FileTree where
  /-- What stands where. -/
  entries : List (Place × Node)
  /-- The working directory. -/
  home : Place
  deriving DecidableEq, Repr

namespace FileTree

/-- The node in the first entry of a place. -/
def findIn (place : Place) : List (Place × Node) → Option Node
  | [] => none
  | entry :: entries => if entry.1 = place then some entry.2 else findIn place entries

/-- What stands at a place. -/
def get? (tree : FileTree) (place : Place) : Option Node :=
  if place = [] then some .directory else findIn place tree.entries

/-- Puts a node in the first entry of a place, or behind all entries. -/
def putIn (place : Place) (node : Node) : List (Place × Node) → List (Place × Node)
  | [] => [(place, node)]
  | entry :: entries =>
    if entry.1 = place then (place, node) :: entries else entry :: putIn place node entries

/-- The tree with a node at a place. -/
def put (tree : FileTree) (place : Place) (node : Node) : FileTree :=
  { tree with entries := putIn place node tree.entries }

/-- The tree with nothing at a place. -/
def erase (tree : FileTree) (place : Place) : FileTree :=
  { tree with entries := tree.entries.filter (·.1 ≠ place) }

-- ======================================================= what is where

/-- Entries that were put are found, and all others are found as before. -/
private theorem findIn_putIn (place other : Place) (node : Node) (entries : List (Place × Node)) :
    findIn other (putIn place node entries) =
      if other = place then some node else findIn other entries := by
  induction entries with
  | nil => simp [putIn, findIn, eq_comm]
  | cons entry entries ih =>
    by_cases he : entry.1 = place
    · by_cases ho : other = place
      · simp [putIn, findIn, he, ho]
      · simp [putIn, findIn, he, ho, Ne.symm ho]
    · by_cases ho : other = place
      · subst ho
        simp [putIn, findIn, he, ih]
      · simp [putIn, findIn, he, ho, ih]

/-- Entries that were dropped are not found, and all others are found as
before. -/
private theorem findIn_filter (place other : Place) (entries : List (Place × Node)) :
    findIn other (entries.filter (·.1 ≠ place)) =
      if other = place then none else findIn other entries := by
  induction entries with
  | nil => simp [findIn]
  | cons entry entries ih =>
    by_cases he : entry.1 = place
    · by_cases ho : other = place
      · simpa [he, ho] using ih
      · simpa [findIn, he, ho, Ne.symm ho] using ih
    · by_cases ho : other = place
      · subst ho
        simpa [findIn, he] using ih
      · simpa [findIn, he, ho] using congrArg (fun r => if entry.1 = other then some entry.2 else r) ih

/-- A node is where it was put, and all else is where it was. -/
theorem get?_put (tree : FileTree) {place : Place} (h : place ≠ []) (node : Node) (other : Place) :
    (tree.put place node).get? other = if other = place then some node else tree.get? other := by
  by_cases ho : other = []
  · simp [get?, ho, Ne.symm h]
  · simp [get?, put, ho, findIn_putIn]

/-- Nothing is where a node was erased, and all else is where it was. -/
theorem get?_erase (tree : FileTree) {place : Place} (h : place ≠ []) (other : Place) :
    (tree.erase place).get? other = if other = place then none else tree.get? other := by
  by_cases ho : other = []
  · simp [get?, ho, Ne.symm h]
  · simpa [get?, erase, ho] using findIn_filter place other tree.entries

-- ============================================================ directories

/-- The name of an entry that stands directly in a directory. -/
def nameIn? (directory place : Place) : Option Name :=
  match place.getLast? with
  | some name => if place.dropLast = directory then some name else none
  | none => none

/-- The entries of a directory, by name. -/
def children (tree : FileTree) (directory : Place) : List (Name × Node) :=
  let found := tree.entries.filterMap fun (place, node) =>
    (nameIn? directory place).map (·, node)
  found.mergeSort fun a b => Text.atMost a.1 b.1

/-- The length of the longest place. -/
def height (tree : FileTree) : Nat :=
  (tree.entries.map fun entry => entry.1.length).foldl max 0

end FileTree

end TaggedSource

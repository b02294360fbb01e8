/-
Globs: what they are made of, and which paths they match. Matching works
on the bytes of a path, so `?` and a class match one byte.

A glob is matched part by part: `after` gives what can be left of a path
once a part has matched at its front, and a path matches if nothing can be
left after the last part.
-/
import TaggedSource.Utf8

namespace TaggedSource

/-- A part of a glob. -/
inductive Glob.Part where
  /-- A character that stands for itself. -/
  | literal (c : Char)
  /-- `?`: any byte. -/
  | any
  /-- `*`: any bytes, slashes included. -/
  | star
  /-- `**/` at the front: nothing, or directories. -/
  | directories
  /-- `/**` at the end: all below. -/
  | descendants
  /-- `/**/` between: a slash, or directories between two. -/
  | between
  /-- `[..]`: a byte of a class, or one that is not in it. -/
  | oneOf (negated : Bool) (ranges : List (Char × Char))
  /-- `{..}`: one of several. -/
  | group (branches : List (List Glob.Part))
  deriving Repr

/-- A pattern for paths. -/
structure Glob where
  /-- The parts, first to last. -/
  parts : List Glob.Part
  deriving Repr

namespace Glob

-- =============================================================== classes

/-- The byte of a slash. -/
def slash : UInt8 := 0x2F

/-- The byte ranges of a character range. A character of several bytes
counts byte by byte, and the range runs from the last byte of its first
character to the first byte of its last. -/
def byteRanges (range : Char × Char) : List (UInt8 × UInt8) :=
  let single := fun (bytes : Bytes) => bytes.map fun b => (b, b)
  let first := Utf8.encodeChar range.1
  let last := Utf8.encodeChar range.2
  if range.1 = range.2 then
    single first
  else
    single first.dropLast ++ [(first.getLastD 0, last.headD 0)] ++ single last.tail

/-- Whether a byte is in a class. -/
def inClass (ranges : List (Char × Char)) (b : UInt8) : Bool :=
  ranges.any fun range => (byteRanges range).any fun (low, high) => low ≤ b && b ≤ high

-- ============================================================== matching

/-- A path and what is left of it after one byte, two, and so on. -/
def suffixes : Bytes → List Bytes
  | [] => [[]]
  | b :: rest => (b :: rest) :: suffixes rest

/-- What is left of a path after each of its slashes. -/
def afterSlashes : Bytes → List Bytes
  | [] => []
  | b :: rest => if b = slash then rest :: afterSlashes rest else afterSlashes rest

/-- What is left after a lead. -/
def afterBytes? : (lead : Bytes) → Bytes → Option Bytes
  | [], rest => some rest
  | _ :: _, [] => none
  | a :: lead, b :: rest => if a = b then afterBytes? lead rest else none

/-- Keeps one of several equal remainders of a path; remainders of one
path are equal if they are equally long. -/
def distinct (rests : List Bytes) : List Bytes :=
  rests.eraseDupsBy fun a b => a.length == b.length

/-- What can be left of a path after a part that holds no others. -/
def Part.afterSimple (part : Part) (path : Bytes) : List Bytes :=
  match part with
  | .literal c => (afterBytes? (Utf8.encodeChar c) path).toList
  | .any => path.tail?.toList
  | .star => suffixes path
  | .directories => path :: afterSlashes path
  | .descendants =>
    match path with
    | b :: rest => if b = slash then suffixes rest else []
    | [] => []
  | .between =>
    match path with
    | b :: rest => if b = slash then rest :: afterSlashes rest else []
    | [] => []
  | .oneOf negated ranges =>
    match path with
    | b :: rest => if inClass ranges b != negated then [rest] else []
    | [] => []
  | .group _ => [path]

mutual

/-- Whether a part has no bytes to match: a group of empty branches. -/
def Part.isVoid : Part → Bool
  | .group branches => voidBranches branches
  | _ => false

/-- Whether no part of a branch has bytes to match. -/
def voidParts : List Part → Bool
  | [] => true
  | part :: parts => part.isVoid && voidParts parts

/-- Whether no branch has bytes to match. -/
def voidBranches : List (List Part) → Bool
  | [] => true
  | branch :: branches => voidParts branch && voidBranches branches

end

mutual

/-- What can be left after a part. An empty branch of a group matches
nothing, unless all its branches are empty. -/
def Part.after (rests : List Bytes) : Part → List Bytes
  | .group branches =>
    if voidBranches branches then rests else distinct (afterBranches rests branches)
  | part => distinct (rests.flatMap part.afterSimple)

/-- What can be left after parts in a row. -/
def afterParts (rests : List Bytes) : List Part → List Bytes
  | [] => rests
  | part :: parts => afterParts (part.after rests) parts

/-- What can be left after one of several branches. -/
def afterBranches (rests : List Bytes) : List (List Part) → List Bytes
  | [] => []
  | branch :: branches =>
    (if voidParts branch then [] else afterParts rests branch) ++ afterBranches rests branches

end

-- ================================================================= names

/-- Whether a part is a character that stands for itself. -/
def Part.isLiteral : Part → Bool
  | .literal _ => true
  | _ => false

/-- Whether a part is a given character. -/
def Part.isChar (c : Char) : Part → Bool
  | .literal d => c = d
  | _ => false

/-- Whether a glob that ends in a dot is looked up by the name or the
extension of a file, and not by the end of its path. -/
def byName (g : Glob) : Bool :=
  match g.parts with
  | .directories :: .star :: parts => byExtension parts
  | .directories :: parts => if parts.all Part.isLiteral then !parts.any (Part.isChar '/') else true
  | .star :: parts => byExtension parts
  | parts => !parts.all Part.isLiteral
where
  /-- The same after a star. -/
  byExtension (parts : List Part) : Bool :=
    !parts.all Part.isLiteral || parts.length = 1

/-- Whether a path and a glob both end in a dot, and the glob is looked up
by name. A path that ends in a dot has no file name to be found by. -/
def misses (g : Glob) (path : Bytes) : Bool :=
  path.getLast? = some 0x2E && g.parts.getLast?.any (Part.isChar '.') && g.byName

/-- Whether a glob is `**` alone, which matches every path. -/
def isUniversal (g : Glob) : Bool :=
  match g.parts with
  | [.directories] => true
  | _ => false

/-- Whether a glob matches a path. -/
def matchesPath (g : Glob) (path : Text) : Bool :=
  let bytes := Utf8.encode path
  g.isUniversal || (!g.misses bytes && (afterParts [bytes] g.parts).any (·.isEmpty))

end Glob

end TaggedSource

/-
Reading globs. `**` is special only as a whole component of a path;
elsewhere it is two stars. Groups nest, a comma outside of groups stands
for itself, and a backslash takes the meaning of what follows it.
-/
import TaggedSource.Glob
import TaggedSource.Glob.Flaw

namespace TaggedSource.Glob

-- =============================================================== classes

/-- Lets the last range end with a character. -/
def endRange (c : Char) : List (Char × Char) → Except Flaw (List (Char × Char))
  | (first, _) :: ranges =>
    if c < first then .error (.emptyRange first c) else .ok ((first, c) :: ranges)
  | [] => .ok [(c, c)]

/-- Reads the ranges of a class, last first, and what follows it. `first`
if nothing of the class was read before; `dash` after a dash that may
make a range. -/
def readRanges (ranges : List (Char × Char)) (first dash : Bool) :
    Text → Except Flaw (List (Char × Char) × Text)
  | [] => .error .unclosedClass
  | c :: rest =>
    if c = ']' && !first then
      .ok ((if dash then ('-', '-') :: ranges else ranges).reverse, rest)
    else if c = '-' && !first && !dash then
      readRanges ranges false true rest
    else if dash then
      match endRange c ranges with
      | .error flaw => .error flaw
      | .ok ranges => readRanges ranges false false rest
    else
      readRanges ((c, c) :: ranges) false false rest

/-- Reads a class whose opening bracket is taken. -/
def readClass (t : Text) : Except Flaw (Part × Text) :=
  let negated := t.head? = some '!' || t.head? = some '^'
  match readRanges [] true false (if negated then t.tail else t) with
  | .error flaw => .error flaw
  | .ok (ranges, rest) => .ok (.oneOf negated ranges, rest)

-- ================================================================ groups

/-- A group that is still open. -/
structure OpenGroup where
  /-- The parts before the group, last first. -/
  before : List Part
  /-- The branches that are complete, last first. -/
  branches : List (List Part) := []

/-- What was read of a glob. -/
structure Draft where
  /-- The parts of the innermost branch, last first. -/
  parts : List Part := []
  /-- The open groups, innermost first. -/
  groups : List OpenGroup := []

namespace Draft

/-- Adds a part. -/
def push (d : Draft) (part : Part) : Draft := { d with parts := part :: d.parts }

/-- Opens a group. -/
def openGroup (d : Draft) : Draft := { parts := [], groups := { before := d.parts } :: d.groups }

/-- Closes the innermost group. -/
def closeGroup (d : Draft) : Except Flaw Draft :=
  match d.groups with
  | [] => .error .unopenedGroup
  | group :: groups =>
    .ok {
      parts := .group (d.parts.reverse :: group.branches).reverse :: group.before
      groups := groups }

/-- Takes a comma: the next branch, or a character that stands for itself. -/
def comma (d : Draft) : Draft :=
  match d.groups with
  | [] => d.push (.literal ',')
  | group :: groups =>
    { parts := [], groups := { group with branches := d.parts.reverse :: group.branches } :: groups }

/-- Two stars that are not a component of their own. -/
def twoStars (d : Draft) : Draft := (d.push .star).push .star

/-- Puts `**` in the place of the slash before it. Next to another `**` it
adds nothing. -/
def replaceSlash (d : Draft) (part : Part) : Draft :=
  match d.parts with
  | .directories :: _ | .descendants :: _ => d
  | _ :: parts => { d with parts := part :: parts }
  | [] => d

/-- Takes `**`, given the characters around it, and tells whether the
slash after it is taken as well. -/
def doubleStar (d : Draft) (before after : Option Char) : Draft × Bool :=
  if d.parts.isEmpty then
    if after = none || after = some '/' then (d.push .directories, true) else (d.twoStars, false)
  else if before = some '/' || (!d.groups.isEmpty && (before = some ',' || before = some '{')) then
    if after = none then
      (d.replaceSlash .descendants, false)
    else if after = some '/' then
      (d.replaceSlash .between, true)
    else if !d.groups.isEmpty && (after = some ',' || after = some '}') then
      (d.replaceSlash .descendants, false)
    else
      (d.twoStars, false)
  else
    (d.twoStars, false)

end Draft

-- =============================================================== reading

/-- Reads the rest of a glob after the character `before`. -/
def readParts (d : Draft) (before : Option Char) (t : Text) : Except Flaw Draft :=
  match t with
  | [] => .ok d
  | '\\' :: [] => .error .danglingEscape
  | '\\' :: c :: rest => readParts (d.push (.literal c)) (some c) rest
  | '*' :: '*' :: rest =>
    let (d, takesSlash) := d.doubleStar before rest.head?
    match takesSlash, rest with
    | true, c :: rest => readParts d (some c) rest
    | _, rest => readParts d (some '*') rest
  | '[' :: rest =>
    match readClass rest with
    | .error flaw => .error flaw
    | .ok (part, after) =>
      if after.length ≤ rest.length then readParts (d.push part) (some ']') after
      else .error .unclosedClass
  | '}' :: rest =>
    match d.closeGroup with
    | .error flaw => .error flaw
    | .ok d => readParts d (some '}') rest
  | c :: rest =>
    let d :=
      match c with
      | '?' => d.push .any
      | '*' => d.push .star
      | '{' => d.openGroup
      | ',' => d.comma
      | c => d.push (.literal c)
    readParts d (some c) rest
termination_by t.length

/-- Reads a glob. -/
def parse (t : Text) : Except Flaw Glob :=
  match readParts {} none t with
  | .error flaw => .error flaw
  | .ok d => if d.groups.isEmpty then .ok ⟨d.parts.reverse⟩ else .error .unclosedGroup

end TaggedSource.Glob

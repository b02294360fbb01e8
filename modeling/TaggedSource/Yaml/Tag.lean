/-
Anchors, tags and directives of a YAML text. Of a tag only its handle
matters to the reader, since a handle has to be declared; the rest of a
tag is checked for its form and dropped.
-/
import TaggedSource.Yaml.Cursor

namespace TaggedSource.Yaml

-- =============================================================== anchors

/-- Whether an anchor may end before the rest. -/
def endsAnchor (rest : Text) : Bool :=
  atGap rest || rest.head?.any fun c =>
    c = '?' || c = ':' || c = ',' || c = ']' || c = '}' || c = '%' || c = '@' || c = '\x60'

/-- Reads the name of an anchor whose indicator is taken. -/
def readAnchor (c : Cursor) : Option (Text × Cursor) :=
  let name := c.rest.takeWhile isWordChar
  let after := c.skip name.length
  if !name.isEmpty && endsAnchor after.rest then some (name, after) else none

-- ================================================================== URIs

/-- The octet that an escape spells, and the rest. -/
def octet? : Text → Option (Nat × Text)
  | '%' :: a :: b :: rest => do
    let a ← hexDigit? a
    let b ← hexDigit? b
    some (a * 16 + b, rest)
  | _ => none

/-- How many octets the UTF-8 form of a character has, by the first. -/
def octetCount? (octet : Nat) : Option Nat :=
  if octet < 0x80 then some 1
  else if 0xC0 ≤ octet ∧ octet < 0xE0 then some 2
  else if 0xE0 ≤ octet ∧ octet < 0xF0 then some 3
  else if 0xF0 ≤ octet ∧ octet < 0xF8 then some 4
  else none

/-- Whether a number of further octets comes next. -/
def furtherOctets : Nat → Text → Bool
  | 0, _ => true
  | count + 1, t =>
    match octet? t with
    | some (octet, rest) => 0x80 ≤ octet && octet < 0xC0 && furtherOctets count rest
    | none => false

/-- The length of the escaped character that comes next. -/
def escapedLength? (t : Text) : Option Nat := do
  let (octet, rest) ← octet? t
  let count ← octetCount? octet
  if furtherOctets (count - 1) rest then some (3 * count) else none

/-- Whether a character can stand in a URI. A verbatim one may also hold
punctuation of flow collections. -/
def isUriChar (verbatim : Bool) (c : Char) : Bool :=
  isWordChar c || (text ";/?:@&=+$.%!~*'()").contains c ||
    (verbatim && (c = ',' || c = '[' || c = ']'))

/-- The length of the URI that begins after `passed` characters. -/
def uriLength? (verbatim : Bool) : (passed : Nat) → Text → Option Nat
  | _, [] => some 0
  | passed + 1, _ :: rest => (uriLength? verbatim passed rest).map (· + 1)
  | 0, c :: rest =>
    if c = '%' then
      match escapedLength? (c :: rest) with
      | none => none
      | some length => (uriLength? verbatim (length - 1) rest).map (· + 1)
    else if isUriChar verbatim c then
      (uriLength? verbatim 0 rest).map (· + 1)
    else
      some 0

-- ================================================================== tags

/-- Reads a tag between angle brackets, which are still to be taken. -/
def readVerbatimTag (c : Cursor) : Option (Text × Cursor) := do
  let c := c.skip 2
  let length ← uriLength? true 0 c.rest
  let c := c.skip length
  if length ≠ 0 ∧ c.rest.head? = some '>' then some ([], c.skip 1) else none

/-- Reads a tag with a handle, or without. The tag `!` has no handle. -/
def readShortTag (c : Cursor) : Option (Text × Cursor) := do
  let word := (c.rest.drop 1).takeWhile isWordChar
  let after := c.skip (word.length + 1)
  if after.rest.head? = some '!' then
    let after := after.skip 1
    let length ← uriLength? false 0 after.rest
    if length = 0 then none else some (['!'] ++ word ++ ['!'], after.skip length)
  else
    let length ← uriLength? false 0 after.rest
    some (if word.isEmpty && length = 0 then [] else ['!'], after.skip length)

/-- Reads a tag and gives its handle. -/
def readTag (flow : Bool) (c : Cursor) : Option (Text × Cursor) := do
  let (handle, after) ←
    if (c.rest.drop 1).head? = some '<' then readVerbatimTag c else readShortTag c
  if atGap after.rest || (flow && after.rest.head? = some ',') then
    some (handle, after)
  else
    none

-- ============================================================ directives

/-- What the lines before a document declare. -/
inductive Directive where
  /-- The version of the language. -/
  | version (major minor : Nat)
  /-- A handle for tags. -/
  | handle (name : Text)
  deriving DecidableEq, Repr

/-- Reads a number of at most nine digits. -/
def readVersionNumber (c : Cursor) : Option (Nat × Cursor) :=
  let digits := c.rest.takeWhile isDigit
  if digits.isEmpty || 9 < digits.length then
    none
  else
    some (digits.foldl (fun n d => n * 10 + (d.toNat - '0'.toNat)) 0, c.skip digits.length)

/-- Reads the value of a version directive. -/
def readVersion (c : Cursor) : Option (Directive × Cursor) := do
  let (major, c) ← readVersionNumber (c.skipWhile isBlank)
  if c.rest.head? = some '.' then
    let (minor, c) ← readVersionNumber (c.skip 1)
    some (.version major minor, c)
  else
    none

/-- Reads the handle that a tag directive declares. -/
def readHandle (c : Cursor) : Option (Text × Cursor) :=
  if c.rest.head? = some '!' then
    let word := (c.rest.drop 1).takeWhile isWordChar
    let after := c.skip (word.length + 1)
    if after.rest.head? = some '!' then some (['!'] ++ word ++ ['!'], after.skip 1)
    else if word.isEmpty then some (['!'], after)
    else none
  else
    none

/-- Reads the value of a tag directive. -/
def readHandleDirective (c : Cursor) : Option (Directive × Cursor) := do
  let (name, c) ← readHandle (c.skipWhile isBlank)
  if c.rest.head?.any isBlank then
    let c := c.skipWhile isBlank
    let length ← uriLength? true 0 c.rest
    let c := c.skip length
    if length ≠ 0 ∧ atGap c.rest then some (.handle name, c) else none
  else
    none

/-- Reads a directive, whose percent sign is still to be taken, to the end
of its line. -/
def readDirective (c : Cursor) : Option (Directive × Cursor) := do
  let c := c.skip 1
  let name := c.rest.takeWhile isWordChar
  let c := c.skip name.length
  if !atGap c.rest then none
  let (directive, c) ←
    if name = text "YAML" then readVersion c
    else if name = text "TAG" then readHandleDirective c
    else none
  let c ← c.finishLine?
  some (directive, c)

end TaggedSource.Yaml

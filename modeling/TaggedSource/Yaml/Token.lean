/-
The tokens of a YAML text. Indentation becomes tokens of its own: a block
collection begins where a line is indented deeper than the collections
around it, and ends where a line is indented less.

A mapping key without an indicator, a simple key, is only known as one
when the colon after it turns up. So the place of every token that may
begin a simple key is kept, one for each flow level, and the key token is
put there afterwards. A place is given up when the line ends or after
1024 characters; one that the indentation made the start of a key must
not be given up.
-/
import TaggedSource.Yaml.Scalar
import TaggedSource.Yaml.Tag

namespace TaggedSource.Yaml

/-- A token of a YAML text. -/
inductive Token where
  /-- The end of the text. -/
  | streamEnd
  /-- A directive. -/
  | directive (value : Directive)
  /-- The begin of a document. -/
  | documentStart
  /-- The end of a document. -/
  | documentEnd
  /-- The begin of a sequence by indentation. -/
  | blockSequenceStart
  /-- The begin of a mapping by indentation. -/
  | blockMappingStart
  /-- The end of either. -/
  | blockEnd
  /-- The begin of a sequence in brackets. -/
  | flowSequenceStart
  /-- The end of a sequence in brackets. -/
  | flowSequenceEnd
  /-- The begin of a mapping in braces. -/
  | flowMappingStart
  /-- The end of a mapping in braces. -/
  | flowMappingEnd
  /-- A dash. -/
  | blockEntry
  /-- A comma. -/
  | flowEntry
  /-- The begin of a key. -/
  | key
  /-- The begin of a value. -/
  | value
  /-- A reference to an anchor. -/
  | alias (name : Text)
  /-- An anchor. -/
  | anchor (name : Text)
  /-- A tag, by its handle. -/
  | tag (handle : Text)
  /-- A scalar, and whether it is written plainly. -/
  | scalar (plain : Bool) (text : Text)
  deriving DecidableEq, Repr

/-- A place where a simple key may have begun. -/
structure KeyPlace where
  /-- Whether indentation makes it the begin of a key. -/
  required : Bool
  /-- How many tokens came before. -/
  tokens : Nat
  /-- Where it is in the text. -/
  cursor : Cursor

/-- The scanner between two tokens. -/
structure Scanner where
  /-- Where it stands. -/
  cursor : Cursor
  /-- The indentation of the innermost block collection. -/
  indent : Int := -1
  /-- The indentations of those around it, innermost first. -/
  outer : List Int := []
  /-- Whether a simple key may begin. -/
  keyAllowed : Bool := true
  /-- The places of simple keys, innermost flow level first. -/
  keys : List (Option KeyPlace) := [none]
  /-- The tokens, last first. -/
  emitted : List Token := []
  /-- How many tokens there are. -/
  count : Nat := 0

namespace Scanner

/-- Whether the scanner is inside a flow collection. -/
def inFlow (s : Scanner) : Bool := 1 < s.keys.length

/-- Adds a token. -/
def emit (s : Scanner) (token : Token) : Scanner :=
  { s with emitted := token :: s.emitted, count := s.count + 1 }

/-- Puts a token behind the first `place` tokens. -/
def insert (s : Scanner) (place : Nat) (token : Token) : Scanner :=
  let later := s.count - place
  { s with
    emitted := s.emitted.take later ++ token :: s.emitted.drop later
    count := s.count + 1 }

/-- Moves on by some characters. -/
def skip (s : Scanner) (count : Nat) : Scanner := { s with cursor := s.cursor.skip count }

/-- Allows or forbids a simple key. -/
def allowKey (s : Scanner) (allowed : Bool) : Scanner := { s with keyAllowed := allowed }

-- ========================================================== indentation

/-- Begins a block collection if the column is deeper than the innermost. -/
def roll (s : Scanner) (column : Nat) (place : Nat) (token : Token) : Scanner :=
  if !s.inFlow && s.indent < column then
    { s.insert place token with indent := column, outer := s.indent :: s.outer }
  else
    s

/-- Ends the block collections that are deeper than a column. -/
def unrollFrom (column : Int) (s : Scanner) : List Int → Scanner
  | [] => s
  | outer :: rest =>
    if column < s.indent then
      unrollFrom column { s.emit .blockEnd with indent := outer, outer := rest } rest
    else
      s

/-- Ends block collections, unless the scanner is in a flow collection. -/
def unroll (s : Scanner) (column : Int) : Scanner :=
  if s.inFlow then s else unrollFrom column s s.outer

-- ========================================================== simple keys

/-- Gives up the innermost place of a simple key. -/
def dropKey (s : Scanner) : Option Scanner :=
  match s.keys with
  | some place :: rest => if place.required then none else some { s with keys := none :: rest }
  | _ => some s

/-- Keeps this place if a simple key may begin. -/
def saveKey (s : Scanner) : Option Scanner :=
  if s.keyAllowed then do
    let required := !s.inFlow && s.indent = s.cursor.column
    let s ← s.dropKey
    some { s with keys := some ⟨required, s.count, s.cursor⟩ :: s.keys.drop 1 }
  else
    some s

/-- Whether a place is too far back for a simple key. -/
def isStale (c : Cursor) (place : KeyPlace) : Bool :=
  place.cursor.line < c.line || place.cursor.index + 1024 < c.index

/-- Gives up the places that are too far back. -/
def dropStaleKeys (s : Scanner) : Option Scanner := do
  let keys ← s.keys.mapM fun key =>
    match key with
    | none => some none
    | some place =>
      if isStale s.cursor place then
        if place.required then none else some none
      else
        some (some place)
  some { s with keys := keys }

-- ============================================================== blanks

/-- Takes a byte order mark at the begin of a line, blanks and a comment.
A tab counts as a blank only where no simple key may begin. -/
def skipBlanks (s : Scanner) : Cursor :=
  let c := s.cursor
  let c := if c.column = 0 && c.rest.head? = some '\ufeff' then c.skip 1 else c
  let c := c.skipWhile fun x => x = ' ' || ((s.inFlow || !s.keyAllowed) && x = '\t')
  if c.rest.head? = some '#' then c.skipLine else c

/-- Moves to the next token. A new line may begin a simple key, unless it
is in a flow collection. -/
def toToken (s : Scanner) : Option Scanner :=
  let c := s.skipBlanks
  if c.rest.head?.any isBreak then
    let next := c.takeBreak.2
    if next.rest.length < s.cursor.rest.length then
      toToken { s with cursor := next, keyAllowed := s.keyAllowed || !s.inFlow }
    else
      none
  else
    some { s with cursor := c }
termination_by s.cursor.rest.length

-- ============================================================== tokens

/-- Takes a marker of the document's begin or end. -/
def fetchDocumentMark (s : Scanner) (token : Token) : Option Scanner := do
  let s ← (s.unroll (-1)).dropKey
  some (((s.allowKey false).skip 3).emit token)

/-- Takes a directive. -/
def fetchDirective (s : Scanner) : Option Scanner := do
  let s ← (s.unroll (-1)).dropKey
  let (directive, cursor) ← readDirective s.cursor
  some ({ s.allowKey false with cursor := cursor }.emit (.directive directive))

/-- Takes the begin of a flow collection. -/
def fetchFlowStart (s : Scanner) (token : Token) : Option Scanner := do
  let s ← s.saveKey
  let s := { s with keys := none :: s.keys }
  some (((s.allowKey true).skip 1).emit token)

/-- Takes the end of a flow collection. -/
def fetchFlowEnd (s : Scanner) (token : Token) : Option Scanner := do
  let s ← s.dropKey
  let s := if s.inFlow then { s with keys := s.keys.drop 1 } else s
  some (((s.allowKey false).skip 1).emit token)

/-- Takes a comma. -/
def fetchFlowEntry (s : Scanner) : Option Scanner := do
  let s ← s.dropKey
  some (((s.allowKey true).skip 1).emit .flowEntry)

/-- Takes a dash. -/
def fetchBlockEntry (s : Scanner) : Option Scanner := do
  if !s.inFlow && !s.keyAllowed then none
  let s := s.roll s.cursor.column s.count .blockSequenceStart
  let s ← s.dropKey
  some (((s.allowKey true).skip 1).emit .blockEntry)

/-- Takes the indicator of a key. -/
def fetchKey (s : Scanner) : Option Scanner := do
  if !s.inFlow && !s.keyAllowed then none
  let s := s.roll s.cursor.column s.count .blockMappingStart
  let s ← s.dropKey
  some (((s.allowKey (!s.inFlow)).skip 1).emit .key)

/-- Takes the indicator of a value. If a simple key may have begun before,
it did. -/
def fetchValue (s : Scanner) : Option Scanner :=
  match s.keys with
  | some place :: rest =>
    let s := s.insert place.tokens .key
    let s := s.roll place.cursor.column place.tokens .blockMappingStart
    let s := { s with keys := none :: rest, keyAllowed := false }
    some ((s.skip 1).emit .value)
  | _ =>
    if !s.inFlow && !s.keyAllowed then
      none
    else
      let s := s.roll s.cursor.column s.count .blockMappingStart
      some (((s.allowKey (!s.inFlow)).skip 1).emit .value)

/-- Takes an anchor or a reference to one. -/
def fetchAnchor (s : Scanner) (make : Text → Token) : Option Scanner := do
  let s ← s.saveKey
  let (name, cursor) ← readAnchor (s.cursor.skip 1)
  some ({ s.allowKey false with cursor := cursor }.emit (make name))

/-- Takes a tag. -/
def fetchTag (s : Scanner) : Option Scanner := do
  let s ← s.saveKey
  let (handle, cursor) ← readTag s.inFlow s.cursor
  some ({ s.allowKey false with cursor := cursor }.emit (.tag handle))

/-- Takes a block scalar. -/
def fetchBlockScalar (s : Scanner) (literal : Bool) : Option Scanner := do
  let s ← s.dropKey
  let (value, cursor) ← readBlock literal s.indent (s.cursor.skip 1)
  some ({ s.allowKey true with cursor := cursor }.emit (.scalar false value))

/-- Takes a quoted scalar. -/
def fetchQuoted (s : Scanner) (single : Bool) : Option Scanner := do
  let s ← s.saveKey
  let (value, cursor) ← readQuoted single [] (s.cursor.skip 1)
  some ({ s.allowKey false with cursor := cursor }.emit (.scalar false value))

/-- Takes a plain scalar. -/
def fetchPlain (s : Scanner) : Option Scanner := do
  let s ← s.saveKey
  let plain ← readPlain s.inFlow (s.indent + 1) [] {} s.cursor
  some ({ s.allowKey plain.broken with cursor := plain.cursor }.emit (.scalar true plain.text))

/-- Whether a plain scalar can begin with a character before a rest. -/
def beginsPlain (s : Scanner) (c : Char) (rest : Text) : Bool :=
  !(isBlank c || isBreak c || (text "-?:,[]\x7b\x7d#&*!|>'\"%@\x60").contains c) ||
    (c = '-' && !rest.head?.any isBlank) ||
    (!s.inFlow && (c = '?' || c = ':') && !atGap rest)

/-- Takes the token that begins with a character. -/
def fetch (s : Scanner) (c : Char) (rest : Text) : Option Scanner :=
  if s.cursor.column = 0 && c = '%' then s.fetchDirective
  else if s.cursor.atMark '-' then s.fetchDocumentMark .documentStart
  else if s.cursor.atMark '.' then s.fetchDocumentMark .documentEnd
  else if c = '[' then s.fetchFlowStart .flowSequenceStart
  else if c = '{' then s.fetchFlowStart .flowMappingStart
  else if c = ']' then s.fetchFlowEnd .flowSequenceEnd
  else if c = '}' then s.fetchFlowEnd .flowMappingEnd
  else if c = ',' then s.fetchFlowEntry
  else if c = '-' && atGap rest then s.fetchBlockEntry
  else if c = '?' && (s.inFlow || atGap rest) then s.fetchKey
  else if c = ':' && (s.inFlow || atGap rest) then s.fetchValue
  else if c = '*' then s.fetchAnchor .alias
  else if c = '&' then s.fetchAnchor .anchor
  else if c = '!' then s.fetchTag
  else if c = '|' && !s.inFlow then s.fetchBlockScalar true
  else if c = '>' && !s.inFlow then s.fetchBlockScalar false
  else if c = '\'' then s.fetchQuoted true
  else if c = '"' then s.fetchQuoted false
  else if s.beginsPlain c rest then s.fetchPlain
  else none

/-- Ends what is open at the end of the text. -/
def finish (s : Scanner) : Option (List Token) := do
  let s ← (s.unroll (-1)).dropKey
  some (s.emit .streamEnd).emitted.reverse

/-- The tokens from here to the end of the text. -/
def run (s : Scanner) : Option (List Token) :=
  match s.toToken.bind dropStaleKeys with
  | none => none
  | some here =>
    let here := here.unroll here.cursor.column
    match here.cursor.rest with
    | [] => here.finish
    | c :: rest =>
      match here.fetch c rest with
      | none => none
      | some next =>
        if next.cursor.rest.length < s.cursor.rest.length then next.run else none
termination_by s.cursor.rest.length

end Scanner

/-- The tokens of a text. -/
def tokens? (t : Text) : Option (List Token) :=
  if t.all isAllowed then Scanner.run { cursor := { rest := t } } else none

end TaggedSource.Yaml

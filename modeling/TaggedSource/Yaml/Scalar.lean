/-
The three ways to write a YAML scalar: plain, quoted, and as a block. Each
reader takes a cursor and gives the scalar's text and where it ends, or
nothing if the text is no scalar.

Within plain and quoted scalars a stretch of blanks and line ends is a
`Gap`: blanks alone stand for themselves, one line end is a space, and of
several the first is dropped. Readers call themselves only on a shorter
rest, which is how they come to an end.
-/
import TaggedSource.Yaml.Cursor

namespace TaggedSource.Yaml

-- ================================================================== gaps

/-- Blanks and line ends within a scalar. -/
structure Gap where
  /-- The blanks, if there is no line end. -/
  blanks : Text := []
  /-- Whether there is a line end, an escaped one included. -/
  broken : Bool := false
  /-- The first line end. -/
  first : Text := []
  /-- The further line ends. -/
  more : Text := []
  deriving Repr

/-- What a gap stands for. -/
def Gap.text (gap : Gap) : Text :=
  if gap.broken then
    if gap.first = ['\n'] then
      if gap.more.isEmpty then [' '] else gap.more
    else
      gap.first ++ gap.more
  else
    gap.blanks

/-- One step through a gap. -/
inductive GapStep where
  /-- The gap is at its end. -/
  | stop
  /-- A tab stands where it must not. -/
  | refuse
  /-- The gap goes on. -/
  | go (gap : Gap) (next : Cursor)

/-- Takes a blank or a line end. After a line end, a tab must not stand
before the column `floor`. -/
def gapStep (floor : Int) (gap : Gap) (c : Cursor) : GapStep :=
  match c.rest with
  | [] => .stop
  | x :: _ =>
    if isBlank x then
      if gap.broken then
        if (c.column : Int) < floor && x = '\t' then .refuse else .go gap (c.skip 1)
      else
        .go { gap with blanks := gap.blanks ++ [x] } (c.skip 1)
    else if isBreak x then
      let (lineEnd, next) := c.takeBreak
      if gap.broken then
        .go { gap with more := gap.more ++ lineEnd } next
      else
        .go { broken := true, first := lineEnd } next
    else
      .stop

/-- Reads blanks and line ends. -/
def readGap (floor : Int) (gap : Gap) (c : Cursor) : Option (Gap × Cursor) :=
  match gapStep floor gap c with
  | .stop => some (gap, c)
  | .refuse => none
  | .go gap next =>
    if next.rest.length < c.rest.length then readGap floor gap next else none
termination_by c.rest.length

-- ================================================================= plain

/-- Whether a character is punctuation of flow collections. -/
def isFlowPunctuation (c : Char) : Bool :=
  c = ',' || c = '[' || c = ']' || c = '{' || c = '}'

/-- Whether a colon before the rest is refused in a flow collection. -/
def refusesColon : Text → Bool
  | [] => false
  | c :: _ => c = '?' || isFlowPunctuation c

/-- The characters of a plain scalar up to a gap or an indicator. -/
def plainRun (flow : Bool) : Text → Option Text
  | [] => some []
  | c :: rest =>
    if isBlank c || isBreak c then some []
    else if flow && c = ':' && refusesColon rest then none
    else if (c = ':' && atGap rest) || (flow && isFlowPunctuation c) then some []
    else (plainRun flow rest).map (c :: ·)

/-- A plain scalar: its text, whether a line end follows it, its end. -/
structure Plain where
  /-- The text. -/
  text : Text
  /-- Whether the reader went past a line end after the scalar. -/
  broken : Bool
  /-- Where the reader stopped. -/
  cursor : Cursor

/-- Reads a plain scalar whose lines are indented by `floor` at least.
`sofar` is what was read before the gap. -/
def readPlain (flow : Bool) (floor : Int) (sofar : Text) (gap : Gap) (c : Cursor) :
    Option Plain :=
  if c.atDocumentMark || c.rest.head? = some '#' then
    some ⟨sofar, gap.broken, c⟩
  else
    match plainRun flow c.rest with
    | none => none
    | some [] => some ⟨sofar, gap.broken, c⟩
    | some run =>
      let sofar := sofar ++ gap.text ++ run
      let after := c.skip run.length
      if after.rest.isEmpty || !atGap after.rest then
        some ⟨sofar, false, after⟩
      else
        match readGap floor {} after with
        | none => none
        | some (gap, next) =>
          if !flow && (next.column : Int) < floor then
            some ⟨sofar, gap.broken, next⟩
          else if next.rest.length < c.rest.length then
            readPlain flow floor sofar gap next
          else
            none
termination_by c.rest.length

-- ================================================================ quoted

/-- Why a run of characters in a quoted scalar ends. -/
inductive RunEnd where
  /-- At a blank, a line end or the end of the text. -/
  | gap
  /-- At the closing quote. -/
  | quote
  /-- At a backslash that takes a line end away. -/
  | escapedBreak
  deriving DecidableEq, Repr

/-- The number that hexadecimal digits spell. -/
def hexNumber? (digits : Text) : Option Nat :=
  digits.foldlM (fun n c => (hexDigit? c).map (n * 16 + ·)) 0

/-- The character with the number that the next `count` digits spell. -/
def numberedChar? (count : Nat) (t : Text) : Option Char :=
  let digits := t.take count
  if digits.length < count then
    none
  else
    match hexNumber? digits with
    | none => none
    | some n => if n.isValidChar then some (Char.ofNat n) else none

/-- The character that an escape stands for, and the escape's length
without its backslash. -/
def escape? : Text → Option (Char × Nat)
  | [] => none
  | c :: rest =>
    match c with
    | '0' => some ('\x00', 1)
    | 'a' => some ('\x07', 1)
    | 'b' => some ('\x08', 1)
    | 't' => some ('\t', 1)
    | '\t' => some ('\t', 1)
    | 'n' => some ('\n', 1)
    | 'v' => some ('\x0b', 1)
    | 'f' => some ('\x0c', 1)
    | 'r' => some ('\r', 1)
    | 'e' => some ('\x1b', 1)
    | ' ' => some (' ', 1)
    | '"' => some ('"', 1)
    | '/' => some ('/', 1)
    | '\\' => some ('\\', 1)
    | 'N' => some ('\u0085', 1)
    | '_' => some ('\u00a0', 1)
    | 'L' => some ('\u2028', 1)
    | 'P' => some ('\u2029', 1)
    | 'x' => (numberedChar? 2 rest).map (·, 3)
    | 'u' => (numberedChar? 4 rest).map (·, 5)
    | 'U' => (numberedChar? 8 rest).map (·, 9)
    | _ => none

/-- A run of characters in a quoted scalar. -/
structure QuotedRun where
  /-- What the run stands for. -/
  text : Text
  /-- How many characters it takes. -/
  length : Nat
  /-- Why it ends. -/
  reason : RunEnd

/-- A run with a character in front that takes some places. -/
def QuotedRun.cons (c : Char) (places : Nat) (run : QuotedRun) : QuotedRun :=
  ⟨c :: run.text, places + run.length, run.reason⟩

/-- The run that begins after `passed` characters of a text. -/
def quotedRun (single : Bool) : (passed : Nat) → Text → Option QuotedRun
  | _, [] => some ⟨[], 0, .gap⟩
  | passed + 1, _ :: rest => quotedRun single passed rest
  | 0, c :: rest =>
    if isBlank c || isBreak c then
      some ⟨[], 0, .gap⟩
    else if single then
      if c = '\'' then
        if rest.head? = some '\'' then
          (quotedRun single 1 rest).map (·.cons '\'' 2)
        else
          some ⟨[], 0, .quote⟩
      else
        (quotedRun single 0 rest).map (·.cons c 1)
    else if c = '"' then
      some ⟨[], 0, .quote⟩
    else if c = '\\' then
      if rest.head?.any isBreak then
        some ⟨[], 0, .escapedBreak⟩
      else
        match escape? rest with
        | none => none
        | some (value, length) =>
          (quotedRun single length rest).map (·.cons value (length + 1))
    else
      (quotedRun single 0 rest).map (·.cons c 1)

/-- Reads a quoted scalar whose opening quote is taken. -/
def readQuoted (single : Bool) (sofar : Text) (c : Cursor) : Option (Text × Cursor) :=
  if c.atDocumentMark || c.rest.isEmpty then
    none
  else
    match quotedRun single 0 c.rest with
    | none => none
    | some run =>
      let sofar := sofar ++ run.text
      let after := c.skip run.length
      if run.reason = .quote then
        some (sofar, after.skip 1)
      else
        let gap :=
          if run.reason = .gap then readGap 0 {} after
          else readGap 0 { broken := true } (after.skip 1).takeBreak.2
        match gap with
        | none => none
        | some (gap, next) =>
          if next.rest.length < c.rest.length then
            readQuoted single (sofar ++ gap.text) next
          else
            none
termination_by c.rest.length

-- ================================================================ blocks

/-- What becomes of the line ends after a block scalar. -/
inductive Chomp where
  /-- All go. -/
  | strip
  /-- One stays. -/
  | clip
  /-- All stay. -/
  | keep
  deriving DecidableEq, Repr

/-- The chomping that an indicator asks for. -/
def chomp? : Char → Option Chomp
  | '-' => some .strip
  | '+' => some .keep
  | _ => none

/-- The indentation that an indicator asks for; zero is refused. -/
def increment? (c : Char) : Option Nat :=
  if isDigit c && c ≠ '0' then some (c.toNat - '0'.toNat) else none

/-- The indicators of a block scalar, in either order, and what follows. -/
def blockHeader? (c : Cursor) : Option (Chomp × Nat × Cursor) :=
  match c.rest with
  | a :: rest =>
    match chomp? a with
    | some chomp =>
      if rest.head?.any isDigit then
        (rest.head?.bind increment?).map (chomp, ·, c.skip 2)
      else
        some (chomp, 0, c.skip 1)
    | none =>
      if isDigit a then
        match increment? a, rest.head?.bind chomp? with
        | some increment, some chomp => some (chomp, increment, c.skip 2)
        | some increment, none => some (.clip, increment, c.skip 1)
        | none, _ => none
      else
        some (.clip, 0, c)
  | [] => some (.clip, 0, c)

/-- Line ends and indentation before a line of a block scalar. -/
structure Margin where
  /-- The block's indentation, zero while it is unknown. -/
  indent : Nat
  /-- The line ends. -/
  breaks : Text
  /-- Where the line begins. -/
  cursor : Cursor

/-- Reads indentation and empty lines up to a line that is not empty. An
unknown indentation becomes the deepest one met, but at least `least`. -/
def readMargin (least : Nat) (indent deepest : Nat) (breaks : Text) (c : Cursor) :
    Option Margin :=
  let spaces := (c.rest.takeWhile (· = ' ')).length
  let c' := c.skip (if indent = 0 then spaces else min spaces (indent - c.column))
  let deepest := max deepest c'.column
  if (indent = 0 || c'.column < indent) && c'.rest.head? = some '\t' then
    none
  else if c'.rest.head?.any isBreak then
    let (lineEnd, next) := c'.takeBreak
    if next.rest.length < c.rest.length then
      readMargin least indent deepest (breaks ++ lineEnd) next
    else
      none
  else
    some ⟨if indent = 0 then max deepest least else indent, breaks, c'⟩
termination_by c.rest.length

/-- What was read of a block scalar before a line. -/
structure BlockSoFar where
  /-- The text up to the last line end. -/
  text : Text := []
  /-- The last line end. -/
  lineEnd : Text := []
  /-- Whether the last line begins with a blank. -/
  blank : Bool := false

/-- Reads the lines of a block scalar. -/
def readBlockLines (literal : Bool) (chomp : Chomp) (least : Nat) (sofar : BlockSoFar)
    (margin : Margin) : Option (Text × Cursor) :=
  let c := margin.cursor
  if c.column = margin.indent && !c.rest.isEmpty then
    let blank := c.rest.head?.any isBlank
    let joint :=
      if !literal && sofar.lineEnd = ['\n'] && !sofar.blank && !blank then
        if margin.breaks.isEmpty then [' '] else []
      else
        sofar.lineEnd
    let line := c.rest.takeWhile fun x => !isBreak x
    let (lineEnd, next) := (c.skip line.length).takeBreak
    match readMargin least margin.indent 0 [] next with
    | none => none
    | some margin' =>
      if margin'.cursor.rest.length < margin.cursor.rest.length then
        readBlockLines literal chomp least
          ⟨sofar.text ++ joint ++ margin.breaks ++ line, lineEnd, blank⟩ margin'
      else
        none
  else
    let tail :=
      match chomp with
      | .strip => []
      | .clip => sofar.lineEnd
      | .keep => sofar.lineEnd ++ margin.breaks
    some (sofar.text ++ tail, c)
termination_by margin.cursor.rest.length

/-- Reads a block scalar whose indicator is taken, inside a block of the
given indentation. -/
def readBlock (literal : Bool) (outer : Int) (c : Cursor) : Option (Text × Cursor) := do
  let (chomp, increment, c) ← blockHeader? c
  let c ← c.finishLine?
  let least := max 1 (outer + 1).toNat
  let indent := if increment = 0 then 0 else outer.toNat + increment
  let margin ← readMargin least indent 0 [] c
  readBlockLines literal chomp least {} margin

end TaggedSource.Yaml

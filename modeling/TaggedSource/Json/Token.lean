/-
The tokens of a JSON text. A text is cut into punctuation, strings,
numbers and names; blanks between them are dropped.

A string literal may spell escapes that pair up to no character (a lone
surrogate). Such a literal is a token all the same but denotes no text, so
the text of a string token is optional.
-/
import TaggedSource.Text

namespace TaggedSource.Json

/-- A token of a JSON text. -/
inductive Token where
  /-- `{` -/
  | openObject
  /-- `}` -/
  | closeObject
  /-- `[` -/
  | openArray
  /-- `]` -/
  | closeArray
  /-- `,` -/
  | comma
  /-- `:` -/
  | colon
  /-- A string and the text that it denotes. -/
  | string (value : Option Text)
  /-- A number, `true`, `false` or `null`. -/
  | atom
  deriving DecidableEq, Repr

-- =============================================================== strings

/-- The value of a hexadecimal digit. -/
def hexDigit? (c : Char) : Option Nat :=
  if '0' ≤ c ∧ c ≤ '9' then some (c.toNat - '0'.toNat)
  else if 'a' ≤ c ∧ c ≤ 'f' then some (c.toNat - 'a'.toNat + 10)
  else if 'A' ≤ c ∧ c ≤ 'F' then some (c.toNat - 'A'.toNat + 10)
  else none

/-- The number that four hexadecimal digits spell. -/
def hexUnit? (a b c d : Char) : Option Nat := do
  let a ← hexDigit? a
  let b ← hexDigit? b
  let c ← hexDigit? c
  let d ← hexDigit? d
  some (((a * 16 + b) * 16 + c) * 16 + d)

/-- A piece of a string literal. -/
inductive Piece where
  /-- A character that stands for itself or is named by a short escape. -/
  | char (c : Char)
  /-- A 16-bit unit that an escape gives by number. -/
  | unit (value : Nat)
  deriving DecidableEq, Repr

/-- The character that a short escape names. -/
def shortEscape? : Char → Option Char
  | '"' => some '"'
  | '\\' => some '\\'
  | '/' => some '/'
  | 'b' => some '\x08'
  | 'f' => some '\x0c'
  | 'n' => some '\n'
  | 'r' => some '\r'
  | 't' => some '\t'
  | _ => none

/-- Puts a piece in front of those of the rest of a literal. -/
def consPiece (piece : Piece) : Option (List Piece × Text) → Option (List Piece × Text)
  | some (pieces, rest) => some (piece :: pieces, rest)
  | none => none

/-- The pieces of a literal whose opening quote is taken off, and what
follows its closing quote. -/
def pieces? : Text → Option (List Piece × Text)
  | [] => none
  | '"' :: rest => some ([], rest)
  | '\\' :: 'u' :: a :: b :: c :: d :: rest =>
    match hexUnit? a b c d with
    | some value => consPiece (.unit value) (pieces? rest)
    | none => none
  | '\\' :: e :: rest =>
    match shortEscape? e with
    | some c => consPiece (.char c) (pieces? rest)
    | none => none
  | c :: rest => if c.toNat < 0x20 then none else consPiece (.char c) (pieces? rest)

/-- Whether a unit is the first of a pair. -/
def isHighUnit (n : Nat) : Bool := 0xD800 ≤ n && n ≤ 0xDBFF

/-- Whether a unit is the second of a pair. -/
def isLowUnit (n : Nat) : Bool := 0xDC00 ≤ n && n ≤ 0xDFFF

/-- The text that pieces denote: units pair up or stand for themselves. -/
def denote? : List Piece → Option Text
  | [] => some []
  | .char c :: rest => (denote? rest).map (c :: ·)
  | .unit n :: .unit m :: rest =>
    if isHighUnit n then
      if isLowUnit m then
        (denote? rest).map (Char.ofNat ((n - 0xD800) * 0x400 + (m - 0xDC00) + 0x10000) :: ·)
      else
        none
    else if isLowUnit n then none
    else (denote? (.unit m :: rest)).map (Char.ofNat n :: ·)
  | .unit n :: rest =>
    if isHighUnit n || isLowUnit n then none else (denote? rest).map (Char.ofNat n :: ·)

-- =============================================================== numbers

/-- Whether a character is an ASCII digit. -/
def isDigit (c : Char) : Bool := '0' ≤ c && c ≤ '9'

/-- Whether a text is a run of digits. -/
def isDigits (t : Text) : Bool := !t.isEmpty && t.all isDigit

/-- Whether a text is an exponent's number, its sign included. -/
def isSignedDigits : Text → Bool
  | '+' :: t => isDigits t
  | '-' :: t => isDigits t
  | t => isDigits t

/-- Whether a text is what may follow a number's integer part. -/
def isFraction : Text → Bool
  | [] => true
  | '.' :: t =>
    isDigits (t.takeWhile isDigit) &&
      match t.dropWhile isDigit with
      | [] => true
      | e :: exponent => (e = 'e' || e = 'E') && isSignedDigits exponent
  | e :: exponent => (e = 'e' || e = 'E') && isSignedDigits exponent

/-- Whether a text is a number without a sign. -/
def isUnsigned : Text → Bool
  | '0' :: t => isFraction t
  | t => isDigits (t.takeWhile isDigit) && isFraction (t.dropWhile isDigit)

/-- Whether a text is a number. -/
def isNumber : Text → Bool
  | '-' :: t => isUnsigned t
  | t => isUnsigned t

/-- Whether a character can stand in a number. -/
def isNumberChar (c : Char) : Bool :=
  isDigit c || c = '-' || c = '+' || c = '.' || c = 'e' || c = 'E'

-- =============================================================== scanning

/-- Whether a character separates tokens. -/
def isSeparator (c : Char) : Bool := c = ' ' || c = '\n' || c = '\t' || c = '\r'

/-- Whether a word is a name of the language. -/
def isName (t : Text) : Bool := t = text "null" || t = text "true" || t = text "false"

/-- The token that a punctuation character is. -/
def punctuation? : Char → Option Token
  | '{' => some .openObject
  | '}' => some .closeObject
  | '[' => some .openArray
  | ']' => some .closeArray
  | ',' => some .comma
  | ':' => some .colon
  | _ => none

/-- The first token of a text that begins with one, and the rest. -/
def token? (c : Char) (t : Text) : Option (Token × Text) :=
  if c = '"' then
    match pieces? t with
    | some (pieces, rest) => some (.string (denote? pieces), rest)
    | none => none
  else
    match punctuation? c with
    | some token => some (token, t)
    | none =>
      if c = '-' || isDigit c then
        if isNumber (c :: t.takeWhile isNumberChar) then
          some (.atom, t.dropWhile isNumberChar)
        else
          none
      else if isName (c :: t.takeWhile Char.isAlpha) then
        some (.atom, t.dropWhile Char.isAlpha)
      else
        none

/-- The tokens of a text. -/
def tokens? (t : Text) : Option (List Token) :=
  match t with
  | [] => some []
  | c :: rest =>
    if isSeparator c then
      tokens? rest
    else
      match token? c rest with
      | none => none
      | some (token, after) =>
        if after.length ≤ rest.length then (tokens? after).map (token :: ·) else none
termination_by t.length

end TaggedSource.Json

/-
Replacements. The right side of a substitution rule is a text, or a
directive `@Random(n)` that asks for a fresh identifier of `n` characters.
-/
import TaggedSource.Text.Blank
import TaggedSource.Text.Decimal

namespace TaggedSource

/-- A substitution rule as a profile states it. -/
structure Rule where
  /-- The text to look for. -/
  pattern : Text
  /-- What to put in its place, or a directive. -/
  replacement : Text
  deriving DecidableEq, Repr

/-- What a rule puts in the place of its pattern. -/
inductive Replacement where
  /-- A fixed text. -/
  | literal (value : Text)
  /-- A random identifier of the given length. -/
  | random (length : Nat)
  deriving DecidableEq, Repr

namespace Replacement

/-- What is wrong with a directive. -/
inductive Flaw where
  /-- The parenthesis is not closed. -/
  | unclosed
  /-- The length is no number. -/
  | notNumber
  /-- The length is zero. -/
  | zero
  /-- The length is above the limit. -/
  | tooLarge
  deriving DecidableEq, Repr

/-- The wording of a flaw. -/
def Flaw.message : Flaw → String
  | .unclosed => "missing closing parenthesis"
  | .notNumber => "length is not a positive integer"
  | .zero => "length must be at least 1"
  | .tooLarge => "length too large"

/-- What a directive begins with. -/
def directiveLead : Text := text "@Random("

/-- The greatest length that a directive may ask for. -/
def maxLength : Nat := 1024

/-- The text before a closing parenthesis that ends it. -/
def dropClosing? (t : Text) : Option Text :=
  if t.getLast? = some ')' then some t.dropLast else none

/-- The length that a directive asks for, given what follows its lead. -/
def length? (argument : Text) : Except Flaw Nat :=
  match dropClosing? argument with
  | none => .error .unclosed
  | some inner =>
    match Text.number? (Text.trim inner) with
    | none => .error .notNumber
    | some n =>
      if n = 0 then .error .zero
      else if maxLength < n then .error .tooLarge
      else .ok n

/-- Reads the right side of a rule. -/
def parse (value : Text) : Except Flaw Replacement :=
  match Text.dropLead? directiveLead value with
  | none => .ok (.literal value)
  | some argument => (length? argument).map .random

end Replacement

end TaggedSource

/-
Lines of a source: which ones are dropped, and what is edited in the
others. Empty patterns, tokens and pairs do nothing.
-/
import TaggedSource.Text.Lines

namespace TaggedSource

/-- A token and what it is replaced by. -/
structure TokenPair where
  /-- The token. -/
  old : Text
  /-- What is put in its place. -/
  new : Text
  deriving DecidableEq, Repr

namespace Line

/-- Whether a line holds one of the forbidden patterns. -/
def forbidden (patterns : List Text) (line : Text) : Bool :=
  patterns.any fun pattern => !pattern.isEmpty && Text.occursIn pattern line

/-- The lines that hold no forbidden pattern. -/
def dropForbidden (patterns : List Text) (lines : List Text) : List Text :=
  lines.filter fun line => !forbidden patterns line

/-- A line without a token: occurrences are deleted until none is left,
also those that a deletion brings about. -/
def removeToken (token line : Text) : Text :=
  if _h : token ≠ [] ∧ Text.occursIn token line = true then
    removeToken token (Text.replaceAll token [] line)
  else
    line
termination_by line.length
decreasing_by
  exact Text.replaceAll_length_lt (by simpa using List.length_pos_iff.2 _h.1) _h.2

/-- A line in which a token is replaced. -/
def replaceToken (pair : TokenPair) (line : Text) : Text :=
  Text.replaceAll pair.old pair.new line

/-- A line without the tokens to remove, and then with those to replace
replaced, each in its turn. -/
def edit (tokens : List Text) (pairs : List TokenPair) (line : Text) : Text :=
  pairs.foldl (fun line pair => replaceToken pair line)
    (tokens.foldl (fun line token => removeToken token line) line)

end Line

end TaggedSource

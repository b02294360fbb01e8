/-
Parenthesis groups that stripping emptied. A group that holds only blanks
and line ends is deleted, over and over, and an `if` whose condition is
`()` gets a sentinel condition.
-/
import TaggedSource.Text

namespace TaggedSource.Tidy

/-- What may stand in a group that is deleted. -/
def isGroupBlank (c : Char) : Bool := c = ' ' || c = '\r' || c = '\n'

/-- What follows a blank group whose opening parenthesis is taken off. -/
def afterBlanks? (seen : Bool) : Text → Option Text
  | [] => none
  | c :: t =>
    if isGroupBlank c then afterBlanks? true t
    else if c = ')' ∧ seen then some t
    else none

/-- What follows the blank group at the front of a text. -/
def afterGroup? : Text → Option Text
  | '(' :: t => afterBlanks? false t
  | _ => none

/-- What stands behind a group is shorter than the text. -/
private theorem length_of_afterBlanks? {seen : Bool} {t rest : Text}
    (h : afterBlanks? seen t = some rest) : rest.length < t.length := by
  induction t generalizing seen with
  | nil => simp [afterBlanks?] at h
  | cons c t ih =>
    simp only [afterBlanks?] at h
    split at h
    · exact Nat.lt_succ_of_lt (ih h)
    · split at h
      · simp_all
      · simp at h

/-- A group takes two characters at least. -/
private theorem length_of_afterGroup? {t rest : Text} (h : afterGroup? t = some rest) :
    rest.length + 1 < t.length := by
  unfold afterGroup? at h
  split at h
  · simpa using length_of_afterBlanks? h
  · simp at h

/-- Deletes the blank groups of a text from left to right, once. -/
def removeGroups (t : Text) : Text :=
  match t with
  | [] => []
  | c :: rest =>
    match _h : afterGroup? (c :: rest) with
    | some after => removeGroups after
    | none => c :: removeGroups rest
termination_by t.length
decreasing_by
  · have := length_of_afterGroup? ‹_›
    omega
  · simp

/-- Whether a text has a blank group. -/
def hasGroup : Text → Bool
  | [] => false
  | c :: t => (afterGroup? (c :: t)).isSome || hasGroup t

/-- Removing groups does not make a text longer. -/
theorem length_removeGroups_le (t : Text) : (removeGroups t).length ≤ t.length := by
  fun_induction removeGroups t with
  | case1 => exact Nat.le_refl _
  | case2 c rest after h ih =>
    have := length_of_afterGroup? h
    omega
  | case3 c rest h ih => simpa using ih

/-- A text with a blank group gets shorter. -/
theorem length_removeGroups_lt {t : Text} (h : hasGroup t = true) :
    (removeGroups t).length < t.length := by
  induction t with
  | nil => simp [hasGroup] at h
  | cons c t ih =>
    unfold removeGroups
    split
    next after hg =>
      have := length_of_afterGroup? hg
      have := length_removeGroups_le after
      omega
    next hg =>
      simp only [hasGroup, hg, Option.isSome_none, Bool.false_or] at h
      simpa using ih h

/-- Deletes blank groups until none is left. -/
def removeAllGroups (t : Text) : Text :=
  if _h : hasGroup t = true then removeAllGroups (removeGroups t) else t
termination_by t.length
decreasing_by exact length_removeGroups_lt ‹_›

-- ============================================================ conditions

/-- An `if` whose condition is empty. -/
def emptyIf : Text := text "if()"

/-- The same with a blank before the parentheses. -/
def emptyIfSpaced : Text := text "if ()"

/-- What an `if` with an empty condition becomes. -/
def guardedIf : Text := text "if (!_CE_) /*Piranhito?@*/ "

/-- Closes the gap between `if` and an empty condition. -/
def closeGaps (t : Text) : Text :=
  if _h : Text.occursIn emptyIfSpaced t = true then
    closeGaps (Text.replaceAll emptyIfSpaced emptyIf t)
  else
    t
termination_by t.length
decreasing_by exact Text.replaceAll_length_lt (by decide) ‹_›

/-- Deletes blank groups and gives empty conditions their sentinel. -/
def conditions (t : Text) : Text :=
  Text.replaceAll emptyIf guardedIf (closeGaps (removeAllGroups t))

end TaggedSource.Tidy

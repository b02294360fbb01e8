/-
Which lines go when blank lines are dropped.

A text has one line, or a first and a last one with lines between them
(`lines_cases`). Of those between, the ones with nothing but blanks go, and
all else stays (`blankLines_of_lines`). What is left is a text whose lines
are known (`splitLines_blankLines`), so that what a second round does, and
whether a round does anything, is told by the lines. Two line feeds in a row
would be an empty line between two others (`nil_mem_of_break_break`), and an
empty line is blank.
-/
import TaggedSource.Proofs.Lines

namespace TaggedSource

namespace Text

/-- The lines on both sides of a line feed are the lines of the text. -/
theorem splitLines_append (s t : Text) :
    splitLines (s ++ '\n' :: t) = splitLines s ++ splitLines t := by
  induction s with
  | nil => rfl
  | cons c s ih =>
      rw [List.cons_append, splitLines, splitLines, ih]
      split
      · rfl
      · cases hs : splitLines s with
        | nil => exact absurd hs (splitLines_ne_nil s)
        | cons line lines => rfl

/-- A text has one line, or a first and a last. -/
theorem lines_cases (t : Text) :
    splitLines t = [t] ∨ ∃ first inner last, splitLines t = first :: (inner ++ [last]) := by
  cases hlines : splitLines t with
  | nil => exact absurd hlines (splitLines_ne_nil t)
  | cons first lines =>
      by_cases hne : lines = []
      · have hjoin := joinLines_splitLines t
        rw [hlines, hne] at hjoin
        exact .inl (by rw [hne, ← hjoin]; rfl)
      · exact .inr ⟨first, lines.dropLast, lines.getLast hne, by rw [List.dropLast_concat_getLast hne]⟩

/-- Two line feeds in a row have an empty line between them. -/
theorem nil_mem_of_break_break {t first last : Text} {inner : List Text}
    (h : splitLines t = first :: (inner ++ [last])) (hbreaks : text "\n\n" <:+: t) : [] ∈ inner := by
  obtain ⟨front, back, rfl⟩ := hbreaks
  have hlines : splitLines (front ++ text "\n\n" ++ back)
      = splitLines front ++ [] :: splitLines back := by
    have htext : front ++ text "\n\n" ++ back = front ++ '\n' :: ([] ++ '\n' :: back) := by
      rw [List.append_assoc]
      rfl
    rw [htext, splitLines_append, splitLines_append]
    rfl
  have hinner : inner = (splitLines front ++ [] :: splitLines back).tail.dropLast := by
    rw [← hlines, h, List.tail_cons, List.dropLast_concat]
  rw [hinner, List.tail_append_of_ne_nil (splitLines_ne_nil front),
    List.dropLast_append_of_ne_nil (List.cons_ne_nil _ _),
    List.dropLast_cons_of_ne_nil (splitLines_ne_nil back)]
  exact List.mem_append_right _ (.head _)

end Text

namespace Tidy

/-- A line that holds something else than blanks. -/
def Inked (line : Text) : Prop := ∃ c ∈ line, c ≠ ' ' ∧ c ≠ '\t' ∧ c ≠ '\r'

theorem inked_iff {line : Text} : Inked line ↔ ∃ c ∈ line, isLineBlank c = false := by
  simp [Inked, isLineBlank, and_assoc]

private theorem inked_iff_not_all {line : Text} : Inked line ↔ (!line.all isLineBlank) = true := by
  rw [inked_iff, Bool.not_eq_true', List.all_eq_false]
  simp only [Bool.not_eq_true]

instance (line : Text) : Decidable (Inked line) := decidable_of_iff _ inked_iff_not_all.symm

section
variable {t first last : Text} {inner : List Text} (h : Text.splitLines t = first :: (inner ++ [last]))
include h

/-- Between the first line and the last, those that are blank go. -/
theorem blankLines_of_lines :
    blankLines t = Text.joinLines (first :: (inner.filter (Inked ·) ++ [last])) := by
  have hinked : (fun line : Text => !line.all isLineBlank) = fun line => decide (Inked line) := by
    funext line
    rw [Bool.eq_iff_iff, decide_eq_true_iff, inked_iff_not_all]
  rw [blankLines_eq, h, dropInner, dropBlank_concat, hinked]

/-- Of the inner lines, those with ink are left. -/
private theorem splitLines_blankLines :
    Text.splitLines (blankLines t) = first :: (inner.filter (Inked ·) ++ [last]) := by
  rw [blankLines_of_lines h]
  refine Text.splitLines_joinLines (List.cons_ne_nil _ _) fun line hline => ?_
  have hsub : (first :: (inner.filter (Inked ·) ++ [last])).Sublist (Text.splitLines t) := by
    rw [h]
    exact (List.filter_sublist.append (.refl _)).cons_cons first
  exact Text.no_break_of_mem_splitLines (hsub.subset hline)

/-- Nothing changes exactly if all inner lines have ink. -/
theorem blankLines_eq_self_iff : blankLines t = t ↔ ∀ line ∈ inner, Inked line := by
  have hfilter : inner.filter (Inked ·) = inner ↔ ∀ line ∈ inner, Inked line := by
    rw [List.filter_eq_self]
    simp only [decide_eq_true_iff]
  rw [← hfilter]
  constructor
  · intro heq
    have hlines := splitLines_blankLines h
    rw [heq, h] at hlines
    exact (List.append_inj' (List.cons.inj hlines).2 rfl).1.symm
  · intro hsame
    rw [blankLines_of_lines h, hsame, ← h, Text.joinLines_splitLines]

/-- No two breaks are left side by side. -/
private theorem break_break_not_isInfix : ¬ text "\n\n" <:+: blankLines t := by
  intro hbreaks
  have hempty := Text.nil_mem_of_break_break (splitLines_blankLines h) hbreaks
  obtain ⟨c, hmem, -⟩ := of_decide_eq_true (List.mem_filter.1 hempty).2
  exact absurd hmem List.not_mem_nil

end

theorem blankLines_of_line {t line : Text} (h : Text.splitLines t = [line]) : blankLines t = t := by
  have hdrop : dropInner (Text.splitLines t) = Text.splitLines t := by
    rw [h]
    rfl
  rw [blankLines_eq, hdrop, Text.joinLines_splitLines]

/-- A text of one line stays as it is. Of any other the first line and the
last stay, and those between them that are not blank. So no two line feeds
are left in a row, a second round changes nothing, and the first one does
not either exactly if no line between the first and the last is blank. -/
theorem only_blank_inner_lines_dropped (t : Text) :
    let out := blankLines t
    (∀ only, Text.splitLines t = [only] → out = t) ∧
    (∀ first inner last, Text.splitLines t = first :: (inner ++ [last]) →
      out = Text.joinLines (first :: (inner.filter (Inked ·) ++ [last])) ∧
      (out = t ↔ ∀ line ∈ inner, Inked line)) ∧
    ¬ text "\n\n" <:+: out ∧ blankLines out = out := by
  intro out
  refine ⟨fun only => blankLines_of_line,
    fun first inner last h => ⟨blankLines_of_lines h, blankLines_eq_self_iff h⟩, ?_⟩
  rcases Text.lines_cases t with h | ⟨first, inner, last, h⟩
  · have hout : out = t := blankLines_of_line h
    rw [hout]
    refine ⟨fun hbreaks => ?_, hout⟩
    have hmem : t ∈ Text.splitLines t := by
      rw [h]
      exact .head _
    exact Text.no_break_of_mem_splitLines hmem (hbreaks.subset (.head _))
  · refine ⟨break_break_not_isInfix h, (blankLines_eq_self_iff (splitLines_blankLines h)).2 ?_⟩
    exact fun line hline => of_decide_eq_true (List.mem_filter.1 hline).2

end Tidy

end TaggedSource

/-
Texts cut at a character, and texts as lines.

A search never reaches across a character that the pattern lacks. So the
text on either side of such a character is searched, and edited, by itself
(`cut?_append_cons`, `replaceAll_append_cons`, `removeToken_append_cons`).
With the line feed for the character this says that a pattern without one
occurs in a text exactly if it occurs in a line of it (`occursIn_joinLines`).
A pattern that begins with a character it does not hold again is gone once it
is replaced by another one of this kind (`not_occursIn_replaceAll`).

Dropping the forbidden lines is keeping the allowed ones
(`dropForbidden_eq`), and emptying the blank lines between the first and
the last and squeezing the line feeds is dropping these lines
(`blankLines_eq`).
-/
import TaggedSource.Line
import TaggedSource.Proofs.Search
import TaggedSource.Tidy.BlankLines

namespace TaggedSource

namespace Text

-- ============================================== a character that is missing

section
variable {pattern : Text} {c : Char} (hc : c ∉ pattern)
include hc

/-- A pattern without `c` cannot reach past a `c`. -/
private theorem dropLead?_append_cons (l r : Text) (hne : pattern ≠ []) :
    dropLead? pattern (l ++ c :: r) = (dropLead? pattern l).map (· ++ c :: r) := by
  induction pattern generalizing l with
  | nil => exact absurd rfl hne
  | cons d pattern ih =>
      obtain ⟨hd, hc⟩ : c ≠ d ∧ c ∉ pattern := by simpa using hc
      cases l with
      | nil => simp [dropLead?, Ne.symm hd]
      | cons e l =>
          by_cases he : d = e
          · cases pattern with
            | nil => simp [dropLead?, he]
            | cons f pattern =>
                simpa [dropLead?, he] using ih hc l (List.cons_ne_nil f pattern)
          · simp [dropLead?, he]

theorem not_lead_cons (hne : pattern ≠ []) (t : Text) : ¬ pattern <+: c :: t := by
  intro hlead
  rcases List.prefix_cons_iff.1 hlead with hnil | ⟨rest, hrest, -⟩
  · exact hne hnil
  · exact hc (hrest ▸ List.mem_cons_self)

/-- A search goes through what stands before the character and then, from
the start, through what stands behind it. -/
theorem cut?_append_cons (hne : pattern ≠ []) (l r : Text) :
    cut? pattern (l ++ c :: r) =
      match cut? pattern l with
      | some (before, after) => some (before, after ++ c :: r)
      | none => (cut? pattern r).map fun (before, after) => (l ++ c :: before, after) := by
  induction l with
  | nil =>
      rw [List.nil_append, cut?_cons_of_not_lead (not_lead_cons hc hne r), cut?_nil hne]
      rfl
  | cons d l ih =>
      have hdrop := dropLead?_append_cons hc (d :: l) r hne
      rw [List.cons_append] at hdrop ⊢
      rw [cut?, cut?, hdrop, ih]
      cases dropLead? pattern (d :: l) with
      | some rest => rfl
      | none =>
          cases cut? pattern l with
          | some parts => rfl
          | none => cases cut? pattern r <;> rfl

/-- A pattern without `c` occurs on one side of a `c` or on the other. -/
theorem occursIn_append_cons (hne : pattern ≠ []) (l r : Text) :
    occursIn pattern (l ++ c :: r) = (occursIn pattern l || occursIn pattern r) := by
  rw [occursIn, cut?_append_cons hc hne, occursIn, occursIn]
  cases cut? pattern l with
  | some parts => rfl
  | none => cases cut? pattern r <;> rfl

omit hc in
/-- Replacing goes on behind the first occurrence. -/
theorem replaceAll_of_cut? {replacement t before after : Text} (hne : pattern ≠ [])
    (h : cut? pattern t = some (before, after)) :
    replaceAll pattern replacement t
      = before ++ replacement ++ replaceAll pattern replacement after := by
  rw [replaceAll]
  split
  · next hnone => rw [h] at hnone; cases hnone
  · next before' after' hsome =>
    rw [h] at hsome
    cases hsome
    rw [if_neg (by simpa using hne)]

omit hc in
theorem replaceAll_of_cut?_none {replacement t : Text} (h : cut? pattern t = none) :
    replaceAll pattern replacement t = t :=
  replaceAll_of_not_occursIn (by rw [occursIn, h]; rfl)

omit hc in
/-- The empty pattern is replaced nowhere. -/
theorem replaceAll_nil_left (replacement t : Text) : replaceAll [] replacement t = t := by
  rw [replaceAll]
  split <;> rfl

omit hc in
theorem replaceAll_nil_right (pattern replacement : Text) :
    replaceAll pattern replacement [] = [] := by
  by_cases hne : pattern = []
  · rw [hne, replaceAll_nil_left]
  · exact replaceAll_of_cut?_none (cut?_nil hne)

/-- Both sides of the character are edited by themselves. The recursion is
that of the replacement on the left side. -/
theorem replaceAll_append_cons (replacement l r : Text) :
    replaceAll pattern replacement (l ++ c :: r)
      = replaceAll pattern replacement l ++ c :: replaceAll pattern replacement r := by
  by_cases hne : pattern = []
  · simp only [hne, replaceAll_nil_left]
  · cases hleft : cut? pattern l with
    | some parts =>
        obtain ⟨before, after⟩ := parts
        have hcut : cut? pattern (l ++ c :: r) = some (before, after ++ c :: r) := by
          rw [cut?_append_cons hc hne, hleft]
        have hlength := length_of_cut? hleft
        have hpos := List.length_pos_iff.2 hne
        rw [replaceAll_of_cut? hne hcut, replaceAll_of_cut? hne hleft,
          replaceAll_append_cons replacement after r]
        simp only [List.append_assoc]
    | none =>
        have hcut := cut?_append_cons hc hne l r
        rw [hleft] at hcut
        rw [replaceAll_of_cut?_none hleft]
        cases hright : cut? pattern r with
        | none =>
            rw [hright] at hcut
            rw [replaceAll_of_cut?_none hcut, replaceAll_of_cut?_none hright]
        | some parts =>
            rw [hright] at hcut
            rw [replaceAll_of_cut? hne hcut, replaceAll_of_cut? hne hright]
            simp only [List.append_assoc, List.cons_append]
termination_by l.length

end

/-- A replacement brings in no other characters than its own. -/
theorem not_mem_replaceAll {c : Char} {pattern replacement t : Text} (ht : c ∉ t)
    (hreplacement : c ∉ replacement) : c ∉ replaceAll pattern replacement t := by
  fun_induction replaceAll pattern replacement t with
  | case1 => exact ht
  | case2 => exact ht
  | case3 t before after hcut hne ih =>
      rw [eq_of_cut? hcut] at ht
      simp only [List.mem_append, not_or] at ht ⊢
      exact ⟨⟨ht.1.1, hreplacement⟩, ih ht.2⟩

-- ====================================================== replaced for good

/-- A lead without a character ends before the character. -/
theorem isPrefix_of_append_cons {p s t : Text} {c : Char} (hc : c ∉ p) (h : p <+: s ++ c :: t) :
    p <+: s := by
  by_cases hne : p = []
  · rw [hne]
    exact List.nil_prefix
  · obtain ⟨rest, hrest⟩ := h
    have hdrop := dropLead?_eq_some.2 hrest.symm
    rw [dropLead?_append_cons hc s t hne, Option.map_eq_some_iff] at hdrop
    obtain ⟨u, hu, -⟩ := hdrop
    exact ⟨u, (dropLead?_eq_some.1 hu).symm⟩

section
variable {c : Char} {p q : Text} (hp : c ∉ p) (hq : c ∉ q) (hpq : ¬ c :: p <+: c :: q)
  (hqp : ¬ c :: q <+: c :: p)
include hp hq hpq hqp

/-- A pattern does not begin in its replacement, nor before it and reach
into it. -/
theorem not_lead_of_replaced {before rest : Text}
    (hbefore : ∀ s, s <:+ before → s ≠ [] → ¬ c :: p <+: s) :
    ∀ s, s <:+ before ++ c :: q → s ≠ [] → ¬ c :: p <+: s ++ rest := by
  intro s hs hne hlead
  have hsame : ¬ c :: p <+: c :: q ++ rest := by
    intro h
    rcases List.prefix_or_prefix_of_prefix h (List.prefix_append (c :: q) rest) with h | h
    · exact hpq h
    · exact hqp h
  rcases List.suffix_or_suffix_of_suffix hs (List.suffix_append before (c :: q)) with
    hin | ⟨s', rfl⟩
  · -- it would begin in the replacement, with the character
    rcases List.suffix_cons_iff.1 hin with rfl | hin
    · exact hsame hlead
    · cases s with
      | nil => exact hne rfl
      | cons d s =>
          obtain ⟨rfl, -⟩ := List.cons_prefix_cons.1 hlead
          exact hq (hin.subset (.head _))
  · -- it would begin before the replacement, and has to end there
    cases s' with
    | nil => exact hsame hlead
    | cons d s' =>
        rw [List.append_assoc, List.cons_append, List.cons_append] at hlead
        obtain ⟨hd, htail⟩ := List.cons_prefix_cons.1 hlead
        have hs' : d :: s' <:+ before := by
          obtain ⟨front, hfront⟩ := hs
          exact ⟨front, List.append_cancel_right ((List.append_assoc front _ _).trans hfront)⟩
        exact hbefore (d :: s') hs' (List.cons_ne_nil d s')
          (List.cons_prefix_cons.2 ⟨hd, isPrefix_of_append_cons hp htail⟩)

/-- Where a pattern is replaced by a text that begins with the same
character and then differs, and neither has the character again, it does
not occur any more. -/
theorem not_occursIn_replaceAll (t : Text) :
    occursIn (c :: p) (replaceAll (c :: p) (c :: q) t) = false := by
  fun_induction replaceAll (c :: p) (c :: q) t with
  | case1 t hcut =>
      rw [occursIn, hcut]
      rfl
  | case2 t _ _ _ hempty => cases hempty
  | case3 t before after hcut _ ih =>
      have hbefore (s : Text) (hs : s <:+ before) (hne : s ≠ []) : ¬ c :: p <+: s := fun hlead =>
        not_lead_of_cut? hcut s hs hne (hlead.trans (List.prefix_append s _))
      rw [occursIn, cut?_append_of_skip (not_lead_of_replaced hp hq hpq hqp hbefore),
        Option.isSome_map]
      exact ih

end

-- ================================================================== lines

/-- What stands before the first break is the first line. -/
theorem splitLines_append_break {line : Text} (h : '\n' ∉ line) (t : Text) :
    splitLines (line ++ '\n' :: t) = line :: splitLines t := by
  induction line with
  | nil => rfl
  | cons c line ih =>
      obtain ⟨hc, hline⟩ : '\n' ≠ c ∧ '\n' ∉ line := by simpa using h
      rw [List.cons_append, splitLines, if_neg (Ne.symm hc), ih hline]
      rfl

private theorem splitLines_of_no_break {line : Text} (h : '\n' ∉ line) :
    splitLines line = [line] := by
  induction line with
  | nil => rfl
  | cons c line ih =>
      obtain ⟨hc, hline⟩ : '\n' ≠ c ∧ '\n' ∉ line := by simpa using h
      rw [splitLines, if_neg (Ne.symm hc), ih hline]
      rfl

/-- No line holds a line feed. -/
theorem no_break_of_mem_splitLines {t line : Text} (h : line ∈ splitLines t) : '\n' ∉ line := by
  induction t generalizing line with
  | nil =>
      obtain rfl : line = [] := by simpa [splitLines] using h
      exact List.not_mem_nil
  | cons c t ih =>
      rw [splitLines] at h
      split at h
      · rcases List.mem_cons.1 h with rfl | hmem
        · exact List.not_mem_nil
        · exact ih hmem
      · next hc =>
        cases hlines : splitLines t with
        | nil => exact absurd hlines (splitLines_ne_nil t)
        | cons first lines =>
            rw [hlines] at h ih
            rcases List.mem_cons.1 h with rfl | hmem
            · exact List.not_mem_cons_of_ne_of_not_mem (Ne.symm hc) (ih (.head _))
            · exact ih (.tail _ hmem)

theorem joinLines_cons {lines : List Text} (line : Text) (h : lines ≠ []) :
    joinLines (line :: lines) = line ++ '\n' :: joinLines lines := by
  cases lines with
  | nil => exact absurd rfl h
  | cons next lines => rfl

/-- Lines that are joined are the lines of the text. -/
theorem splitLines_joinLines {lines : List Text} (hne : lines ≠ [])
    (h : ∀ line ∈ lines, '\n' ∉ line) : splitLines (joinLines lines) = lines := by
  induction lines with
  | nil => exact absurd rfl hne
  | cons line lines ih =>
      obtain ⟨hline, hlines⟩ := List.forall_mem_cons.1 h
      cases lines with
      | nil => exact splitLines_of_no_break hline
      | cons next lines =>
          rw [joinLines_cons line (List.cons_ne_nil next lines), splitLines_append_break hline,
            ih (List.cons_ne_nil next lines) hlines]

/-- Joining brings no line about but the empty one, where there is none to
join. -/
theorem mem_or_eq_nil_of_mem_splitLines {lines : List Text} (h : ∀ line ∈ lines, '\n' ∉ line)
    {line : Text} (hmem : line ∈ splitLines (joinLines lines)) : line ∈ lines ∨ line = [] := by
  by_cases hne : lines = []
  · subst hne
    exact .inr (List.mem_singleton.1 hmem)
  · rw [splitLines_joinLines hne h] at hmem
    exact .inl hmem

/-- A pattern without a line feed occurs in lines if it occurs in one. -/
theorem occursIn_joinLines {pattern : Text} (hne : pattern ≠ []) (hbreak : '\n' ∉ pattern)
    (lines : List Text) : occursIn pattern (joinLines lines) = lines.any (occursIn pattern) := by
  induction lines with
  | nil => simp [joinLines, occursIn, cut?_nil hne]
  | cons line lines ih =>
      cases lines with
      | nil => simp [joinLines]
      | cons next lines =>
          rw [joinLines_cons line (List.cons_ne_nil next lines), occursIn_append_cons hbreak hne,
            List.any_cons, ih]

end Text

-- ======================================================= edits of one line

namespace Line

/-- The loop ends when the token is gone. -/
theorem removeToken_of_not_occursIn {token line : Text}
    (h : Text.occursIn token line = false) : removeToken token line = line := by
  rw [removeToken, dif_neg (by simp [h])]

/-- As long as the token occurs, it is deleted throughout. -/
theorem removeToken_of_occursIn {token line : Text} (hne : token ≠ [])
    (h : Text.occursIn token line = true) :
    removeToken token line = removeToken token (Text.replaceAll token [] line) := by
  rw [removeToken, dif_pos ⟨hne, h⟩]

/-- The empty token is skipped. -/
theorem removeToken_nil (line : Text) : removeToken [] line = line := by
  rw [removeToken, dif_neg (by simp)]

/-- Deleting the occurrences once is a part of deleting them until none is
left. -/
theorem removeToken_replaceAll {token : Text} (hne : token ≠ []) (line : Text) :
    removeToken token (Text.replaceAll token [] line) = removeToken token line := by
  cases h : Text.occursIn token line with
  | true => rw [← removeToken_of_occursIn hne h]
  | false => rw [Text.replaceAll_of_not_occursIn h]

/-- A token is deleted on both sides of a character that it lacks. The
recursion is that of the deletion on the whole. -/
theorem removeToken_append_cons {token : Text} {c : Char} (hc : c ∉ token) (l r : Text) :
    removeToken token (l ++ c :: r) = removeToken token l ++ c :: removeToken token r := by
  by_cases hne : token = []
  · simp only [hne, removeToken_nil]
  · have hoccurs := Text.occursIn_append_cons hc hne l r
    cases h : Text.occursIn token (l ++ c :: r) with
    | true =>
        have hshorter : (Text.replaceAll token [] l ++ c :: Text.replaceAll token [] r).length
            < (l ++ c :: r).length := by
          rw [← Text.replaceAll_append_cons hc]
          exact Text.replaceAll_length_lt (List.length_pos_iff.2 hne) h
        rw [removeToken_of_occursIn hne h, Text.replaceAll_append_cons hc,
          removeToken_append_cons hc (Text.replaceAll token [] l) (Text.replaceAll token [] r),
          removeToken_replaceAll hne, removeToken_replaceAll hne]
    | false =>
        rw [h] at hoccurs
        obtain ⟨hl, hr⟩ := Bool.or_eq_false_iff.1 hoccurs.symm
        rw [removeToken_of_not_occursIn h, removeToken_of_not_occursIn hl,
          removeToken_of_not_occursIn hr]
termination_by (l ++ c :: r).length
decreasing_by exact hshorter

private theorem removeToken_nil_right (token : Text) : removeToken token [] = [] := by
  by_cases hne : token = []
  · rw [hne, removeToken_nil]
  · exact removeToken_of_not_occursIn (by rw [Text.occursIn, Text.cut?_nil hne]; rfl)

private theorem not_mem_removeToken {c : Char} {token line : Text} (h : c ∉ line) :
    c ∉ removeToken token line := by
  fun_induction removeToken token line with
  | case1 line _ ih => exact ih (Text.not_mem_replaceAll h List.not_mem_nil)
  | case2 => exact h

theorem edit_nil_right (tokens : List Text) (pairs : List TokenPair) :
    edit tokens pairs [] = [] := by
  have htokens : tokens.foldl (fun line token => removeToken token line) [] = [] := by
    induction tokens with
    | nil => rfl
    | cons token tokens ih => rw [List.foldl_cons, removeToken_nil_right, ih]
  rw [edit, htokens]
  induction pairs with
  | nil => rfl
  | cons pair pairs ih => rw [List.foldl_cons, replaceToken, Text.replaceAll_nil_right, ih]

/-- Edits bring in no other characters than those of the replacements. -/
theorem not_mem_edit {tokens : List Text} {pairs : List TokenPair} {c : Char} {line : Text}
    (hpairs : ∀ pair ∈ pairs, c ∉ pair.new) (h : c ∉ line) : c ∉ edit tokens pairs line := by
  have htokens : c ∉ tokens.foldl (fun line token => removeToken token line) line := by
    induction tokens generalizing line with
    | nil => exact h
    | cons token tokens ih => exact ih (not_mem_removeToken h)
  rw [edit]
  generalize tokens.foldl (fun line token => removeToken token line) line = l at htokens
  induction pairs generalizing l with
  | nil => exact htokens
  | cons pair pairs ih =>
      obtain ⟨hpair, hpairs⟩ := List.forall_mem_cons.1 hpairs
      exact ih hpairs _ (Text.not_mem_replaceAll htokens hpair)

/-- Both sides of a character that no token has are edited by themselves. -/
theorem edit_append_cons {tokens : List Text} {pairs : List TokenPair} {c : Char}
    (htokens : ∀ token ∈ tokens, c ∉ token) (hpairs : ∀ pair ∈ pairs, c ∉ pair.old)
    (l r : Text) :
    edit tokens pairs (l ++ c :: r) = edit tokens pairs l ++ c :: edit tokens pairs r := by
  induction tokens generalizing l r with
  | cons token tokens ih =>
      obtain ⟨htoken, htokens⟩ := List.forall_mem_cons.1 htokens
      simp only [edit, List.foldl_cons] at ih ⊢
      rw [removeToken_append_cons htoken, ih htokens]
  | nil =>
      simp only [edit, List.foldl_nil]
      induction pairs generalizing l r with
      | nil => rfl
      | cons pair pairs ih =>
          obtain ⟨hpair, hpairs⟩ := List.forall_mem_cons.1 hpairs
          simp only [List.foldl_cons, replaceToken]
          rw [Text.replaceAll_append_cons hpair]
          exact ih hpairs _ _

/-- No pattern is found in the empty line. -/
theorem forbidden_nil (patterns : List Text) : forbidden patterns [] = false := by
  rw [forbidden, List.any_eq_false]
  intro pattern _
  cases pattern with
  | nil => simp
  | cons c pattern => simp [Text.occursIn, Text.cut?_nil (List.cons_ne_nil c pattern)]

/-- Patterns are found on either side of a character that none has. -/
theorem forbidden_append_cons {patterns : List Text} {c : Char}
    (h : ∀ pattern ∈ patterns, c ∉ pattern) (l r : Text) :
    forbidden patterns (l ++ c :: r) = (forbidden patterns l || forbidden patterns r) := by
  induction patterns with
  | nil => rfl
  | cons pattern patterns ih =>
      obtain ⟨hpattern, hpatterns⟩ := List.forall_mem_cons.1 h
      simp only [forbidden, List.any_cons] at ih ⊢
      rw [ih hpatterns]
      cases pattern with
      | nil => rfl
      | cons d pattern =>
          rw [Text.occursIn_append_cons hpattern (List.cons_ne_nil d pattern)]
          simp only [List.isEmpty_cons, Bool.not_false, Bool.true_and]
          ac_rfl

/-- A line that holds none of the patterns; the empty pattern does not
count. -/
def Allowed (patterns : List Text) (line : Text) : Prop :=
  ∀ pattern ∈ patterns, pattern ≠ [] → ¬ pattern <:+: line

private theorem forbidden_eq_false_iff {patterns : List Text} {line : Text} :
    forbidden patterns line = false ↔ Allowed patterns line := by
  rw [forbidden, List.any_eq_false]
  refine forall₂_congr fun pattern _ => ?_
  rw [Bool.and_eq_true, Text.occursIn_iff, not_and, Bool.not_eq_true', List.isEmpty_eq_false_iff]

instance (patterns : List Text) (line : Text) : Decidable (Allowed patterns line) :=
  decidable_of_iff _ forbidden_eq_false_iff

/-- An empty line is never forbidden. -/
theorem allowed_nil (patterns : List Text) : Allowed patterns [] :=
  forbidden_eq_false_iff.1 (forbidden_nil patterns)

/-- The lines that are kept are the allowed ones, in their order. -/
theorem dropForbidden_eq (patterns lines : List Text) :
    dropForbidden patterns lines = lines.filter fun line => Allowed patterns line := by
  unfold dropForbidden
  refine List.filter_congr fun line _ => ?_
  rw [Bool.eq_iff_iff, Bool.not_eq_true', forbidden_eq_false_iff, decide_eq_true_iff]

end Line

-- ============================================================= blank lines

namespace Tidy

/-- Drops the blank lines of a list, its last line excepted. -/
def dropBlank : List Text → List Text
  | [] => []
  | [last] => [last]
  | line :: lines => if line.all isLineBlank then dropBlank lines else line :: dropBlank lines

/-- Drops the blank lines between the first and the last. -/
def dropInner : List Text → List Text
  | [] => []
  | first :: lines => first :: dropBlank lines

/-- All blank lines are dropped but the last line, which is kept. -/
theorem dropBlank_concat (lines : List Text) (last : Text) :
    dropBlank (lines ++ [last]) = (lines.filter fun line => !line.all isLineBlank) ++ [last] := by
  induction lines with
  | nil => rfl
  | cons line lines ih =>
      have hcons : dropBlank (line :: (lines ++ [last])) =
          if line.all isLineBlank then dropBlank (lines ++ [last])
          else line :: dropBlank (lines ++ [last]) := by
        cases lines <;> rfl
      rw [List.cons_append, hcons, ih, List.filter_cons]
      cases line.all isLineBlank <;> rfl

private theorem dropBlank_ne_nil {lines : List Text} (h : lines ≠ []) : dropBlank lines ≠ [] := by
  rw [← List.dropLast_concat_getLast h, dropBlank_concat]
  simp

/-- Clearing blank lines leaves one at least. -/
private theorem clearBlank_ne_nil {lines : List Text} (h : lines ≠ []) : clearBlank lines ≠ [] := by
  cases lines with
  | nil => exact absurd rfl h
  | cons line lines => cases lines <;> simp [clearBlank]

/-- Dropping lines brings in none. -/
theorem dropInner_sublist (lines : List Text) : (dropInner lines).Sublist lines := by
  cases lines with
  | nil => exact .slnil
  | cons first lines =>
      refine .cons_cons first ?_
      by_cases h : lines = []
      · rw [h]
        exact .slnil
      · rw [← List.dropLast_concat_getLast h, dropBlank_concat]
        exact List.filter_sublist.append (.refl _)

/-- Squeezing line feeds passes over a line. -/
theorem squeezeBreaks_append {line : Text} (h : '\n' ∉ line) (t : Text) :
    squeezeBreaks (line ++ t) = line ++ squeezeBreaks t := by
  induction line with
  | nil => rfl
  | cons c line ih =>
      obtain ⟨hc, hline⟩ : '\n' ≠ c ∧ '\n' ∉ line := by simpa using h
      rw [List.cons_append, squeezeBreaks, ih hline]
      · rfl
      · rintro u heq -
        exact hc heq.symm

private theorem squeezeBreaks_break {c : Char} (hc : c ≠ '\n') (t : Text) :
    squeezeBreaks ('\n' :: c :: t) = '\n' :: squeezeBreaks (c :: t) := by
  rw [squeezeBreaks]
  intro u _ heq
  exact hc (List.cons.inj heq).1

/-- Behind a line feed, cleared lines squeeze to what is left of them when
the blank ones are dropped. -/
theorem squeezeBreaks_clearBlank {lines : List Text} (hne : lines ≠ [])
    (h : ∀ line ∈ lines, '\n' ∉ line) :
    squeezeBreaks ('\n' :: Text.joinLines (clearBlank lines))
      = '\n' :: Text.joinLines (dropBlank lines) := by
  -- a line that is not empty ends a run of line feeds
  have hline (c : Char) (line t : Text) (hbreak : '\n' ∉ c :: line) :
      squeezeBreaks ('\n' :: (c :: line ++ t)) = '\n' :: (c :: line ++ squeezeBreaks t) := by
    rw [List.cons_append, squeezeBreaks_break (fun hc => hbreak (hc ▸ .head _)),
      ← List.cons_append, squeezeBreaks_append hbreak]
  induction lines with
  | nil => exact absurd rfl hne
  | cons line lines ih =>
      obtain ⟨hbreak, hlines⟩ := List.forall_mem_cons.1 h
      cases lines with
      | nil =>
          cases line with
          | nil => rfl
          | cons c line =>
              have := hline c line [] hbreak
              simpa [clearBlank, dropBlank, Text.joinLines, squeezeBreaks] using this
      | cons next lines =>
          have ih := ih (List.cons_ne_nil next lines) hlines
          have hclear := clearBlank_ne_nil (List.cons_ne_nil next lines)
          have hdrop := dropBlank_ne_nil (List.cons_ne_nil next lines)
          rw [clearBlank, dropBlank, Text.joinLines_cons _ hclear]
          · cases hblank : line.all isLineBlank with
            | true => simpa [squeezeBreaks] using ih
            | false =>
                cases line with
                | nil => cases hblank
                | cons c line =>
                    simp only [Bool.false_eq_true, if_false]
                    rw [hline c line _ hbreak, ih, Text.joinLines_cons _ hdrop]
          · simp
          · simp

/-- The blank lines between the first and the last are dropped. -/
theorem blankLines_eq (t : Text) :
    blankLines t = Text.joinLines (dropInner (Text.splitLines t)) := by
  rw [blankLines]
  cases hlines : Text.splitLines t with
  | nil => exact absurd hlines (Text.splitLines_ne_nil t)
  | cons first lines =>
      have hbreak (line : Text) (hmem : line ∈ first :: lines) : '\n' ∉ line :=
        Text.no_break_of_mem_splitLines (hlines ▸ hmem)
      obtain ⟨hfirst, hrest⟩ := List.forall_mem_cons.1 hbreak
      rw [clearInner, dropInner]
      by_cases hne : lines = []
      · subst hne
        simpa [clearBlank, dropBlank, Text.joinLines, squeezeBreaks] using
          squeezeBreaks_append hfirst []
      · rw [Text.joinLines_cons first (clearBlank_ne_nil hne), squeezeBreaks_append hfirst,
          squeezeBreaks_clearBlank hne hrest, Text.joinLines_cons first (dropBlank_ne_nil hne)]

/-- Dropping lines brings no pattern about. -/
theorem occursIn_blankLines {pattern t : Text} (hne : pattern ≠ []) (hbreak : '\n' ∉ pattern)
    (h : Text.occursIn pattern t = false) : Text.occursIn pattern (blankLines t) = false := by
  rw [← Text.joinLines_splitLines t, Text.occursIn_joinLines hne hbreak, List.any_eq_false] at h
  rw [blankLines_eq, Text.occursIn_joinLines hne hbreak, List.any_eq_false]
  exact fun line hmem => h line ((dropInner_sublist _).subset hmem)

end Tidy

end TaggedSource

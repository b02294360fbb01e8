/-
Line endings: texts whose lines end in a carriage return and a line feed.

A pass does to such a text what it does to the one with bare line feeds
(`run_crlf`), provided that no text of the profile holds either character
and that every line is ended. The stages see the carriage return in three
different ways. A search skips it like any character that the pattern
lacks, so stripping and substituting commute with `crlf` on all texts. A
blank group may hold it along with the line feed, so deleting groups does
too. For the edits of lines, though, it is the last character of each line
but the last, and a last line of its own could be dropped and leave the
return of the one before at the end. So it is carried along that lines stay
ended (`Ended`), and a text of ended lines is given by the lines
(`ofLines`).
-/
import TaggedSource.Proofs.Conditions
import TaggedSource.Proofs.Drawing
import TaggedSource.Proofs.Lines
import TaggedSource.Proofs.Reduction

namespace TaggedSource

-- ====================================================== the vocabulary

namespace Text

/-- A text with a carriage return put before every line feed. -/
def crlf : Text → Text
  | [] => []
  | c :: t => if c = '\n' then '\r' :: '\n' :: crlf t else c :: crlf t

/-- A text without either character of a line ending. -/
def Unbroken (t : Text) : Prop := '\r' ∉ t ∧ '\n' ∉ t

instance (t : Text) : Decidable t.Unbroken := inferInstanceAs (Decidable (_ ∧ _))

/-- A text each of whose lines is ended. -/
def Ended (t : Text) : Prop := t = [] ∨ t.getLast? = some '\n'

instance (t : Text) : Decidable t.Ended := inferInstanceAs (Decidable (_ ∨ _))

/-- The text of some lines, each of which is ended. -/
def ofLines (lines : List Text) : Text := lines.flatMap (· ++ ['\n'])

end Text

/-- A rule that neither looks for a line ending nor puts one in. -/
def Rule.Unbroken (rule : Rule) : Prop :=
  rule.pattern.Unbroken ∧
    ∀ value, Replacement.parse rule.replacement = .ok (.literal value) → value.Unbroken

/-- A profile none of whose texts holds a line ending. -/
structure Profile.Unbroken (profile : Profile) : Prop where
  features : ∀ f ∈ profile.removableFeatures ++ profile.copyrightFeatures,
    f.id.Unbroken ∧ f.eyecatcher.Unbroken
  rules : ∀ rule ∈ profile.replaceableStrings ++ profile.copyrightStrings, rule.Unbroken
  lines : ∀ pattern ∈ profile.removableLines, pattern.Unbroken
  tokens : ∀ token ∈ profile.removableTokens, token.Unbroken
  pairs : ∀ pair ∈ profile.replaceableTokens, pair.old.Unbroken ∧ pair.new.Unbroken

/-- A rule of two unbroken texts is unbroken: a literal is the text itself. -/
private theorem Rule.unbroken_of {rule : Rule} (hpattern : rule.pattern.Unbroken)
    (hreplacement : rule.replacement.Unbroken) : rule.Unbroken :=
  ⟨hpattern, fun _ hparse => Replacement.eq_of_parse_literal hparse ▸ hreplacement⟩

-- ============================================================== search

namespace Text

@[simp]
theorem crlf_nil : crlf [] = [] := rfl

@[simp]
theorem crlf_break (t : Text) : crlf ('\n' :: t) = '\r' :: '\n' :: crlf t := rfl

/-- A character other than a break stays as it is. -/
private theorem crlf_cons {c : Char} (hc : c ≠ '\n') (t : Text) : crlf (c :: t) = c :: crlf t := by
  rw [crlf, if_neg hc]

/-- Line endings are converted piece by piece. -/
private theorem crlf_append (s t : Text) : crlf (s ++ t) = crlf s ++ crlf t := by
  induction s with
  | nil => rfl
  | cons c s ih =>
      by_cases hc : c = '\n'
      · subst hc
        rw [List.cons_append, crlf_break, crlf_break, ih]
        rfl
      · rw [List.cons_append, crlf_cons hc, crlf_cons hc, ih]
        rfl

/-- A text of one line has no line ending to convert. -/
private theorem crlf_of_no_break {t : Text} (h : '\n' ∉ t) : crlf t = t := by
  induction t with
  | nil => rfl
  | cons c t ih =>
      obtain ⟨hc, ht⟩ : '\n' ≠ c ∧ '\n' ∉ t := by simpa using h
      rw [crlf_cons (Ne.symm hc), ih ht]

section
variable {pattern : Text} (hp : pattern.Unbroken)
include hp

/-- An unbroken pattern leads a text exactly if it leads the converted one. -/
private theorem dropLead?_crlf (t : Text) :
    dropLead? pattern (crlf t) = (dropLead? pattern t).map crlf := by
  induction pattern generalizing t with
  | nil => rfl
  | cons d pattern ih =>
      obtain ⟨hreturn, hfeed⟩ := hp
      have hd : d ≠ '\n' := fun hd => hfeed (hd ▸ .head _)
      have hd' : d ≠ '\r' := fun hd => hreturn (hd ▸ .head _)
      cases t with
      | nil => rfl
      | cons c t =>
          by_cases hc : c = '\n'
          · subst hc
            simp [dropLead?, hd, hd']
          · rw [crlf_cons hc, dropLead?, dropLead?]
            by_cases heq : d = c
            · rw [if_pos heq, if_pos heq]
              exact ih ⟨fun h => hreturn (.tail _ h), fun h => hfeed (.tail _ h)⟩ t
            · rw [if_neg heq, if_neg heq]
              rfl

/-- An unbroken pattern is found at the same spot, whichever the line
endings. -/
private theorem cut?_crlf (hne : pattern ≠ []) (t : Text) :
    cut? pattern (crlf t)
      = (cut? pattern t).map fun (before, after) => (crlf before, crlf after) := by
  induction t with
  | nil => simp [cut?_nil hne]
  | cons c t ih =>
      by_cases hc : c = '\n'
      · subst hc
        rw [crlf_break, cut?_cons_of_not_lead (not_lead_cons hp.1 hne _),
          cut?_cons_of_not_lead (not_lead_cons hp.2 hne _),
          cut?_cons_of_not_lead (not_lead_cons hp.2 hne _), ih]
        cases cut? pattern t <;> rfl
      · have hdrop := dropLead?_crlf hp (c :: t)
        rw [crlf_cons hc] at hdrop ⊢
        rw [cut?, cut?, hdrop, ih]
        cases dropLead? pattern (c :: t) with
        | some rest => rfl
        | none =>
            cases cut? pattern t with
            | none => rfl
            | some parts => simp [crlf_cons hc]

/-- An unbroken pattern occurs in both texts or in neither. -/
private theorem occursIn_crlf (hne : pattern ≠ []) (t : Text) :
    occursIn pattern (crlf t) = occursIn pattern t := by
  rw [occursIn, occursIn, cut?_crlf hp hne, Option.isSome_map]

/-- Replacing within lines commutes with converting the line endings. -/
private theorem replaceAll_crlf {replacement : Text} (hr : '\n' ∉ replacement) (t : Text) :
    replaceAll pattern replacement (crlf t) = crlf (replaceAll pattern replacement t) := by
  by_cases hne : pattern = []
  · rw [hne, replaceAll_nil_left, replaceAll_nil_left]
  · fun_induction replaceAll pattern replacement t with
    | case1 t hcut => exact replaceAll_of_cut?_none (by rw [cut?_crlf hp hne, hcut]; rfl)
    | case2 t _ _ _ hempty => exact absurd (List.isEmpty_iff.1 hempty) hne
    | case3 t before after hcut _ ih =>
        have hcut' : cut? pattern (crlf t) = some (crlf before, crlf after) := by
          rw [cut?_crlf hp hne, hcut]
          rfl
        rw [replaceAll_of_cut? hne hcut', ih, crlf_append, crlf_append, crlf_of_no_break hr]

end

-- ========================================================= ended texts

/-- Behind a character that is no line feed there is more of an ended text,
and it is ended. -/
theorem Ended.getLast?_of_append_cons {s t : Text} {c : Char} (hc : c ≠ '\n')
    (h : (s ++ c :: t).Ended) : t.getLast? = some '\n' := by
  rcases h with hnil | hlast
  · simp at hnil
  · cases t with
    | nil => exact absurd (by simpa using hlast) hc
    | cons d t => simpa using hlast

/-- A text ends as its last part does. -/
private theorem ended_append {s t : Text} (h : t.getLast? = some '\n') : (s ++ t).Ended := by
  refine .inr ?_
  rw [List.getLast?_append, h]
  rfl

/-- The break at the end stays, since no pattern has one. -/
theorem Ended.replaceAll {pattern t : Text} (h : t.Ended) (hp : '\n' ∉ pattern)
    (replacement : Text) : (Text.replaceAll pattern replacement t).Ended := by
  rcases h with rfl | hlast
  · rw [replaceAll_nil_right]
    exact .inl rfl
  · obtain ⟨s, rfl⟩ := List.getLast?_eq_some_iff.1 hlast
    rw [replaceAll_append_cons hp, replaceAll_nil_right]
    exact ended_append rfl

/-- Whole lines end in a break. -/
private theorem ended_ofLines (lines : List Text) : (ofLines lines).Ended := by
  induction lines with
  | nil => exact .inl rfl
  | cons line lines ih =>
      rcases ih with hnil | hlast
      · rw [ofLines, List.flatMap_cons, ← ofLines, hnil, List.append_nil]
        exact ended_append rfl
      · exact ended_append hlast

/-- An ended text is that of its lines. -/
theorem Ended.exists_ofLines {t : Text} (h : t.Ended) :
    ∃ lines, (∀ line ∈ lines, '\n' ∉ line) ∧ t = ofLines lines := by
  rcases h with rfl | hlast
  · exact ⟨[], fun _ hmem => absurd hmem List.not_mem_nil, rfl⟩
  · obtain ⟨s, rfl⟩ := List.getLast?_eq_some_iff.1 hlast
    refine ⟨splitLines s, fun _ => no_break_of_mem_splitLines, ?_⟩
    have hjoin (lines : List Text) (hne : lines ≠ []) :
        joinLines lines ++ ['\n'] = ofLines lines := by
      induction lines with
      | nil => exact absurd rfl hne
      | cons line lines ih =>
          cases lines with
          | nil => simp [joinLines, ofLines]
          | cons next lines =>
              rw [joinLines_cons line (List.cons_ne_nil next lines), List.append_assoc,
                List.cons_append, ih (List.cons_ne_nil next lines)]
              simp [ofLines]
    rw [← hjoin _ (splitLines_ne_nil s), joinLines_splitLines]

/-- The lines of an ended text, and the empty one behind its last end. -/
theorem splitLines_ofLines {lines : List Text} (h : ∀ line ∈ lines, '\n' ∉ line) :
    splitLines (ofLines lines) = lines ++ [[]] := by
  induction lines with
  | nil => rfl
  | cons line lines ih =>
      obtain ⟨hline, hlines⟩ := List.forall_mem_cons.1 h
      rw [ofLines, List.flatMap_cons, List.append_assoc, List.singleton_append,
        splitLines_append_break hline, ← ofLines, ih hlines, List.cons_append]

/-- Whole lines are the lines of a text that has an empty last one. -/
private theorem joinLines_concat_nil (lines : List Text) :
    joinLines (lines ++ [[]]) = ofLines lines := by
  induction lines with
  | nil => rfl
  | cons line lines ih =>
      rw [List.cons_append, joinLines_cons line (by simp), ih]
      simp [ofLines]

/-- The converted lines have a return at their ends. -/
private theorem crlf_ofLines {lines : List Text} (h : ∀ line ∈ lines, '\n' ∉ line) :
    crlf (ofLines lines) = ofLines (lines.map (· ++ ['\r'])) := by
  induction lines with
  | nil => rfl
  | cons line lines ih =>
      obtain ⟨hline, hlines⟩ := List.forall_mem_cons.1 h
      rw [ofLines, List.flatMap_cons, crlf_append, crlf_append, crlf_of_no_break hline, ← ofLines,
        ih hlines]
      simp [ofLines]

/-- A return is no break. -/
private theorem no_break_returned {lines : List Text} (h : ∀ line ∈ lines, '\n' ∉ line) :
    ∀ line ∈ lines.map (· ++ ['\r']), '\n' ∉ line := by
  intro returned hmem
  obtain ⟨line, hline, rfl⟩ := List.mem_map.1 hmem
  simpa using h line hline

end Text

-- ============================================================ stripping

namespace Feature

variable {f : Feature} (hid : f.id.Unbroken) (heye : f.eyecatcher.Unbroken)

include hid heye in
/-- The tokens of an unbroken feature are unbroken. -/
private theorem unbroken_token (mark : Mark) : (f.token mark).Unbroken := by
  have hlead : markerLead.Unbroken := by decide
  have hletter : Text.Unbroken ['-', mark.letter] := by cases mark <;> decide
  have htail : markerTail.Unbroken := by decide
  simp only [Text.Unbroken, token, List.mem_append, not_or] at *
  grind

/-- No token is empty. -/
private theorem token_ne_nil (f : Feature) (mark : Mark) : f.token mark ≠ [] := by
  simp [token, markerTail]

include hid heye in
/-- A splice commutes with the line endings: it cuts at tokens only, and
puts none in. -/
theorem after?_splice_crlf (t : Text) :
    (f.splice t.crlf).after? = (f.splice t).after?.map Text.crlf := by
  have hcut (mark : Mark) (t : Text) := Text.cut?_crlf (unbroken_token hid heye mark)
    (f.token_ne_nil mark) t
  have hopen : Text.crlf guardOpen = guardOpen := Text.crlf_of_no_break (by decide)
  have hclose : Text.crlf guardClose = guardClose := Text.crlf_of_no_break (by decide)
  unfold splice
  rw [hcut]
  cases Text.cut? (f.token .start) t with
  | none => rfl
  | some parts =>
      obtain ⟨before, rest⟩ := parts
      simp only [Option.map_some, hcut]
      cases Text.cut? (f.token .finish) rest with
      | none => rfl
      | some parts =>
          obtain ⟨body, after⟩ := parts
          simp only [Option.map_some, hcut]
          cases Text.cut? (f.token .leave) body with
          | none => simp [Splice.after?, Text.crlf_append]
          | some parts => simp [Splice.after?, Text.crlf_append, hopen, hclose]

/-- What stands behind a token of an ended text is ended, and not empty. -/
theorem getLast?_of_cut?_token {mark : Mark} {t before after : Text} (h : t.Ended)
    (hcut : Text.cut? (f.token mark) t = some (before, after)) : after.getLast? = some '\n' := by
  have htext : t = (before ++ markerLead ++ f.id ++ ['-', mark.letter] ++ f.eyecatcher ++ ['*'])
      ++ '/' :: after := by
    have htail : markerTail = ['*', '/'] := by decide
    rw [Text.eq_of_cut? hcut, token, htail]
    simp
  rw [htext] at h
  exact h.getLast?_of_append_cons (by decide)

/-- What a splice leaves still ends in a break. -/
private theorem ended_of_splice {t u : Text} (h : t.Ended)
    (hsplice : (f.splice t).after? = some u) :
    u.Ended := by
  rcases f.splice_cases t with ⟨-, heq⟩ | ⟨_, _, -, -, heq⟩ |
    ⟨_, _, _, _, hstart, hfinish, -, heq⟩ | ⟨_, _, _, _, _, _, hstart, hfinish, -, heq⟩ <;>
    rw [heq] at hsplice <;> cases hsplice
  all_goals
    have hrest := getLast?_of_cut?_token h hstart
    exact Text.ended_append (getLast?_of_cut?_token (.inr hrest) hfinish)

end Feature

-- =========================================================== conditions

namespace Tidy

/-- A return is blank in a group, so a group has the same end. -/
private theorem afterBlanks?_crlf (seen : Bool) (t : Text) :
    afterBlanks? seen t.crlf = (afterBlanks? seen t).map Text.crlf := by
  induction t generalizing seen with
  | nil => rfl
  | cons c t ih =>
      by_cases hc : c = '\n'
      · subst hc
        exact ih true
      · rw [Text.crlf_cons hc, afterBlanks?, afterBlanks?, ih]
        split
        · rfl
        · split <;> rfl

/-- A group at the front is one whichever the line endings. -/
private theorem afterGroup?_crlf (t : Text) :
    afterGroup? t.crlf = (afterGroup? t).map Text.crlf := by
  cases t with
  | nil => rfl
  | cons c t =>
      by_cases hopen : c = '('
      · subst hopen
        exact afterBlanks?_crlf false t
      · have hnone (d : Char) (t : Text) (hd : d ≠ '(') : afterGroup? (d :: t) = none := by
          unfold afterGroup?
          split
          · next heq => exact absurd (List.cons.inj heq).1 hd
          · rfl
        rw [hnone c t hopen]
        by_cases hc : c = '\n'
        · subst hc
          exact hnone '\r' _ (by decide)
        · rw [Text.crlf_cons hc]
          exact hnone c _ hopen

/-- A group at the front is dropped. -/
private theorem removeGroups_of_afterGroup?_some {t after : Text} (h : afterGroup? t = some after) :
    removeGroups t = removeGroups after := by
  cases t with
  | nil => cases h
  | cons c t =>
      rw [removeGroups]
      split
      · next heq => rw [h] at heq; cases heq; rfl
      · next heq => rw [h] at heq; cases heq

/-- What begins no group is kept. -/
private theorem removeGroups_of_afterGroup?_none {c : Char} {t : Text}
    (h : afterGroup? (c :: t) = none) :
    removeGroups (c :: t) = c :: removeGroups t := by
  rw [removeGroups]
  split
  · next heq => rw [h] at heq; cases heq
  · rfl

/-- Removing groups commutes with converting the line endings. -/
private theorem removeGroups_crlf (t : Text) : removeGroups t.crlf = (removeGroups t).crlf := by
  fun_induction removeGroups t with
  | case1 => rw [Text.crlf_nil, removeGroups]
  | case2 c t after hgroup ih =>
      rw [removeGroups_of_afterGroup?_some (by rw [afterGroup?_crlf, hgroup]; rfl), ih]
  | case3 c t hgroup ih =>
      have hgroup' := afterGroup?_crlf (c :: t)
      rw [hgroup] at hgroup'
      by_cases hc : c = '\n'
      · subst hc
        rw [Text.crlf_break, removeGroups_of_afterGroup?_none hgroup',
          removeGroups_of_afterGroup?_none rfl, ih, Text.crlf_break]
      · rw [Text.crlf_cons hc] at hgroup' ⊢
        rw [removeGroups_of_afterGroup?_none hgroup', ih, Text.crlf_cons hc]

/-- There is a group in both texts or in neither. -/
private theorem hasGroup_crlf (t : Text) : hasGroup t.crlf = hasGroup t := by
  induction t with
  | nil => rfl
  | cons c t ih =>
      by_cases hc : c = '\n'
      · subst hc
        exact ih
      · have hgroup := afterGroup?_crlf (c :: t)
        rw [Text.crlf_cons hc] at hgroup ⊢
        rw [hasGroup, hasGroup, hgroup, Option.isSome_map, ih]

/-- The loop makes the same rounds, whichever the line endings. -/
private theorem removeAllGroups_crlf (t : Text) :
    removeAllGroups t.crlf = (removeAllGroups t).crlf := by
  fun_induction removeAllGroups t with
  | case1 t hgroup ih =>
      rw [removeAllGroups, dif_pos (by rw [hasGroup_crlf, hgroup]), removeGroups_crlf, ih]
  | case2 t hgroup => rw [removeAllGroups, dif_neg (by rw [hasGroup_crlf]; exact hgroup)]

/-- The gaps that are closed are within lines. -/
private theorem closeGaps_crlf (t : Text) : closeGaps t.crlf = (closeGaps t).crlf := by
  have hoccurs (t : Text) : Text.occursIn emptyIfSpaced t.crlf = Text.occursIn emptyIfSpaced t :=
    Text.occursIn_crlf (by decide) (by decide) t
  fun_induction closeGaps t with
  | case1 t h ih =>
      rw [closeGaps, dif_pos (by rw [hoccurs, h]), Text.replaceAll_crlf (by decide) (by decide), ih]
  | case2 t h => rw [closeGaps, dif_neg (by rw [hoccurs]; exact h)]

/-- Tidying conditions commutes with converting the line endings. -/
private theorem conditions_crlf (t : Text) : conditions t.crlf = (conditions t).crlf := by
  rw [conditions, conditions, removeAllGroups_crlf, closeGaps_crlf,
    Text.replaceAll_crlf (by decide) (by decide)]

/-- The break at the end is in no group, since no parenthesis follows it. -/
private theorem ended_removeGroups {t : Text} (h : t.Ended) : (removeGroups t).Ended := by
  rcases h with rfl | hlast
  · rw [removeGroups]
    exact .inl rfl
  · -- the last line feed is in no group, so what is left has it at its end
    suffices (removeGroups t).getLast? = some '\n' from .inr this
    fun_induction removeGroups t with
    | case1 => exact hlast
    | case2 c t after hgroup ih =>
        obtain ⟨blanks, heq, -⟩ := afterGroup?_eq_some.1 hgroup
        rw [heq] at hlast
        have hended : Text.Ended (('(' :: blanks) ++ ')' :: after) := .inr hlast
        exact ih (hended.getLast?_of_append_cons (by decide))
    | case3 c t _ ih =>
        cases t with
        | nil => rwa [removeGroups]
        | cons d t =>
            have := ih hlast
            rw [List.getLast?_cons, this]
            rfl

/-- Tidied conditions leave the break at the end. -/
private theorem ended_conditions {t : Text} (h : t.Ended) : (conditions t).Ended := by
  have hgroups : (removeAllGroups t).Ended := by
    fun_induction removeAllGroups t with
    | case1 t _ ih => exact ih (ended_removeGroups h)
    | case2 => exact h
  have hgaps : (closeGaps (removeAllGroups t)).Ended := by
    generalize removeAllGroups t = u at hgroups
    fun_induction closeGaps u with
    | case1 u _ ih => exact ih (hgroups.replaceAll (by decide) _)
    | case2 => exact hgroups
  exact hgaps.replaceAll (by decide) _

-- ================================================================ lines

/-- Of ended lines, all blank ones but a first are dropped. -/
theorem blankLines_ofLines {line : Text} {lines : List Text}
    (h : ∀ l ∈ line :: lines, '\n' ∉ l) :
    blankLines (Text.ofLines (line :: lines))
      = Text.ofLines (line :: lines.filter fun l => !l.all isLineBlank) := by
  rw [blankLines_eq, Text.splitLines_ofLines h, List.cons_append, dropInner, dropBlank_concat,
    ← List.cons_append, Text.joinLines_concat_nil]

/-- Blank lines are the same ones, since a return is blank. -/
private theorem blankLines_crlf {t : Text} (h : t.Ended) :
    blankLines t.crlf = (blankLines t).crlf := by
  obtain ⟨lines, hlines, rfl⟩ := h.exists_ofLines
  cases lines with
  | nil => rfl
  | cons line lines =>
      have hblank : (fun l : Text => !(l ++ ['\r']).all isLineBlank)
          = fun l => !l.all isLineBlank := by
        funext l
        simp [isLineBlank]
      have hkept : ∀ l ∈ line :: lines.filter (fun l => !l.all isLineBlank), '\n' ∉ l := by
        intro l hmem
        exact hlines l ((List.filter_sublist.cons_cons line).subset hmem)
      have hreturned := Text.no_break_returned hlines
      rw [blankLines_ofLines hlines, Text.crlf_ofLines hlines, Text.crlf_ofLines hkept]
      rw [List.map_cons] at hreturned ⊢
      rw [blankLines_ofLines hreturned, List.filter_map, List.map_cons, Function.comp_def, hblank]

end Tidy

namespace Pipeline

section
variable {profile : Profile} {edit : Text → Text}

/-- The lines of an ended text are edited one by one, and the empty one
behind them stays. -/
theorem mapLines_ofLines (hnil : edit [] = []) {lines : List Text}
    (h : ∀ line ∈ lines, '\n' ∉ line) :
    mapLines profile edit (Text.ofLines lines)
      = Text.ofLines ((Line.dropForbidden profile.removableLines lines).map edit) := by
  rw [mapLines, Text.splitLines_ofLines h, Line.dropForbidden, List.filter_append, List.map_append]
  have hlast : (List.filter (fun line => !Line.forbidden profile.removableLines line) [[]]).map edit
      = [[]] := by
    simp [Line.forbidden_nil, hnil]
  rw [hlast, Text.joinLines_concat_nil]
  rfl

/-- Editing lines leaves the last one, which is empty. -/
private theorem ended_mapLines (hnil : edit [] = []) {t : Text} (h : t.Ended) :
    (mapLines profile edit t).Ended := by
  obtain ⟨lines, hlines, rfl⟩ := h.exists_ofLines
  rw [mapLines_ofLines hnil hlines]
  exact Text.ended_ofLines _

/-- An edit that leaves returns alone commutes with converting the line
endings. -/
private theorem mapLines_crlf (hprofile : profile.Unbroken) (hnil : edit [] = [])
    (hreturn : ∀ line, edit (line ++ ['\r']) = edit line ++ ['\r'])
    (hbreak : ∀ line, '\n' ∉ line → '\n' ∉ edit line) {t : Text} (h : t.Ended) :
    mapLines profile edit t.crlf = (mapLines profile edit t).crlf := by
  obtain ⟨lines, hlines, rfl⟩ := h.exists_ofLines
  have hedited : ∀ line ∈ (Line.dropForbidden profile.removableLines lines).map edit,
      '\n' ∉ line := by
    intro line hmem
    obtain ⟨kept, hkept, rfl⟩ := List.mem_map.1 hmem
    exact hbreak kept (hlines kept (List.mem_filter.1 hkept).1)
  have hforbidden (line : Text) : Line.forbidden profile.removableLines (line ++ ['\r'])
      = Line.forbidden profile.removableLines line := by
    rw [Line.forbidden_append_cons (fun pattern hmem => (hprofile.lines pattern hmem).1),
      Line.forbidden_nil, Bool.or_false]
  rw [mapLines_ofLines hnil hlines, Text.crlf_ofLines hlines, Text.crlf_ofLines hedited,
    mapLines_ofLines hnil (Text.no_break_returned hlines)]
  simp only [Line.dropForbidden, List.filter_map, List.map_map, Function.comp_def, hforbidden,
    hreturn]

end

end Pipeline

-- =============================================================== passes

/-- Drawn identifiers hold no line feed. -/
theorem no_break_identifier (s : WordSource) (length : Nat) : '\n' ∉ (s.identifier length).1 := by
  obtain ⟨letters, taken, heq, -, hdraws⟩ := s.exists_identifier_eq length
  rw [heq]
  intro hmem
  rcases List.mem_cons.1 (List.mem_of_mem_take hmem) with hlead | hletter
  · exact absurd hlead (by decide)
  · exact absurd (hdraws.mem_alphabet hletter) (by decide)

/-- A settled rule of an unbroken profile commutes with the line endings,
and leaves an ended text ended. -/
theorem rewrite_crlf_of_settleAll {rules settled : List Rule} {s : WordSource}
    (h : ((settleAll rules).run s).result = .ok settled)
    (hrules : ∀ rule ∈ rules, rule.Unbroken) :
    ∀ rule ∈ settled, ∀ t : Text, Rule.rewrite t.crlf rule = (Rule.rewrite t rule).crlf ∧
      (t.Ended → (Rule.rewrite t rule).Ended) := by
  have hrewrite (rule : Rule) (hpattern : rule.pattern.Unbroken)
      (hreplacement : rule.pattern = [] ∨ '\n' ∉ rule.replacement) (t : Text) :
      Rule.rewrite t.crlf rule = (Rule.rewrite t rule).crlf ∧
        (t.Ended → (Rule.rewrite t rule).Ended) := by
    unfold Rule.rewrite
    split
    · exact ⟨rfl, id⟩
    · next hne =>
      rcases hreplacement with hnil | hreplacement
      · exact absurd (List.isEmpty_iff.2 hnil) hne
      · exact ⟨Text.replaceAll_crlf hpattern hreplacement t, fun ht => ht.replaceAll hpattern.2 _⟩
  refine forall_of_settleAll h (fun rule hmem hfixed => ?_) (fun rule hmem length s => ?_)
  · refine hrewrite rule (hrules rule hmem).1 ?_
    rcases hfixed with hnil | ⟨value, hparse⟩
    · exact .inl hnil
    · have hvalue := (hrules rule hmem).2 value hparse
      exact .inr (Replacement.eq_of_parse_literal hparse ▸ hvalue.2)
  · exact hrewrite _ (hrules rule hmem).1 (.inr (no_break_identifier s length))

/-- What every rule commutes with, all of them do one after the other. -/
private theorem rewriteAll_crlf {rules : List Rule}
    (h : ∀ rule ∈ rules, ∀ t : Text, Rule.rewrite t.crlf rule = (Rule.rewrite t rule).crlf ∧
      (t.Ended → (Rule.rewrite t rule).Ended)) (t : Text) :
    rules.foldl Rule.rewrite t.crlf = (rules.foldl Rule.rewrite t).crlf ∧
      (t.Ended → (rules.foldl Rule.rewrite t).Ended) := by
  induction rules generalizing t with
  | nil => exact ⟨rfl, id⟩
  | cons rule rules ih =>
      obtain ⟨hrule, hrules⟩ := List.forall_mem_cons.1 h
      obtain ⟨hcrlf, hended⟩ := ih hrules (Rule.rewrite t rule)
      refine ⟨?_, fun ht => hended ((hrule t).2 ht)⟩
      rw [List.foldl_cons, List.foldl_cons, (hrule t).1, hcrlf]

namespace Pass

variable {profile : Profile} (h : profile.Unbroken)
include h

/-- The steps behind the rules commute with converting the line endings. -/
private theorem finish_crlf (pass : Pass) {t : Text} (ht : t.Ended) :
    pass.finish profile t.crlf = (pass.finish profile t).crlf := by
  cases pass with
  | copyright =>
      exact Pipeline.mapLines_crlf h rfl (fun _ => rfl) (fun _ hline => hline) ht
  | transform =>
      have hnil := Line.edit_nil_right profile.removableTokens profile.replaceableTokens
      have hreturn (line : Text) :
          Line.edit profile.removableTokens profile.replaceableTokens (line ++ ['\r'])
            = Line.edit profile.removableTokens profile.replaceableTokens line ++ ['\r'] := by
        rw [Line.edit_append_cons (fun token hmem => (h.tokens token hmem).1)
          (fun pair hmem => (h.pairs pair hmem).1.1), hnil]
      have hbreak (line : Text) (hline : '\n' ∉ line) :
          '\n' ∉ Line.edit profile.removableTokens profile.replaceableTokens line :=
        Line.not_mem_edit (fun pair hmem => (h.pairs pair hmem).2.2) hline
      have hconditions := Tidy.ended_conditions ht
      show Pipeline.tidy profile t.crlf = (Pipeline.tidy profile t).crlf
      rw [Pipeline.tidy, Pipeline.tidy, Tidy.conditions_crlf,
        Pipeline.mapLines_crlf h hnil hreturn hbreak hconditions,
        Tidy.blankLines_crlf (Pipeline.ended_mapLines hnil hconditions)]

/-- What a pass gives for some settled rules commutes with converting the
line endings. -/
private theorem output_crlf (pass : Pass) {t : Text} (ht : t.Ended) {s : WordSource}
    {settled : List Rule}
    (hsettled : ((settleAll (pass.rules profile)).run s).result = .ok settled) :
    pass.output profile t.crlf settled = (pass.output profile t settled).crlf := by
  have hfeatures : ∀ f ∈ pass.features profile, f.id.Unbroken ∧ f.eyecatcher.Unbroken := by
    intro f hmem
    apply h.features
    cases pass with
    | transform => exact List.mem_append_left _ hmem
    | copyright => exact List.mem_append_right _ hmem
  have hrules : ∀ rule ∈ pass.rules profile, rule.Unbroken := by
    intro rule hmem
    apply h.rules
    cases pass with
    | transform => exact List.mem_append_left _ hmem
    | copyright => exact List.mem_append_right _ hmem
  have hstrip : (strip (pass.features profile) t.crlf).text
      = (strip (pass.features profile) t).text.crlf :=
    resolveAll_map (fun f hmem => Feature.after?_splice_crlf (hfeatures f hmem).1
      (hfeatures f hmem).2) rfl
  have hended : (strip (pass.features profile) t).text.Ended :=
    resolveAll_keeps (fun f _ _ _ => f.ended_of_splice) ht
  obtain ⟨hrewrite, hended'⟩ := rewriteAll_crlf (rewrite_crlf_of_settleAll hsettled hrules)
    (strip (pass.features profile) t).text
  rw [output, output, hstrip, hrewrite, finish_crlf h pass (hended' hended)]

/-- With a profile that holds no line ending, a pass over an ended text and
one over the same text with the other line endings succeed or fail alike
and take the same words, and what they give differs in the line endings
only. -/
theorem run_crlf (pass : Pass) {t : Text} (ht : t.Ended) (s : WordSource) :
    ((pass.run profile t.crlf).run s).result
        = ((pass.run profile t).run s).result.map Text.crlf ∧
      ((pass.run profile t.crlf).run s).state = ((pass.run profile t).run s).state := by
  rw [run_run, run_run]
  refine ⟨?_, rfl⟩
  cases hsettled : ((settleAll (pass.rules profile)).run s).result with
  | error cause => rfl
  | ok settled => exact congrArg Except.ok (output_crlf h pass ht hsettled)

end Pass

/-- A profile with a text of every kind, one of them drawn. -/
def letterProfile : Profile where
  id := text "Letters"
  removableFeatures := [⟨text "Logger", text "@85Lbt3@"⟩]
  replaceableStrings := [⟨text "secret", text "@Random(4)"⟩, ⟨text "old", text "new"⟩]
  removableLines := [text "drop me"]
  removableTokens := [text "/*t*/"]
  replaceableTokens := [⟨text "<-", text "->"⟩]

/-- Lines of which some go, with a region and a condition across them. -/
def letterLines : Text :=
  Text.ofLines
    [text "if (/*Piranhito?@-Logger-S@85Lbt3@*/", text "log/*Piranhito?@-Logger-E@85Lbt3@*/",
      text ") secret /*t*/", text " ", text "drop me", text "old <- x"]

/-- No text of the profile holds a line ending. -/
private theorem unbroken_letterProfile : letterProfile.Unbroken where
  features := by decide
  rules rule hmem := Rule.unbroken_of (by revert rule; decide) (by revert rule; decide)
  lines := by decide
  tokens := by decide
  pairs := by decide

theorem run_crlf_letterProfile :
    letterProfile.Unbroken ∧ letterLines.Ended ∧
      let s := WordSource.ofWords [] 0
      ((Pass.transform.run letterProfile letterLines.crlf).run s).result
          = ((Pass.transform.run letterProfile letterLines).run s).result.map Text.crlf ∧
        ((Pass.transform.run letterProfile letterLines.crlf).run s).state
          = ((Pass.transform.run letterProfile letterLines).run s).state :=
  ⟨unbroken_letterProfile, by decide,
    Pass.run_crlf unbroken_letterProfile .transform (by decide) (WordSource.ofWords [] 0)⟩

end TaggedSource

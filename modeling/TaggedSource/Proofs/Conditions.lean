/-
Blank groups and conditions that are empty go, and do not come back.

Conditions are tidied in three phases: blank groups are deleted until there
is none, then `if ()` is closed up to `if()` until there is none, then `if()`
gets its sentinel. A word that one of the phases is to clear away is an
`Eyesore`, and each phase could bring one about where what it puts in meets
what stands around it.

# Joints

It does not, since words of this kind end in a closing parenthesis, begin
with something else, and hold neither an underscore nor a slash. A search for
a word passes over what lacks the word's first or last character
(`isInfix_append_left`, `isInfix_append_right`) and does not reach across a
character that the word lacks. So what is around the sentinel can be looked
at by itself (`Eyesore.isInfix_of_guarded`), and so can what is around a
condition that was closed up (`isInfix_of_closed`).

# Loops

Both loops end: a round of the first takes three characters at least, and a
second round of the other finds nothing (`ends_removeAllGroups`,
`ends_closeGaps`). A text without such words is left as it is, so tidying it
again changes nothing (`conditions_normal`).
-/
import TaggedSource.Proofs.Lines
import TaggedSource.Tidy.Conditions

namespace TaggedSource

-- ================================================================ infixes

namespace Text

/-- A word without `c` stands on one side of a `c` or on the other. -/
private theorem isInfix_append_cons {word l r : Text} {c : Char} (hc : c ∉ word) (hne : word ≠ []) :
    word <:+: l ++ c :: r ↔ word <:+: l ∨ word <:+: r := by
  rw [← occursIn_iff, occursIn_append_cons hc hne, Bool.or_eq_true, occursIn_iff, occursIn_iff]

/-- A word does not end in what lacks its last character. -/
theorem isInfix_append_left {word l r : Text} {c : Char} (hlast : word.getLast? = some c)
    (hc : c ∉ r) (h : word <:+: l ++ r) : word <:+: l := by
  obtain ⟨before, after, h⟩ := h
  rcases List.append_eq_append_iff.1 h with ⟨more, rfl, -⟩ | ⟨more, hmore, rfl⟩
  · exact ⟨before, more, rfl⟩
  · by_cases hnil : more = []
    · exact ⟨before, [], by simpa [hnil] using hmore⟩
    · -- the last character would be in `r`
      have hsame := congrArg List.getLast? hmore
      rw [List.getLast?_append, List.getLast?_append, hlast, List.getLast?_eq_some_getLast hnil,
        Option.some_or, Option.some_or, Option.some.injEq] at hsame
      exact absurd (List.mem_append_left after (hsame ▸ List.getLast_mem hnil)) hc

/-- A word does not begin in what lacks its first character. -/
theorem isInfix_append_right {word l r : Text} {c : Char} (hfirst : word.head? = some c)
    (hc : c ∉ l) (h : word <:+: l ++ r) : word <:+: r := by
  obtain ⟨before, after, h⟩ := h
  rw [List.append_assoc] at h
  rcases List.append_eq_append_iff.1 h with ⟨more, rfl, hmore⟩ | ⟨more, rfl, rfl⟩
  · cases more with
    | nil => exact ⟨[], after, by simpa using hmore⟩
    | cons d more =>
        -- the first character would be in `l`
        have hd := congrArg List.head? hmore
        simp only [List.head?_append, hfirst, Option.some_or, List.cons_append, List.head?_cons,
          Option.some.injEq] at hd
        exact absurd (by simp [hd]) hc
  · exact ⟨more, after, by simp⟩

/-- What stands before the first occurrence of a word is free of it. -/
theorem not_isInfix_of_cut? {word t before after : Text} (hne : word ≠ [])
    (h : cut? word t = some (before, after)) : ¬ word <:+: before := by
  rintro ⟨front, rest, hfront⟩
  refine not_lead_of_cut? h (word ++ rest) ⟨front, by simpa using hfront⟩ (by simp [hne]) ?_
  rw [List.append_assoc]
  exact List.prefix_append word _

end Text

namespace Tidy

-- ================================================================= groups

/-- A pair of parentheses around blanks stands in a text. -/
def BlankGroup (t : Text) : Prop :=
  ∃ before blanks after, t = before ++ '(' :: (blanks ++ ')' :: after) ∧ blanks ≠ [] ∧
    ∀ c ∈ blanks, isGroupBlank c = true

/-- Behind blanks there is a closing parenthesis, and then the rest. -/
theorem afterBlanks?_eq_some {seen : Bool} {t after : Text} :
    afterBlanks? seen t = some after ↔
      ∃ blanks, t = blanks ++ ')' :: after ∧ (seen = true ∨ blanks ≠ []) ∧
        ∀ c ∈ blanks, isGroupBlank c = true := by
  induction t generalizing seen with
  | nil => simp [afterBlanks?]
  | cons c t ih =>
      rw [afterBlanks?]
      split
      · next hblank =>
        rw [ih]
        constructor
        · rintro ⟨blanks, rfl, -, hblanks⟩
          exact ⟨c :: blanks, rfl, .inr (List.cons_ne_nil c blanks),
            List.forall_mem_cons.2 ⟨hblank, hblanks⟩⟩
        · rintro ⟨blanks, heq, -, hblanks⟩
          cases blanks with
          | nil =>
              -- a parenthesis is no blank
              obtain ⟨rfl, -⟩ := List.cons.inj heq
              cases hblank
          | cons first blanks =>
              obtain ⟨rfl, rfl⟩ := List.cons.inj heq
              exact ⟨blanks, rfl, .inl rfl, (List.forall_mem_cons.1 hblanks).2⟩
      · next hblank =>
        constructor
        · intro h
          split at h
          · next hclose =>
            obtain ⟨rfl, hseen⟩ := hclose
            cases h
            exact ⟨[], rfl, .inl hseen, fun _ hmem => absurd hmem List.not_mem_nil⟩
          · cases h
        · rintro ⟨blanks, heq, hseen, hblanks⟩
          cases blanks with
          | nil =>
              obtain ⟨rfl, rfl⟩ := List.cons.inj heq
              have hseen : seen = true := hseen.resolve_right fun h => h rfl
              rw [if_pos ⟨rfl, hseen⟩]
          | cons first blanks =>
              obtain ⟨rfl, -⟩ := List.cons.inj heq
              exact absurd (hblanks c (.head _)) hblank

/-- A group comes off exactly the texts that begin with one. -/
theorem afterGroup?_eq_some {t after : Text} :
    afterGroup? t = some after ↔
      ∃ blanks, t = '(' :: (blanks ++ ')' :: after) ∧ blanks ≠ [] ∧
        ∀ c ∈ blanks, isGroupBlank c = true := by
  unfold afterGroup?
  split
  · rw [afterBlanks?_eq_some]
    simp
  · next hopen =>
    constructor
    · intro h
      cases h
    · rintro ⟨blanks, heq, -⟩
      exact absurd heq (hopen _)

theorem hasGroup_iff {t : Text} : hasGroup t = true ↔ BlankGroup t := by
  induction t with
  | nil => simp [hasGroup, BlankGroup]
  | cons c t ih =>
      rw [hasGroup, Bool.or_eq_true, Option.isSome_iff_exists, ih]
      simp only [afterGroup?_eq_some]
      constructor
      · rintro (⟨after, blanks, heq, hgroup⟩ | ⟨before, blanks, after, rfl, hgroup⟩)
        · exact ⟨[], blanks, after, heq, hgroup⟩
        · exact ⟨c :: before, blanks, after, rfl, hgroup⟩
      · rintro ⟨before, blanks, after, heq, hgroup⟩
        cases before with
        | nil => exact .inl ⟨after, blanks, heq, hgroup⟩
        | cons first before =>
            obtain ⟨rfl, rfl⟩ := List.cons.inj heq
            exact .inr ⟨before, blanks, after, rfl, hgroup⟩

-- =============================================================== eyesores

/-- A word that is not to be left in a text. -/
inductive Eyesore : Text → Prop where
  /-- A pair of parentheses around blanks. -/
  | group {blanks : Text} (hne : blanks ≠ []) (h : ∀ c ∈ blanks, isGroupBlank c = true) :
      Eyesore ('(' :: (blanks ++ [')']))
  /-- An `if` with a blank and no condition. -/
  | spaced : Eyesore emptyIfSpaced
  /-- An `if` without a condition. -/
  | closed : Eyesore emptyIf

/-- A group is blanks in parentheses, one blank at least. -/
private theorem blankGroup_iff {t : Text} :
    BlankGroup t ↔ ∃ blanks, blanks ≠ [] ∧ (∀ c ∈ blanks, isGroupBlank c = true) ∧
      '(' :: (blanks ++ [')']) <:+: t := by
  constructor
  · rintro ⟨before, blanks, after, rfl, hne, hblanks⟩
    exact ⟨blanks, hne, hblanks, before, after, by simp⟩
  · rintro ⟨blanks, hne, hblanks, before, after, rfl⟩
    exact ⟨before, blanks, after, by simp, hne, hblanks⟩

theorem BlankGroup.mono {t u : Text} (hpart : t <:+: u) (h : BlankGroup t) : BlankGroup u := by
  obtain ⟨blanks, hne, hblanks, hin⟩ := blankGroup_iff.1 h
  exact blankGroup_iff.2 ⟨blanks, hne, hblanks, hin.trans hpart⟩

namespace Eyesore

variable {word : Text} (h : Eyesore word)
include h

theorem ne_nil : word ≠ [] := by
  cases h with
  | group => exact List.cons_ne_nil _ _
  | spaced => decide
  | closed => decide

theorem getLast? : word.getLast? = some ')' := by
  cases h with
  | group => rw [← List.cons_append, List.getLast?_concat]
  | spaced => decide
  | closed => decide

theorem not_mem {c : Char} (hblank : isGroupBlank c = false) (hc : c ∉ text "if()") : c ∉ word := by
  cases h with
  | @group blanks hne hblanks =>
      have hnot : c ∉ blanks := fun hmem => by simp [hblanks c hmem] at hblank
      have hparens : c ≠ '(' ∧ c ≠ ')' := by
        constructor <;> rintro rfl <;> exact hc (by decide)
      simp [hnot, hparens]
  | spaced =>
      have hspace : c ≠ ' ' := by
        rintro rfl
        cases hblank
      have hrest : c ≠ 'i' ∧ c ≠ 'f' ∧ c ≠ '(' ∧ c ≠ ')' := by
        refine ⟨?_, ?_, ?_, ?_⟩ <;> rintro rfl <;> exact hc (by decide)
      simp [emptyIfSpaced, text, hspace, hrest]
  | closed => exact hc

/-- No word of the kind begins with a blank. -/
theorem isInfix_of_blank {rest : Text} (hin : word <:+: ' ' :: rest) : word <:+: rest := by
  cases h <;> exact Text.isInfix_append_right (l := [' ']) rfl (by decide) hin

private theorem not_isInfix_close : ¬ word <:+: text ")" := by
  intro hin
  have hlength := hin.length_le
  cases h with
  | group => simp [text] at hlength
  | spaced => exact absurd hlength (by decide)
  | closed => exact absurd hlength (by decide)

/-- A word beside the sentinel is before it or behind it. -/
theorem isInfix_of_guarded {before rest : Text} (hin : word <:+: before ++ guardedIf ++ rest) :
    word <:+: before ∨ word <:+: rest := by
  have hguarded : guardedIf
      = text "if (!_CE" ++ '_' :: ((text ")" ++ text " /*Piranhito?@*") ++ ['/', ' ']) := by decide
  have hsplit : before ++ guardedIf ++ rest = (before ++ text "if (!_CE") ++
      '_' :: ((text ")" ++ text " /*Piranhito?@*") ++ '/' :: ' ' :: rest) := by
    simp only [hguarded, List.append_assoc, List.cons_append, List.nil_append]
  have hunderscore : '_' ∉ word := h.not_mem (by decide) (by decide)
  have hslash : '/' ∉ word := h.not_mem (by decide) (by decide)
  rw [hsplit, Text.isInfix_append_cons hunderscore h.ne_nil,
    Text.isInfix_append_cons hslash h.ne_nil] at hin
  rcases hin with hin | hin | hin
  · exact .inl (Text.isInfix_append_left h.getLast? (by decide) hin)
  · exact absurd (Text.isInfix_append_left h.getLast? (by decide) hin) h.not_isInfix_close
  · exact .inr (h.isInfix_of_blank hin)

/-- Sentinels bring no such word about, and leave no condition empty. -/
theorem not_isInfix_replaceAll {t : Text} (ht : word = emptyIf ∨ ¬ word <:+: t) :
    ¬ word <:+: Text.replaceAll emptyIf guardedIf t := by
  fun_induction Text.replaceAll emptyIf guardedIf t with
  | case1 t hcut =>
      rcases ht with rfl | ht
      · exact Text.occursIn_eq_false_iff.1 (by rw [Text.occursIn, hcut]; rfl)
      · exact ht
  | case2 t _ _ _ hempty => cases hempty
  | case3 t before after hcut _ ih =>
      have hparts := Text.eq_of_cut? hcut
      intro hin
      rcases h.isInfix_of_guarded hin with hin | hin
      · rcases ht with rfl | ht
        · exact Text.not_isInfix_of_cut? h.ne_nil hcut hin
        · refine ht (hin.trans ?_)
          rw [hparts, List.append_assoc]
          exact (List.prefix_append before _).isInfix
      · refine ih (ht.imp_right fun ht hafter => ht (hafter.trans ?_)) hin
        rw [hparts]
        exact (List.suffix_append _ after).isInfix

end Eyesore

-- ================================================================== gaps

/-- A blank group beside a condition that was closed up is before it or
behind it. -/
theorem isInfix_of_closed {blanks before rest : Text} (hne : blanks ≠ [])
    (h : ∀ c ∈ blanks, isGroupBlank c = true)
    (hin : '(' :: (blanks ++ [')']) <:+: before ++ emptyIf ++ rest) :
    '(' :: (blanks ++ [')']) <:+: before ∨ '(' :: (blanks ++ [')']) <:+: rest := by
  have hgroup := Eyesore.group hne h
  have hf : 'f' ∉ '(' :: (blanks ++ [')']) := by
    have hnot : 'f' ∉ blanks := fun hmem => absurd (h 'f' hmem) (by decide)
    simp [hnot]
  have hsplit : before ++ emptyIf ++ rest = (before ++ ['i']) ++ 'f' :: '(' :: ')' :: rest := by
    simp [emptyIf, text]
  rw [hsplit, Text.isInfix_append_cons hf hgroup.ne_nil, List.infix_cons_iff] at hin
  rcases hin with hin | hin | hin
  · exact .inl (Text.isInfix_append_left hgroup.getLast? (by decide) hin)
  · -- the group would have no blank
    obtain ⟨-, hin⟩ := List.cons_prefix_cons.1 hin
    cases blanks with
    | nil => exact absurd rfl hne
    | cons c blanks =>
        obtain ⟨rfl, -⟩ := List.cons_prefix_cons.1 hin
        exact absurd (h ')' (.head _)) (by decide)
  · exact .inr (Text.isInfix_append_right (l := [')']) rfl (by decide) hin)

/-- Closing gaps makes no group: what it puts in has no blank. -/
private theorem not_blankGroup_replaceAll {t : Text} (h : ¬ BlankGroup t) :
    ¬ BlankGroup (Text.replaceAll emptyIfSpaced emptyIf t) := by
  fun_induction Text.replaceAll emptyIfSpaced emptyIf t with
  | case1 => exact h
  | case2 => exact h
  | case3 t before after hcut _ ih =>
      have hparts := Text.eq_of_cut? hcut
      intro hgroup
      obtain ⟨blanks, hne, hblanks, hin⟩ := blankGroup_iff.1 hgroup
      rcases isInfix_of_closed hne hblanks hin with hin | hin
      · refine h (BlankGroup.mono ?_ (blankGroup_iff.2 ⟨blanks, hne, hblanks, hin⟩))
        rw [hparts, List.append_assoc]
        exact (List.prefix_append before _).isInfix
      · refine ih (fun hafter => h (BlankGroup.mono ?_ hafter))
          (blankGroup_iff.2 ⟨blanks, hne, hblanks, hin⟩)
        rw [hparts]
        exact (List.suffix_append _ after).isInfix

/-- All rounds of closing gaps make no group. -/
private theorem not_blankGroup_closeGaps {t : Text} (h : ¬ BlankGroup t) :
    ¬ BlankGroup (closeGaps t) := by
  fun_induction closeGaps t with
  | case1 t _ ih => exact ih (not_blankGroup_replaceAll h)
  | case2 t _ => exact h

-- ================================================================== loops

/-- A loop that makes a step as long as a test says so, and ends after so
many rounds. -/
inductive Ends (test : Text → Bool) (step : Text → Text) : Nat → Text → Text → Prop where
  /-- The test says no. -/
  | stop {t : Text} (h : test t = false) : Ends test step 0 t t
  /-- The test says yes, and the loop ends after the step. -/
  | round {rounds : Nat} {t u : Text} (h : test t = true) (hrest : Ends test step rounds (step t) u) :
      Ends test step (rounds + 1) t u

/-- A loop ends where its test fails. -/
theorem Ends.test_eq_false {test : Text → Bool} {step : Text → Text} {rounds : Nat} {t u : Text}
    (h : Ends test step rounds t u) : test u = false := by
  induction h with
  | stop h => exact h
  | round _ _ ih => exact ih

private theorem length_add_three_of_afterGroup? {t rest : Text} (h : afterGroup? t = some rest) :
    rest.length + 3 ≤ t.length := by
  obtain ⟨blanks, rfl, hne, -⟩ := afterGroup?_eq_some.1 h
  have hpos := List.length_pos_iff.2 hne
  simp only [List.length_cons, List.length_append]
  omega

/-- A round takes a group at least, which has three characters at least. -/
theorem length_removeGroups_add_three {t : Text} (h : hasGroup t = true) :
    (removeGroups t).length + 3 ≤ t.length := by
  induction t with
  | nil => cases h
  | cons c t ih =>
      unfold removeGroups
      split
      · next after hgroup =>
        have hlength := length_add_three_of_afterGroup? hgroup
        have hle := length_removeGroups_le after
        omega
      · next hgroup =>
        rw [hasGroup, hgroup] at h
        have hlength := ih h
        simp only [List.length_cons]
        omega

/-- The loop over groups ends, and each round takes three characters at
least. -/
theorem ends_removeAllGroups (t : Text) :
    ∃ rounds, Ends hasGroup removeGroups rounds t (removeAllGroups t) ∧
      (removeAllGroups t).length + 3 * rounds ≤ t.length := by
  fun_induction removeAllGroups t with
  | case1 t hgroup ih =>
      obtain ⟨rounds, hends, hlength⟩ := ih
      have hround := length_removeGroups_add_three hgroup
      exact ⟨rounds + 1, .round hgroup hends, by omega⟩
  | case2 t hgroup => exact ⟨0, .stop (by simpa using hgroup), Nat.le_refl _⟩

/-- Closing up leaves no gap that it would have to close. -/
theorem not_occursIn_closed (t : Text) :
    Text.occursIn emptyIfSpaced (Text.replaceAll emptyIfSpaced emptyIf t) = false :=
  Text.not_occursIn_replaceAll (c := 'i') (p := text "f ()") (q := text "f()")
    (by decide) (by decide) (by decide) (by decide) t

/-- Closing gaps takes one round at most. -/
private theorem ends_closeGaps (t : Text) :
    ∃ rounds, Ends (Text.occursIn emptyIfSpaced) (Text.replaceAll emptyIfSpaced emptyIf) rounds t
      (closeGaps t) ∧ rounds ≤ 1 := by
  have hstop {u : Text} (h : Text.occursIn emptyIfSpaced u = false) : closeGaps u = u := by
    rw [closeGaps, dif_neg (by simp [h])]
  by_cases h : Text.occursIn emptyIfSpaced t = true
  · have hnone := not_occursIn_closed t
    rw [closeGaps, dif_pos h, hstop hnone]
    exact ⟨1, .round h (.stop hnone), Nat.le_refl 1⟩
  · have hnone : Text.occursIn emptyIfSpaced t = false := by simpa using h
    rw [hstop hnone]
    exact ⟨0, .stop hnone, Nat.zero_le 1⟩

-- ============================================================ normal forms

/-- A text without eyesores is left alone. -/
theorem conditions_eq_self {t : Text} (hgroup : ¬ BlankGroup t) (hspaced : ¬ text "if ()" <:+: t)
    (hclosed : ¬ text "if()" <:+: t) : conditions t = t := by
  have hgroups : removeAllGroups t = t := by
    rw [removeAllGroups, dif_neg fun h => hgroup (hasGroup_iff.1 h)]
  have hgaps : closeGaps t = t := by
    have hnone : Text.occursIn emptyIfSpaced t = false := Text.occursIn_eq_false_iff.2 hspaced
    rw [closeGaps, dif_neg (by simp [hnone])]
  rw [conditions, hgroups, hgaps]
  exact Text.replaceAll_of_not_occursIn (Text.occursIn_eq_false_iff.2 hclosed)

/-- No word of the kind is left. -/
theorem Eyesore.not_isInfix_conditions {word : Text} (h : Eyesore word) (t : Text) :
    ¬ word <:+: conditions t := by
  obtain ⟨_, hgroups, -⟩ := ends_removeAllGroups t
  obtain ⟨_, hgaps, -⟩ := ends_closeGaps (removeAllGroups t)
  have hgroup : ¬ BlankGroup (closeGaps (removeAllGroups t)) := by
    refine not_blankGroup_closeGaps fun hgroup => ?_
    rw [← hasGroup_iff, hgroups.test_eq_false] at hgroup
    cases hgroup
  apply h.not_isInfix_replaceAll
  cases h with
  | group hne hblanks => exact .inr fun hin => hgroup (blankGroup_iff.2 ⟨_, hne, hblanks, hin⟩)
  | spaced => exact .inr (Text.occursIn_eq_false_iff.1 hgaps.test_eq_false)
  | closed => exact .inl rfl

/-- Both loops end, the second after one round at most. What comes out has
no blank group and no `if` without a condition, and tidying it again changes
nothing. -/
theorem conditions_normal (t : Text) :
    let groupless := removeAllGroups t
    let out := conditions t
    (∃ rounds, Ends hasGroup removeGroups rounds t groupless ∧
      groupless.length + 3 * rounds ≤ t.length) ∧
    (∃ rounds, Ends (Text.occursIn emptyIfSpaced) (Text.replaceAll emptyIfSpaced emptyIf) rounds
      groupless (closeGaps groupless) ∧ rounds ≤ 1) ∧
    ¬ BlankGroup out ∧ ¬ text "if ()" <:+: out ∧ ¬ text "if()" <:+: out ∧ conditions out = out := by
  intro groupless out
  have hgroup : ¬ BlankGroup out := by
    rw [blankGroup_iff]
    rintro ⟨blanks, hne, hblanks, hin⟩
    exact (Eyesore.group hne hblanks).not_isInfix_conditions t hin
  have hspaced : ¬ text "if ()" <:+: out := Eyesore.spaced.not_isInfix_conditions t
  have hclosed : ¬ text "if()" <:+: out := Eyesore.closed.not_isInfix_conditions t
  exact ⟨ends_removeAllGroups t, ends_closeGaps groupless, hgroup, hspaced, hclosed,
    conditions_eq_self hgroup hspaced hclosed⟩

end Tidy

end TaggedSource

/-
Words deleted from a text, one at a time.

`Text.Drops words` deletes one occurrence of one of the words, wherever it
stands. A function of the library that only deletes comes to the end of a row
of such steps, whatever order it takes (`drops_replaceAll`,
`Line.drops_edit`), so what one step cannot do, the function cannot do.

# Order

Where the words of a kind never overlap (`Apart`), two steps from one text
are the same or can be made one after the other, in either order
(`Apart.diamond`). Every row of steps then leads to the same text, if it goes
on until no word is left (`Apart.unique`).

# Words that come about

A step joins what stood on both sides of a word, and this can make another
word whole (`Joins`). The tokens of a list are deleted in their turn, so each
is gone after its own turn, and comes back only if a later one joins it
(`Line.token_gone_after_own_turn`). Two tokens are enough for this to happen
(`Line.joined_token_survives`).
-/
import Mathlib.Logic.Relation
import TaggedSource.Proofs.Lines

namespace TaggedSource

open Relation (ReflTransGen)

namespace Text

-- ================================================================= steps

/-- One occurrence of a word is deleted. -/
inductive Drops (words : Text → Prop) : Text → Text → Prop where
  /-- The word goes, and what is around it stays. -/
  | word {word : Text} (h : words word) (before after : Text) :
      Drops words (before ++ word ++ after) (before ++ after)

variable {words others : Text → Prop} {t u v : Text}

theorem Drops.mono (hsub : ∀ word, words word → others word) (h : Drops words t u) :
    Drops others t u := by
  cases h with
  | word h before after => exact .word (hsub _ h) before after

theorem Drops.append_left (front : Text) (h : Drops words t u) :
    Drops words (front ++ t) (front ++ u) := by
  cases h with
  | word h before after =>
      rw [← List.append_assoc, ← List.append_assoc, ← List.append_assoc]
      exact .word h (front ++ before) after

/-- A deletion only takes away. -/
theorem Drops.sublist (h : Drops words t u) : u.Sublist t := by
  cases h with
  | word h before after =>
      exact (List.sublist_append_left before _).append_right after

/-- A deletion of a word that is not empty makes the text shorter. -/
private theorem Drops.length_lt (hne : ∀ word, words word → word ≠ []) (h : Drops words t u) :
    u.length < t.length := by
  cases h with
  | @word word h before after =>
      have hpos := List.length_pos_iff.2 (hne word h)
      simp only [List.length_append]
      omega

/-- No row of steps goes on for ever: the text gets shorter. -/
theorem wellFounded_drops (hne : ∀ word, words word → word ≠ []) :
    WellFounded fun u t => Drops words t u :=
  Subrelation.wf (fun h => Drops.length_lt hne h) (measure List.length).wf

private theorem drops_mono (hsub : ∀ word, words word → others word)
    (h : ReflTransGen (Drops words) t u) :
    ReflTransGen (Drops others) t u :=
  ReflTransGen.mono (fun _ _ hstep => hstep.mono hsub) t u h

theorem drops_append_left (front : Text) (h : ReflTransGen (Drops words) t u) :
    ReflTransGen (Drops words) (front ++ t) (front ++ u) :=
  h.lift (front ++ ·) fun _ _ hstep => hstep.append_left front

/-- Deletions only take away, however many there are. -/
theorem sublist_of_drops (h : ReflTransGen (Drops words) t u) : u.Sublist t := by
  induction h with
  | refl => exact .refl t
  | tail _ hstep ih => exact hstep.sublist.trans ih

/-- Where no step is left, a row of steps goes nowhere. -/
theorem eq_of_drops (hlast : ∀ v, ¬ Drops words t v) (h : ReflTransGen (Drops words) t u) :
    u = t := by
  rcases h.cases_head with hsame | ⟨next, hstep, -⟩
  · exact hsame.symm
  · exact absurd hstep (hlast next)

/-- Deleting all occurrences from left to right is a row of steps. -/
theorem drops_replaceAll (pattern t : Text) :
    ReflTransGen (Drops (Eq pattern)) t (replaceAll pattern [] t) := by
  fun_induction replaceAll pattern [] t with
  | case1 => exact .refl
  | case2 => exact .refl
  | case3 t before after hcut _ ih =>
      rw [eq_of_cut? hcut, List.append_nil]
      exact .head (.word rfl before after) (drops_append_left before ih)

-- ================================================================= order

/-- Words that do not overlap: at one place there is one word, and a word
that stands further on stands behind it. -/
def Apart (words : Text → Prop) : Prop :=
  ∀ word other gap rest rest', words word → words other →
    word ++ rest = gap ++ (other ++ rest') → gap = [] ∧ word = other ∨ ∃ more, gap = word ++ more

namespace Apart

variable (h : Apart words)
include h

/-- Of two words that may be deleted, the one that stands first is still
there once the other is gone, and the other way round. -/
theorem join {word other : Text} (hword : words word) (hother : words other)
    (before gap rest rest' : Text) (heq : word ++ rest = gap ++ (other ++ rest')) :
    before ++ rest = before ++ gap ++ rest' ∨
      ∃ v, Drops words (before ++ rest) v ∧ Drops words (before ++ gap ++ rest') v := by
  rcases h word other gap rest rest' hword hother heq with ⟨rfl, rfl⟩ | ⟨more, rfl⟩
  · left
    rw [List.append_nil, List.append_cancel_left heq]
  · right
    have hrest : rest = more ++ (other ++ rest') := by
      rw [List.append_assoc] at heq
      exact List.append_cancel_left heq
    refine ⟨before ++ more ++ rest', ?_, ?_⟩
    · have hstep := Drops.word hother (before ++ more) rest'
      rwa [List.append_assoc (before ++ more), List.append_assoc before, ← hrest] at hstep
    · have hstep := Drops.word hword before (more ++ rest')
      simp only [List.append_assoc] at hstep ⊢
      exact hstep

/-- Two steps from one text are the same, or each can still be made behind
the other. -/
theorem diamond (hu : Drops words t u) (hv : Drops words t v) :
    u = v ∨ ∃ w, Drops words u w ∧ Drops words v w := by
  obtain ⟨hword, before, after⟩ := hu
  generalize hsame : before ++ _ ++ after = t at hv
  obtain ⟨hother, before', after'⟩ := hv
  rw [List.append_assoc, List.append_assoc] at hsame
  rcases List.append_eq_append_iff.1 hsame with ⟨gap, rfl, heq⟩ | ⟨gap, rfl, heq⟩
  · exact h.join hword hother before gap after after' heq
  · rcases h.join hother hword before' gap after' after heq with hjoin | ⟨w, hleft, hright⟩
    · exact .inl hjoin.symm
    · exact .inr ⟨w, hright, hleft⟩

/-- Whatever is deleted first, the same text can be reached. -/
private theorem confluent (hu : ReflTransGen (Drops words) t u)
    (hv : ReflTransGen (Drops words) t v) :
    Relation.Join (ReflTransGen (Drops words)) u v := by
  refine Relation.church_rosser (fun s s₁ s₂ h₁ h₂ => ?_) hu hv
  rcases h.diamond h₁ h₂ with rfl | ⟨w, hw₁, hw₂⟩
  · exact ⟨s₁, .refl, .refl⟩
  · exact ⟨w, .single hw₁, .single hw₂⟩

/-- Rows of steps that go on until no word is left lead to one text. -/
theorem unique (hu : ReflTransGen (Drops words) t u) (hv : ReflTransGen (Drops words) t v)
    (hlast : ∀ w, ¬ Drops words u w) (hlast' : ∀ w, ¬ Drops words v w) : u = v := by
  obtain ⟨w, hw, hw'⟩ := h.confluent hu hv
  rw [← eq_of_drops hlast hw, ← eq_of_drops hlast' hw']

end Apart

-- ================================================== words that come about

/-- Deleting a word can bring a token about: the parts of the token stand
on both sides of the word, and the token is not there yet. -/
def Joins (word token : Text) : Prop :=
  ∃ front back, token = front ++ back ∧ ¬ token <:+: front ++ word ++ back

/-- The places at which the token can be cut are tried out. -/
instance (word token : Text) : Decidable (Joins word token) :=
  decidable_of_iff ((List.range (token.length + 1)).any fun i =>
      !occursIn token (token.take i ++ word ++ token.drop i)) <| by
    simp only [List.any_eq_true, List.mem_range, Bool.not_eq_true', occursIn_eq_false_iff]
    constructor
    · rintro ⟨i, -, hnot⟩
      exact ⟨token.take i, token.drop i, (List.take_append_drop i token).symm, hnot⟩
    · rintro ⟨front, back, rfl, hnot⟩
      refine ⟨front.length, ?_, by simpa using hnot⟩
      rw [List.length_append]
      omega

/-- The parts of a token are all that matters: a step that brings it about
brings it about from them. -/
theorem joins_iff {word token : Text} :
    Joins word token ↔ ∃ t u, Drops (Eq word) t u ∧ ¬ token <:+: t ∧ token <:+: u := by
  constructor
  · rintro ⟨front, back, htoken, hnot⟩
    exact ⟨front ++ word ++ back, front ++ back, .word rfl front back, hnot,
      htoken ▸ List.infix_rfl⟩
  · rintro ⟨t, u, hstep, hnot, hin⟩
    obtain ⟨hword, before, after⟩ := hstep
    subst hword
    obtain ⟨left, right, hparts⟩ := hin
    rw [List.append_assoc] at hparts
    -- the token ends before the word, begins behind it, or stands across it
    rcases List.append_eq_append_iff.1 hparts with ⟨more, rfl, hmore⟩ | ⟨more, rfl, rfl⟩
    · rcases List.append_eq_append_iff.1 hmore with ⟨rest, rfl, rfl⟩ | ⟨back, rfl, rfl⟩
      · exact absurd ⟨left, rest ++ word ++ after, by simp⟩ hnot
      · refine ⟨more, back, rfl, fun hin => hnot (hin.trans ⟨left, right, by simp⟩)⟩
    · exact absurd ⟨before ++ word ++ more, right, by simp⟩ hnot

/-- A token that no deletion can join does not come about. -/
private theorem not_isInfix_of_drops {token : Text}
    (hjoins : ∀ word, words word → ¬ Joins word token)
    (h : ReflTransGen (Drops words) t u) (ht : ¬ token <:+: t) : ¬ token <:+: u := by
  induction h with
  | refl => exact ht
  | tail _ hstep ih =>
      obtain ⟨hword, before, after⟩ := hstep
      exact fun hin => hjoins _ hword (joins_iff.2 ⟨_, _, .word rfl before after, ih, hin⟩)

end Text

-- ========================================================= tokens in turn

namespace Line

/-- The first token is dealt with first, and never again. -/
private theorem edit_cons (token : Text) (tokens : List Text) (line : Text) :
    edit (token :: tokens) [] line = edit tokens [] (removeToken token line) := rfl

theorem edit_append (tokens tokens' : List Text) (line : Text) :
    edit (tokens ++ tokens') [] line = edit tokens' [] (edit tokens [] line) :=
  List.foldl_append

/-- The loop over a token is a row of deletions. -/
private theorem drops_removeToken (token line : Text) :
    ReflTransGen (Text.Drops (Eq token)) line (removeToken token line) := by
  fun_induction removeToken token line with
  | case1 line _ ih => exact (Text.drops_replaceAll token line).trans ih
  | case2 line _ => exact .refl

/-- Deleting tokens in their turn is a row of steps. -/
theorem drops_edit (tokens : List Text) (line : Text) :
    ReflTransGen (Text.Drops (· ∈ tokens)) line (edit tokens [] line) := by
  induction tokens generalizing line with
  | nil => exact .refl
  | cons token tokens ih =>
      have hfirst : ReflTransGen (Text.Drops (· ∈ token :: tokens)) line (removeToken token line) :=
        Text.drops_mono (fun word (hword : token = word) => hword ▸ List.mem_cons_self)
          (drops_removeToken token line)
      exact hfirst.trans
        (Text.drops_mono (fun _ => List.mem_cons_of_mem token) (ih (removeToken token line)))

/-- The loop over a token ends without it. -/
theorem not_isInfix_removeToken {token : Text} (hne : token ≠ []) (line : Text) :
    ¬ token <:+: removeToken token line := by
  fun_induction removeToken token line with
  | case1 line _ ih => exact ih
  | case2 line h => exact fun hin => h ⟨hne, Text.occursIn_iff.2 hin⟩

/-- A line is left alone exactly if the token is not in it. -/
private theorem removeToken_eq_self_iff {token line : Text} :
    removeToken token line = line ↔ (token ≠ [] → ¬ token <:+: line) := by
  constructor
  · intro heq hne
    rw [← heq]
    exact not_isInfix_removeToken hne line
  · intro h
    by_cases hne : token = []
    · rw [hne, removeToken_nil]
    · exact removeToken_of_not_occursIn (Text.occursIn_eq_false_iff.2 (h hne))

/-- Tokens leave a line alone if none of them is in it, and only then: what
the first one deletes does not come back. -/
theorem edit_eq_self_iff {tokens : List Text} {line : Text} :
    edit tokens [] line = line ↔ ∀ token ∈ tokens, token ≠ [] → ¬ token <:+: line := by
  induction tokens with
  | nil => simp [edit]
  | cons token tokens ih =>
      rw [List.forall_mem_cons, ← ih, ← removeToken_eq_self_iff, edit_cons]
      constructor
      · intro heq
        have hrest := Text.sublist_of_drops (drops_edit tokens (removeToken token line))
        have hfirst := Text.sublist_of_drops (drops_removeToken token line)
        rw [heq] at hrest
        have hsame : removeToken token line = line := hfirst.eq_of_length_le hrest.length_le
        exact ⟨hsame, by rwa [hsame] at heq⟩
      · rintro ⟨hfirst, hrest⟩
        rw [hfirst, hrest]

/-- After its own turn a token is gone, and it stays away if none of the
later ones joins it. None is left at all exactly if a second edit finds
nothing to delete. -/
theorem token_gone_after_own_turn (tokens : List Text) (line : Text) :
    let out := edit tokens [] line
    (∀ before token after, tokens = before ++ token :: after → token ≠ [] →
      ¬ token <:+: edit (before ++ [token]) [] line ∧
      ((∀ word ∈ after, ¬ Text.Joins word token) → ¬ token <:+: out)) ∧
    ((∀ token ∈ tokens, token ≠ [] → ¬ token <:+: out) ↔ edit tokens [] out = out) := by
  intro out
  refine ⟨?_, edit_eq_self_iff.symm⟩
  intro before token after htokens hne
  have hown : ¬ token <:+: edit (before ++ [token]) [] line := by
    rw [edit_append]
    exact not_isInfix_removeToken hne (edit before [] line)
  refine ⟨hown, fun hjoins => ?_⟩
  have hout : out = edit after [] (edit (before ++ [token]) [] line) := by
    rw [← edit_append, List.append_assoc, List.singleton_append, ← htokens]
  rw [hout]
  exact Text.not_isInfix_of_drops hjoins (drops_edit after _) hown

/-- A word that holds a token does not join it, so the token stays away. -/
theorem held_token_stays_away :
    (∀ word ∈ [text "cab"], ¬ Text.Joins word (text "ab")) ∧
      ¬ text "ab" <:+: edit [text "ab", text "cab"] [] (text "acabb") := by
  have hjoins : ∀ word ∈ [text "cab"], ¬ Text.Joins word (text "ab") := by decide
  have hgone := (token_gone_after_own_turn [text "ab", text "cab"] (text "acabb")).1
    [] (text "ab") [text "cab"] rfl (by decide)
  exact ⟨hjoins, hgone.2 hjoins⟩

/-- A token that occurs once is deleted there. -/
theorem removeToken_of_cut? {token line before after : Text} (hne : token ≠ [])
    (hcut : Text.cut? token line = some (before, after))
    (hafter : Text.occursIn token after = false)
    (hout : Text.occursIn token (before ++ after) = false) :
    removeToken token line = before ++ after := by
  have hoccurs : Text.occursIn token line = true := by
    rw [Text.occursIn, hcut]
    rfl
  rw [removeToken_of_occursIn hne hoccurs, Text.replaceAll_of_cut? hne hcut,
    Text.replaceAll_of_not_occursIn hafter, List.append_nil, removeToken_of_not_occursIn hout]

/-- The second token joins the first: this is left, though neither token is
empty, and a second edit would delete it. -/
theorem joined_token_survives :
    let tokens := [text "ab", text "c"]
    (∀ token ∈ tokens, token ≠ []) ∧ Text.Joins (text "c") (text "ab") ∧
      text "ab" <:+: edit tokens [] (text "acb") ∧
      edit tokens [] (edit tokens [] (text "acb")) = [] := by
  have hkept : removeToken (text "ab") (text "acb") = text "acb" :=
    removeToken_of_not_occursIn (by decide)
  have hjoined : removeToken (text "c") (text "acb") = text "a" ++ text "b" :=
    removeToken_of_cut? (by decide) (by decide) (by decide) (by decide)
  have hdeleted : removeToken (text "ab") (text "ab") = [] ++ [] :=
    removeToken_of_cut? (by decide) (by decide) (by decide) (by decide)
  have hout : edit [text "ab", text "c"] [] (text "acb") = text "ab" := by
    rw [edit_cons, hkept, edit_cons, hjoined]
    rfl
  have hagain : edit [text "ab", text "c"] [] (text "ab") = [] := by
    rw [edit_cons, hdeleted]
    exact edit_nil_right [text "c"] []
  intro tokens
  rw [hout]
  exact ⟨by decide, by decide, List.infix_rfl, hagain⟩

end Line

end TaggedSource

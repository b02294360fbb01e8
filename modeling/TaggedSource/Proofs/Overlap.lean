/-
What tokens and sentinels can have in common.

Ids and eyecatchers may hold stars, dashes, letters of marks and whole pieces
of the marker syntax, but the slash of a comment is only its first and its
last character (`IsComment.eq_or_eq_of_slash`). This alone settles where two
comments of a text can meet. One that begins inside another begins with the
last slash of it, and they share this character and no other
(`IsComment.eq_of_covers`). One that lies within another is the whole of it
(`IsComment.eq_of_isInfix`).

Tokens of proper features and the two sentinels are comments, so what is true
of comments is true of these landmarks of a text (`tokens_unambiguous`).
-/
import TaggedSource.Proofs.Comment

namespace TaggedSource

namespace Text

/-- A word stands at a place of a text, counted in characters. -/
def IsAt (word t : Text) (place : Nat) : Prop := word <+: t.drop place

instance (word t : Text) (place : Nat) : Decidable (IsAt word t place) :=
  inferInstanceAs (Decidable (word <+: t.drop place))

/-- A word at a place takes up another place. -/
def Covers (word : Text) (place i : Nat) : Prop := place ≤ i ∧ i < place + word.length

/-- The text has the characters of the word where the word stands. -/
theorem IsAt.getElem?_eq {word t : Text} {place i : Nat} (h : IsAt word t place)
    (hi : Covers word place i) : t[i]? = word[i - place]? := by
  obtain ⟨rest, hrest⟩ := h
  obtain ⟨hle, hlt⟩ := hi
  have hplace : i = place + (i - place) := by omega
  calc t[i]? = (t.drop place)[i - place]? := by rw [List.getElem?_drop, ← hplace]
    _ = (word ++ rest)[i - place]? := by rw [hrest]
    _ = word[i - place]? := List.getElem?_append_left (by omega)

end Text

-- =============================================================== comments

namespace IsComment

variable {u v : Text}

private theorem getElem?_zero (h : IsComment u) : u[0]? = some '/' := by
  obtain ⟨inner, rfl, -⟩ := h
  rfl

/-- A slash of a comment is its first character or its last. -/
theorem eq_or_eq_of_slash (h : IsComment u) {i : Nat} (hi : u[i]? = some '/') :
    i = 0 ∨ i + 1 = u.length := by
  obtain ⟨inner, rfl, hslash⟩ := h
  cases i with
  | zero => exact .inl rfl
  | succ i =>
      right
      rw [List.cons_append, List.getElem?_cons_succ] at hi
      by_cases hin : i < ('*' :: inner).length
      · rw [List.getElem?_append_left hin] at hi
        rcases List.mem_cons.1 (List.mem_of_getElem? hi) with hstar | hmem
        · exact absurd hstar (by decide)
        · exact absurd hmem hslash
      · rw [List.getElem?_append_right (by omega)] at hi
        obtain ⟨hlast, -⟩ := List.getElem?_eq_some_iff.1 hi
        simp only [List.length_cons, List.length_nil, List.length_append] at hin hlast ⊢
        omega

/-- Of two comments the one that stands further on begins with the last
slash of the other, if they share anything. -/
theorem eq_of_covers (hu : IsComment u) (hv : IsComment v) {t : Text} {p q i : Nat}
    (hp : u.IsAt t p) (hq : v.IsAt t q) (hlt : p < q) (hi : u.Covers p i) (hi' : v.Covers q i) :
    i = q ∧ t[i]? = some '/' := by
  obtain ⟨hle, hend⟩ := hi
  obtain ⟨hle', hend'⟩ := hi'
  have hslash : t[q]? = some '/' := by
    rw [hq.getElem?_eq ⟨Nat.le_refl q, by omega⟩, Nat.sub_self, hv.getElem?_zero]
  -- this slash is a character of `u` too, and not the first
  have hinside : u[q - p]? = some '/' := by
    rw [← hp.getElem?_eq ⟨by omega, by omega⟩, hslash]
  have hiq : i = q := by
    rcases hu.eq_or_eq_of_slash hinside with hfirst | hlast
    · omega
    · omega
  exact ⟨hiq, hiq ▸ hslash⟩

/-- A comment that lies in another is the whole of it. -/
theorem eq_of_isInfix (hu : IsComment u) (hv : IsComment v) (h : u <:+: v) : u = v := by
  obtain ⟨before, after, rfl⟩ := h
  have hlength : 1 < u.length := by
    obtain ⟨inner, rfl, -⟩ := hu
    simp
  have hslash : (before ++ u ++ after)[before.length]? = some '/' := by
    rw [List.append_assoc, List.getElem?_append_right (Nat.le_refl _), Nat.sub_self,
      List.getElem?_append_left (by omega), hu.getElem?_zero]
  have hnone : before = [] := by
    rcases hv.eq_or_eq_of_slash hslash with hfirst | hlast
    · exact List.length_eq_zero_iff.1 hfirst
    · simp only [List.length_append] at hlast
      omega
  rw [hnone, List.nil_append] at hv ⊢
  have hlead : u <+: u ++ after ++ [] := ⟨after, by simp⟩
  exact hu.eq_of_lead hv hlead

end IsComment

-- ============================================================== landmarks

/-- What stripping goes by and what it leaves behind. -/
inductive Landmark : Text → Prop where
  /-- A token of a proper feature. -/
  | token {f : Feature} (h : f.Proper) (mark : Mark) : Landmark (f.token mark)
  /-- The sentinel before a fallback. -/
  | opening : Landmark guardOpen
  /-- The sentinel behind a fallback. -/
  | closing : Landmark guardClose

private theorem Landmark.isComment {u : Text} (h : Landmark u) : IsComment u := by
  cases h with
  | token h mark => exact h.isComment_token mark
  | opening => exact isComment_guardOpen
  | closing => exact isComment_guardClose

/-- Landmarks cannot be mistaken for each other. A token lies in a token only
if feature and mark are the same, no token lies in a sentinel and no sentinel
in a token, and landmarks at different places of a text share one character
at most, which is a slash. -/
theorem tokens_unambiguous :
    (∀ (f g : Feature) (m n : Mark), f.Proper → g.Proper →
      f.token m <:+: g.token n → f.id = g.id ∧ f.eyecatcher = g.eyecatcher ∧ m = n) ∧
    (∀ (f : Feature) (m : Mark), f.Proper → ∀ guard ∈ [guardOpen, guardClose],
      ¬ f.token m <:+: guard ∧ ¬ guard <:+: f.token m) ∧
    ∀ (u v t : Text) (p q : Nat), Landmark u → Landmark v → u.IsAt t p → v.IsAt t q → p ≠ q →
      ∀ i, u.Covers p i → v.Covers q i →
        t[i]? = some '/' ∧ ∀ j, u.Covers p j → v.Covers q j → j = i := by
  refine ⟨?_, ?_, ?_⟩
  · intro f g m n hf hg hin
    have heq := (hf.isComment_token m).eq_of_isInfix (hg.isComment_token n) hin
    obtain ⟨rfl, rfl⟩ := Feature.token_inj hf hg heq
    exact ⟨rfl, rfl, rfl⟩
  · intro f m hf guard hguard
    have hguard : guard = guardOpen ∨ guard = guardClose := by simpa using hguard
    have hcomment : IsComment guard ∧ f.token m ≠ guard := by
      rcases hguard with rfl | rfl
      · exact ⟨isComment_guardOpen, f.token_ne_guardOpen m⟩
      · exact ⟨isComment_guardClose, f.token_ne_guardClose m⟩
    obtain ⟨hcomment, hne⟩ := hcomment
    exact ⟨fun hin => hne ((hf.isComment_token m).eq_of_isInfix hcomment hin),
      fun hin => hne (hcomment.eq_of_isInfix (hf.isComment_token m) hin).symm⟩
  · intro u v t p q hu hv hp hq hne i hi hi'
    rcases Nat.lt_or_gt_of_ne hne with hlt | hlt
    · obtain ⟨rfl, hslash⟩ := hu.isComment.eq_of_covers hv.isComment hp hq hlt hi hi'
      exact ⟨hslash, fun j hj hj' => (hu.isComment.eq_of_covers hv.isComment hp hq hlt hj hj').1⟩
    · obtain ⟨rfl, hslash⟩ := hv.isComment.eq_of_covers hu.isComment hq hp hlt hi' hi
      exact ⟨hslash, fun j hj hj' => (hv.isComment.eq_of_covers hu.isComment hq hp hlt hj' hj).1⟩

/-- The feature whose id is two stars. -/
def starFeature : Feature := ⟨text "**", text "@anXjKh@"⟩

/-- An end marker and a start marker with one slash between them, which is
the last character of the one and the first of the other. -/
def sharedSlash : Text :=
  text "/*Piranhito?@-**-E@anXjKh@*/*Piranhito?@-**-S@anXjKh@*/"

theorem tokens_unambiguous_sharedSlash :
    starFeature.Proper ∧ (starFeature.token .finish).IsAt sharedSlash 0 ∧
    (starFeature.token .start).IsAt sharedSlash 27 ∧
    ¬ starFeature.token .finish <:+: starFeature.token .start ∧
    ¬ starFeature.token .finish <:+: guardClose ∧
    sharedSlash[27]? = some '/' ∧
    ∀ j, (starFeature.token .finish).Covers 0 j → (starFeature.token .start).Covers 27 j →
      j = 27 := by
  have hproper : starFeature.Proper := by decide
  have hfinish : (starFeature.token .finish).IsAt sharedSlash 0 := by decide
  have hstart : (starFeature.token .start).IsAt sharedSlash 27 := by decide
  obtain ⟨htokens, hguards, hplaces⟩ := tokens_unambiguous
  have hshared := hplaces _ _ sharedSlash 0 27 (.token hproper .finish) (.token hproper .start)
    hfinish hstart (by decide) 27 ⟨by decide, by decide⟩ ⟨by decide, by decide⟩
  refine ⟨hproper, hfinish, hstart, fun hin => ?_, ?_, hshared⟩
  · exact absurd (htokens _ _ _ _ hproper hproper hin).2.2 (by decide)
  · exact (hguards _ .finish hproper guardClose (by simp)).1

end TaggedSource

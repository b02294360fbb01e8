/-
Blank groups go in any order.

The passes over a text delete blank groups from left to right, and over again
while there are any. One could as well delete them one at a time, in any
order: a group that is deleted may make the one around it blank, but two
groups never overlap, since there is no parenthesis between those of a group
(`apart_isGroup`). So deletions of single groups are confluent, every row of
them ends, and all end at one text, which is also that of the passes
(`groups_removed_in_any_order`).
-/
import TaggedSource.Proofs.Comment
import TaggedSource.Proofs.Conditions
import TaggedSource.Proofs.Deletion

namespace TaggedSource.Tidy

open Relation (ReflTransGen)

/-- A group that is deleted: a pair of parentheses around blanks. -/
def IsGroup (word : Text) : Prop :=
  ∃ blanks, word = '(' :: (blanks ++ [')']) ∧ blanks ≠ [] ∧ ∀ c ∈ blanks, isGroupBlank c = true

theorem IsGroup.ne_nil {word : Text} (h : IsGroup word) : word ≠ [] := by
  obtain ⟨blanks, rfl, -⟩ := h
  exact List.cons_ne_nil _ _

/-- A group can be deleted exactly if there is one. -/
theorem exists_drops_iff {t : Text} : (∃ u, Text.Drops IsGroup t u) ↔ BlankGroup t := by
  constructor
  · rintro ⟨_, ⟨blanks, rfl, hgroup⟩, before, after⟩
    exact ⟨before, blanks, after, by simp, hgroup⟩
  · rintro ⟨before, blanks, after, rfl, hgroup⟩
    have hword : IsGroup ('(' :: (blanks ++ [')'])) := ⟨blanks, rfl, hgroup⟩
    exact ⟨before ++ after, by simpa using Text.Drops.word hword before after⟩

/-- Two groups do not overlap. -/
theorem apart_isGroup : Text.Apart IsGroup := by
  rintro _ _ gap rest rest' ⟨blanks, rfl, -, hblanks⟩ ⟨blanks', rfl, -, hblanks'⟩ heq
  have hparens (l : Text) (hl : ∀ c ∈ l, isGroupBlank c = true) : '(' ∉ l ∧ ')' ∉ l :=
    ⟨fun hmem => absurd (hl _ hmem) (by decide), fun hmem => absurd (hl _ hmem) (by decide)⟩
  obtain ⟨hopen, hclose⟩ := hparens blanks hblanks
  obtain ⟨-, hclose'⟩ := hparens blanks' hblanks'
  simp only [List.cons_append, List.append_assoc, List.nil_append] at heq
  cases gap with
  | nil =>
      -- at one place the groups end at the same parenthesis
      obtain ⟨rfl, -⟩ := append_cons_inj hclose hclose' (List.cons.inj heq).2
      exact .inl ⟨rfl, rfl⟩
  | cons c gap =>
      -- further on, the other's parenthesis is behind this group's
      obtain ⟨rfl, htail⟩ := List.cons.inj heq
      rcases List.append_eq_append_iff.1 htail with ⟨more, rfl, hmore⟩ | ⟨more, rfl, hmore⟩
      · cases more with
        | nil => cases hmore
        | cons d more =>
            obtain ⟨rfl, -⟩ := List.cons.inj hmore
            exact .inr ⟨more, by simp⟩
      · cases more with
        | nil => cases hmore
        | cons d more =>
            obtain ⟨rfl, -⟩ := List.cons.inj hmore
            exact absurd (by simp) hopen

-- ================================================================= passes

/-- A pass is a row of deletions. -/
theorem drops_removeGroups (t : Text) : ReflTransGen (Text.Drops IsGroup) t (removeGroups t) := by
  fun_induction removeGroups t with
  | case1 => exact .refl
  | case2 c t after hgroup ih =>
      obtain ⟨blanks, heq, hgroup⟩ := afterGroup?_eq_some.1 hgroup
      have hword : IsGroup ('(' :: (blanks ++ [')'])) := ⟨blanks, rfl, hgroup⟩
      rw [heq]
      exact .head (by simpa using Text.Drops.word hword [] after) ih
  | case3 c t _ ih => exact Text.drops_append_left [c] ih

/-- So are the passes until no group is left. -/
theorem drops_removeAllGroups (t : Text) :
    ReflTransGen (Text.Drops IsGroup) t (removeAllGroups t) := by
  fun_induction removeAllGroups t with
  | case1 t _ ih => exact (drops_removeGroups t).trans ih
  | case2 => exact .refl

/-- Deleting single groups ends, in whatever order it is done, and the text
at which it ends is always the one that the passes leave. -/
theorem groups_removed_in_any_order (t : Text) :
    let groupless := removeAllGroups t
    (∃ rounds, Ends hasGroup removeGroups rounds t groupless) ∧
    (WellFounded fun v u => Text.Drops IsGroup u v) ∧
    ∀ u, (ReflTransGen (Text.Drops IsGroup) t u ∧ ¬ BlankGroup u) ↔ u = groupless := by
  intro groupless
  obtain ⟨rounds, hends, -⟩ := ends_removeAllGroups t
  have hnone : ¬ BlankGroup groupless := by
    rw [← hasGroup_iff, hends.test_eq_false]
    exact Bool.false_ne_true
  have hlast {u : Text} (hu : ¬ BlankGroup u) (v : Text) : ¬ Text.Drops IsGroup u v :=
    fun hstep => hu (exists_drops_iff.1 ⟨v, hstep⟩)
  refine ⟨⟨rounds, hends⟩, Text.wellFounded_drops fun _ => IsGroup.ne_nil, fun u => ?_⟩
  constructor
  · rintro ⟨hrow, hu⟩
    exact apart_isGroup.unique hrow (drops_removeAllGroups t) (hlast hu) (hlast hnone)
  · rintro rfl
    exact ⟨drops_removeAllGroups t, hnone⟩

end TaggedSource.Tidy

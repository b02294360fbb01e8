/-
Tidying keeps parentheses balanced.

Blank groups are deleted, and empty conditions replaced, by what they look
like and not by what their parentheses belong to. But each of these words,
and also what is put in its place, has one pair of parentheses side by side in
the row of parentheses of the text (`parens`). So the row stays as it is, or
loses pairs that stand side by side (`drops_parens_conditions`).

Such a pair counts for nothing, wherever it stands, since as much is open
before it as behind it. So a row is balanced exactly if it is balanced without
the pair (`balanced_iff_of_drops`), and a row that is not balanced lacks as
much with the pair as without.
-/
import Mathlib.Data.List.Infix
import TaggedSource.Proofs.Groups

namespace TaggedSource.Tidy

open Relation (ReflTransGen)

/-- The parentheses of a text, in their order. -/
def parens (t : Text) : Text := t.filter fun c => c = '(' || c = ')'

/-- A row of parentheses in which each one that closes has one that it
closes, and the other way round. -/
structure Balanced (row : Text) : Prop where
  /-- Nowhere is more closed than opened. -/
  opened : ∀ front, front <+: row → front.count ')' ≤ front.count '('
  /-- In the end as much is closed as opened. -/
  closed : row.count '(' = row.count ')'

instance (row : Text) : Decidable (Balanced row) :=
  decidable_of_iff
    ((∀ front ∈ row.inits, front.count ')' ≤ front.count '(') ∧ row.count '(' = row.count ')')
    ⟨fun h => ⟨fun front hfront => h.1 front ((List.mem_inits front row).2 hfront), h.2⟩,
      fun h => ⟨fun front hfront => h.opened front ((List.mem_inits front row).1 hfront), h.closed⟩⟩

-- ================================================================== pairs

/-- The fronts of a text in two parts are those of the first part, and then
those of the second with the first before them. -/
theorem forall_prefix_append {p : Text → Prop} {first second : Text} :
    (∀ front, front <+: first ++ second → p front) ↔
      (∀ front, front <+: first → p front) ∧ ∀ more, more <+: second → p (first ++ more) := by
  constructor
  · intro h
    refine ⟨fun front hfront => ?_, fun more hmore => ?_⟩
    · exact h front (hfront.trans (List.prefix_append first second))
    · exact h (first ++ more) ((List.prefix_append_right_inj first).2 hmore)
  · intro ⟨hfirst, hsecond⟩ front hfront
    rcases List.prefix_or_prefix_of_prefix hfront (List.prefix_append first second) with
      hin | ⟨more, rfl⟩
    · exact hfirst front hin
    · exact hsecond more ((List.prefix_append_right_inj first).1 hfront)

/-- A balanced part of a row counts for nothing. -/
theorem balanced_append_iff {part : Text} (h : Balanced part) (before after : Text) :
    Balanced (before ++ part ++ after) ↔ Balanced (before ++ after) := by
  have hclosed := h.closed
  constructor
  · intro ⟨hopened, hall⟩
    obtain ⟨hfront, hafter⟩ := forall_prefix_append.1 hopened
    refine ⟨forall_prefix_append.2 ⟨(forall_prefix_append.1 hfront).1, fun more hmore => ?_⟩, ?_⟩
    · have hle := hafter more hmore
      simp only [List.count_append] at hle ⊢
      omega
    · simp only [List.count_append] at hall ⊢
      omega
  · intro ⟨hopened, hall⟩
    obtain ⟨hbefore, hafter⟩ := forall_prefix_append.1 hopened
    refine ⟨forall_prefix_append.2 ⟨forall_prefix_append.2 ⟨hbefore, fun inner hinner => ?_⟩,
      fun more hmore => ?_⟩, ?_⟩
    · -- within the part, what is open before it is open still
      have hle := hbefore before List.prefix_rfl
      have hpart := h.opened inner hinner
      simp only [List.count_append]
      omega
    · have hle := hafter more hmore
      simp only [List.count_append] at hle ⊢
      omega
    · simp only [List.count_append] at hall ⊢
      omega

private theorem balanced_pair : Balanced (text "()") := by decide

variable {row rest : Text}

/-- Deleting pairs leaves a row balanced, or out of balance. -/
private theorem balanced_iff_of_drops (h : ReflTransGen (Text.Drops (Eq (text "()"))) row rest) :
    Balanced rest ↔ Balanced row := by
  induction h with
  | refl => exact Iff.rfl
  | tail _ hstep ih =>
      obtain ⟨hpair, before, after⟩ := hstep
      subst hpair
      rw [← ih, balanced_append_iff balanced_pair]

/-- What a row lacks, or has too much, does not change. -/
theorem excess_of_drops (h : ReflTransGen (Text.Drops (Eq (text "()"))) row rest) :
    (rest.count '(' : Int) - rest.count ')' = (row.count '(' : Int) - row.count ')' := by
  induction h with
  | refl => rfl
  | tail _ hstep ih =>
      obtain ⟨hpair, before, after⟩ := hstep
      subst hpair
      have hclosed := balanced_pair.closed
      simp only [List.count_append] at ih ⊢
      omega

-- ================================================================= phases

variable {t u : Text}

private theorem parens_append (t u : Text) : parens (t ++ u) = parens t ++ parens u :=
  List.filter_append t u

/-- A group is a pair once its blanks are left out. -/
private theorem IsGroup.parens_eq {word : Text} (h : IsGroup word) : parens word = text "()" := by
  obtain ⟨blanks, rfl, -, hblanks⟩ := h
  have hnone : parens blanks = [] := by
    apply List.filter_eq_nil_iff.2
    intro c hc hparen
    have hblank := hblanks c hc
    have hparen : c = '(' ∨ c = ')' := by simpa using hparen
    rcases hparen with rfl | rfl
    · cases hblank
    · cases hblank
  show '(' :: parens (blanks ++ [')']) = text "()"
  rw [parens_append, hnone]
  rfl

/-- Deleting blank groups is deleting pairs from the row. -/
theorem drops_parens (h : ReflTransGen (Text.Drops IsGroup) t u) :
    ReflTransGen (Text.Drops (Eq (text "()"))) (parens t) (parens u) := by
  induction h with
  | refl => exact .refl
  | tail _ hstep ih =>
      obtain ⟨hgroup, before, after⟩ := hstep
      refine ih.tail ?_
      rw [parens_append, parens_append, parens_append]
      exact .word hgroup.parens_eq.symm (parens before) (parens after)

/-- A word may be replaced by another one with the same parentheses. -/
theorem parens_replaceAll {pattern replacement : Text} (h : parens replacement = parens pattern)
    (t : Text) : parens (Text.replaceAll pattern replacement t) = parens t := by
  fun_induction Text.replaceAll pattern replacement t with
  | case1 => rfl
  | case2 => rfl
  | case3 t before after hcut _ ih =>
      rw [Text.eq_of_cut? hcut]
      simp only [parens_append, h, ih]

private theorem parens_closeGaps (t : Text) : parens (closeGaps t) = parens t := by
  fun_induction closeGaps t with
  | case1 t _ ih => rw [ih, parens_replaceAll (by decide)]
  | case2 => rfl

/-- The row of parentheses is kept, apart from pairs that stand side by
side. -/
theorem drops_parens_conditions (t : Text) :
    ReflTransGen (Text.Drops (Eq (text "()"))) (parens t) (parens (conditions t)) := by
  have hkept : parens (conditions t) = parens (removeAllGroups t) := by
    rw [conditions, parens_replaceAll (by decide), parens_closeGaps]
  rw [hkept]
  exact drops_parens (drops_removeAllGroups t)

private theorem count_parens (t : Text) :
    (parens t).count '(' = t.count '(' ∧ (parens t).count ')' = t.count ')' :=
  ⟨List.count_filter rfl, List.count_filter rfl⟩

/-- The parentheses of a text are balanced exactly if they are once its
conditions are tidied, and whether they are or not, as many more are opened
than closed. -/
theorem conditions_keep_balance (t : Text) :
    let out := conditions t
    (Balanced (parens out) ↔ Balanced (parens t)) ∧
    (out.count '(' : Int) - out.count ')' = (t.count '(' : Int) - t.count ')' := by
  intro out
  have hdrops := drops_parens_conditions t
  refine ⟨balanced_iff_of_drops hdrops, ?_⟩
  have hexcess := excess_of_drops hdrops
  rw [(count_parens t).1, (count_parens t).2, (count_parens out).1, (count_parens out).2] at hexcess
  exact hexcess

end TaggedSource.Tidy

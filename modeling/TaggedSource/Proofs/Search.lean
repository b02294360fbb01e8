/-
Laws of the literal search `cut?`.

A search either skips a stretch of text or stops in front of the pattern.
`cut?_append_of_skip` is the first half: if the pattern begins at no place
of a stretch, the search goes on behind it. `cut?_self_append` is the
second. Whoever knows how a text is made up finds the first occurrence of
a pattern by these two alone, without opening `cut?` again.

Conversely a search that found something passed over no occurrence
(`not_lead_of_cut?`), and one that found nothing tells that there is none
(`occursIn_iff`).
-/
import TaggedSource.Text

namespace TaggedSource.Text

-- ============================================================ leads

/-- No lead comes off a text that does not begin with it. -/
theorem dropLead?_eq_none {lead t : Text} :
    dropLead? lead t = none ↔ ¬ lead <+: t := by
  constructor
  · intro hnone hlead
    obtain ⟨rest, hrest⟩ := hlead
    rw [dropLead?_eq_some.2 hrest.symm] at hnone
    cases hnone
  · intro hlead
    cases hdrop : dropLead? lead t with
    | none => rfl
    | some rest =>
        exact absurd ⟨rest, (dropLead?_eq_some.1 hdrop).symm⟩ hlead

theorem byteSize_pos {t : Text} (h : t ≠ []) : 0 < byteSize t := by
  cases t with
  | nil => exact absurd rfl h
  | cons c t =>
      have hpos := Char.utf8Size_pos c
      rw [byteSize, String.length_utf8EncodeChar]
      omega

-- ========================================================= the search

/-- The search stops in front of a pattern that begins the text. -/
theorem cut?_self_append (pattern rest : Text) :
    cut? pattern (pattern ++ rest) = some ([], rest) := by
  have hdrop : dropLead? pattern (pattern ++ rest) = some rest :=
    dropLead?_eq_some.2 rfl
  cases htext : pattern ++ rest with
  | nil =>
      rw [htext] at hdrop
      rw [cut?, hdrop]
      rfl
  | cons c t =>
      rw [htext] at hdrop
      rw [cut?, hdrop]

/-- The search moves on by a character where the pattern does not begin. -/
theorem cut?_cons_of_not_lead {pattern : Text} {c : Char} {t : Text}
    (h : ¬ pattern <+: c :: t) :
    cut? pattern (c :: t)
      = (cut? pattern t).map fun (before, after) => (c :: before, after) := by
  rw [cut?, dropLead?_eq_none.2 h]

/-- The search moves on behind a stretch in which the pattern begins
nowhere. -/
theorem cut?_append_of_skip {pattern stretch rest : Text}
    (h : ∀ s, s <:+ stretch → s ≠ [] → ¬ pattern <+: s ++ rest) :
    cut? pattern (stretch ++ rest)
      = (cut? pattern rest).map fun (before, after) => (stretch ++ before, after) := by
  induction stretch with
  | nil =>
      rw [List.nil_append]
      cases cut? pattern rest <;> rfl
  | cons c stretch ih =>
      have hhere : ¬ pattern <+: c :: (stretch ++ rest) :=
        h (c :: stretch) List.suffix_rfl (List.cons_ne_nil c stretch)
      have hlater := ih fun s hs => h s (hs.trans (List.suffix_cons c stretch))
      rw [List.cons_append, cut?_cons_of_not_lead hhere, hlater]
      cases cut? pattern rest <;> rfl

/-- The empty text holds no pattern with a character in it. -/
theorem cut?_nil {pattern : Text} (h : pattern ≠ []) : cut? pattern [] = none := by
  cases pattern with
  | nil => exact absurd rfl h
  | cons c pattern => rfl

/-- The pattern begins nowhere in what a search passed over. -/
theorem not_lead_of_cut? {pattern t before after : Text}
    (h : cut? pattern t = some (before, after)) :
    ∀ s, s <:+ before → s ≠ [] → ¬ pattern <+: s ++ (pattern ++ after) := by
  induction t generalizing before with
  | nil =>
      simp only [cut?, Option.map_eq_some_iff, Prod.mk.injEq] at h
      obtain ⟨rest, -, rfl, -⟩ := h
      intro s hs hne
      exact absurd (List.suffix_nil.1 hs) hne
  | cons c t ih =>
      unfold cut? at h
      split at h
      · cases h
        intro s hs hne
        exact absurd (List.suffix_nil.1 hs) hne
      next hdrop =>
        simp only [Option.map_eq_some_iff, Prod.mk.injEq] at h
        obtain ⟨⟨b, a⟩, hcut, rfl, rfl⟩ := h
        intro s hs hne
        rcases List.suffix_cons_iff.1 hs with rfl | hs
        · have htext : c :: b ++ (pattern ++ a) = c :: t := by simp [eq_of_cut? hcut]
          rw [htext]
          exact dropLead?_eq_none.1 hdrop
        · exact ih hcut s hs hne

/-- What a search found is the first occurrence: no other has less before
it. -/
theorem byteSize_le_of_cut? {pattern t before after : Text}
    (h : cut? pattern t = some (before, after)) {front rest : Text}
    (ht : t = front ++ pattern ++ rest) : byteSize before ≤ byteSize front := by
  have hsame : before ++ (pattern ++ after) = front ++ (pattern ++ rest) := by
    rw [← List.append_assoc, ← List.append_assoc, ← ht, eq_of_cut? h]
  rcases List.append_eq_append_iff.1 hsame with ⟨more, rfl, -⟩ | ⟨more, rfl, hmore⟩
  · simp
  · by_cases hnil : more = []
    · simp [hnil]
    · -- the search would have stopped in front of `more`
      have hlead : pattern <+: more ++ (pattern ++ after) := ⟨rest, hmore⟩
      exact absurd hlead (not_lead_of_cut? h more (List.suffix_append front more) hnil)

/-- A pattern is found exactly if it stands somewhere. -/
theorem occursIn_iff {pattern t : Text} : occursIn pattern t = true ↔ pattern <:+: t := by
  rw [occursIn, Option.isSome_iff_exists]
  constructor
  · rintro ⟨⟨before, after⟩, h⟩
    exact ⟨before, after, (eq_of_cut? h).symm⟩
  · intro h
    induction t with
    | nil =>
        obtain rfl := List.infix_nil.1 h
        exact ⟨([], []), rfl⟩
    | cons c t ih =>
        by_cases hlead : pattern <+: c :: t
        · obtain ⟨rest, hrest⟩ := hlead
          exact ⟨([], rest), hrest ▸ cut?_self_append pattern rest⟩
        · rcases List.infix_cons_iff.1 h with hlead' | hlater
          · exact absurd hlead' hlead
          · obtain ⟨⟨before, after⟩, hcut⟩ := ih hlater
            exact ⟨(c :: before, after), by rw [cut?_cons_of_not_lead hlead, hcut]; rfl⟩

theorem occursIn_eq_false_iff {pattern t : Text} :
    occursIn pattern t = false ↔ ¬ pattern <:+: t := by
  rw [← occursIn_iff, Bool.not_eq_true]

theorem occursIn_of_isInfix {pattern other t : Text} (hpart : other <:+: pattern)
    (h : occursIn other t = false) : occursIn pattern t = false := by
  cases hoccurs : occursIn pattern t with
  | false => rfl
  | true =>
      rw [occursIn_iff.2 (hpart.trans (occursIn_iff.1 hoccurs))] at h
      cases h

end TaggedSource.Text

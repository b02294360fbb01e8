/-
The loop of a feature.

One splice is taken apart once (`splice_cases`), and the loop is unfolded
once (`resolve_eq`). From these follow the two ways in which the loop ends
(`resolve_ends`): with no start marker left, or with one that has no end
marker behind it, which is then the orphan that it reports. What every
splice keeps, the loop keeps (`resolve_keeps`), and what every splice
commutes with, the loop commutes with (`resolve_map`); so do the loops of
several features, one after the other (`resolveAll_keeps`, `resolveAll_map`).

A loop never lengthens a text and never takes a report back, so a row of
loops leaves everything as it was only if each of them does
(`resolveAll_eq_self_iff`).
-/
import TaggedSource.Proofs.Search
import TaggedSource.Strip

namespace TaggedSource

-- ============================================================ one splice

/-- The text that a splice leaves, if it changes anything. -/
def Splice.after? : Splice → Option Text
  | .remove t | .guard t => some t
  | .none | .orphan _ => Option.none

namespace Feature

variable (f : Feature)

/-- All that a splice can come to. -/
theorem splice_cases (t : Text) :
    (Text.cut? (f.token .start) t = none ∧ f.splice t = .none) ∨
    (∃ before rest, Text.cut? (f.token .start) t = some (before, rest) ∧
      Text.cut? (f.token .finish) rest = none ∧ f.splice t = .orphan (Text.byteSize before)) ∨
    (∃ before rest body after, Text.cut? (f.token .start) t = some (before, rest) ∧
      Text.cut? (f.token .finish) rest = some (body, after) ∧
      Text.cut? (f.token .leave) body = none ∧ f.splice t = .remove (before ++ after)) ∨
    (∃ before rest body after gated fallback,
      Text.cut? (f.token .start) t = some (before, rest) ∧
      Text.cut? (f.token .finish) rest = some (body, after) ∧
      Text.cut? (f.token .leave) body = some (gated, fallback) ∧
      f.splice t = .guard (before ++ guardOpen ++ fallback ++ guardClose ++ after)) := by
  unfold splice
  cases hstart : Text.cut? (f.token .start) t with
  | none => exact .inl ⟨rfl, rfl⟩
  | some parts =>
      obtain ⟨before, rest⟩ := parts
      right
      cases hfinish : Text.cut? (f.token .finish) rest with
      | none => exact .inl ⟨before, rest, rfl, hfinish, by simp only [hfinish]⟩
      | some parts =>
          obtain ⟨body, after⟩ := parts
          right
          cases hleave : Text.cut? (f.token .leave) body with
          | none => exact .inl ⟨before, rest, body, after, rfl, hfinish, hleave, by
              simp only [hfinish, hleave]⟩
          | some parts =>
              obtain ⟨gated, fallback⟩ := parts
              exact .inr ⟨before, rest, body, after, gated, fallback, rfl, hfinish, hleave, by
                simp only [hfinish, hleave]⟩

variable {f}

/-- There is nothing to splice exactly if there is no start marker. -/
theorem splice_eq_none_iff {t : Text} :
    f.splice t = .none ↔ Text.occursIn (f.token .start) t = false := by
  rw [Text.occursIn]
  rcases f.splice_cases t with ⟨hcut, h⟩ | ⟨_, _, hcut, -, h⟩ | ⟨_, _, _, _, hcut, -, -, h⟩ |
    ⟨_, _, _, _, _, _, hcut, -, -, h⟩ <;> simp [hcut, h]

/-- A splice that changes a text shortens it. -/
theorem length_of_splice {t u : Text} (h : (f.splice t).after? = some u) :
    u.length < t.length := by
  cases hsplice : f.splice t with
  | remove v =>
      obtain rfl : v = u := by simpa [hsplice, Splice.after?] using h
      exact length_of_splice_remove hsplice
  | guard v =>
      obtain rfl : v = u := by simpa [hsplice, Splice.after?] using h
      exact length_of_splice_guard hsplice
  | _ => simp [hsplice, Splice.after?] at h

-- ============================================================== the loop

/-- One round of a feature, and the rounds behind it. -/
theorem resolve_eq (s : Stripped) :
    f.resolve s =
      match f.splice s.text with
      | .none => s
      | .orphan offset => { s with unbalanced := s.unbalanced ++ [⟨f.id, offset⟩] }
      | .remove t => f.resolve { s with text := t, removed := s.removed + 1 }
      | .guard t => f.resolve { s with text := t, guarded := s.guarded + 1 } := by
  rw [resolve]
  split <;> next h => simp only [h]

/-- The loop of a feature has nothing to do where no region of it is. -/
theorem resolve_of_splice_none {s : Stripped} (h : f.splice s.text = .none) :
    f.resolve s = s := by
  rw [resolve_eq, h]

theorem resolve_of_splice_remove {s : Stripped} {t : Text} (h : f.splice s.text = .remove t) :
    f.resolve s = f.resolve { s with text := t, removed := s.removed + 1 } := by
  rw [resolve_eq, h]

theorem resolve_of_splice_guard {s : Stripped} {t : Text} (h : f.splice s.text = .guard t) :
    f.resolve s = f.resolve { s with text := t, guarded := s.guarded + 1 } := by
  rw [resolve_eq, h]

/-- The two ways in which the loop ends. -/
theorem resolve_ends (s : Stripped) :
    (f.splice (f.resolve s).text = .none ∧ (f.resolve s).unbalanced = s.unbalanced) ∨
    (∃ offset, f.splice (f.resolve s).text = .orphan offset ∧
      (f.resolve s).unbalanced = s.unbalanced ++ [⟨f.id, offset⟩]) := by
  fun_induction f.resolve s with
  | case1 s h => exact .inl ⟨h, rfl⟩
  | case2 s offset h => exact .inr ⟨offset, h, rfl⟩
  | case3 s t _ ih => exact ih
  | case4 s t _ ih => exact ih

/-- What every splice of a text keeps, the loop keeps. -/
theorem resolve_keeps {P : Text → Prop}
    (hstep : ∀ t u, P t → (f.splice t).after? = some u → P u) {s : Stripped} (h : P s.text) :
    P (f.resolve s).text := by
  fun_induction f.resolve s with
  | case1 s _ => exact h
  | case2 s _ _ => exact h
  | case3 s t hsplice ih => exact ih (hstep s.text t h (by rw [hsplice]; rfl))
  | case4 s t hsplice ih => exact ih (hstep s.text t h (by rw [hsplice]; rfl))

/-- A round that changes the text is followed by another. -/
private theorem resolve_of_after?_some {s : Stripped} {t : Text}
    (h : (f.splice s.text).after? = some t) :
    ∃ next : Stripped, next.text = t ∧ f.resolve s = f.resolve next := by
  rw [resolve_eq]
  cases hsplice : f.splice s.text with
  | remove u =>
      obtain rfl : u = t := by simpa [hsplice, Splice.after?] using h
      exact ⟨{ s with text := u, removed := s.removed + 1 }, rfl, rfl⟩
  | guard u =>
      obtain rfl : u = t := by simpa [hsplice, Splice.after?] using h
      exact ⟨{ s with text := u, guarded := s.guarded + 1 }, rfl, rfl⟩
  | none =>
      rw [hsplice] at h
      cases h
  | orphan offset =>
      rw [hsplice] at h
      cases h

private theorem text_resolve_of_after?_none {s : Stripped} (h : (f.splice s.text).after? = none) :
    (f.resolve s).text = s.text := by
  rw [resolve_eq]
  cases hsplice : f.splice s.text with
  | none => rfl
  | orphan offset => rfl
  | remove t =>
      rw [hsplice] at h
      cases h
  | guard t =>
      rw [hsplice] at h
      cases h

/-- What every splice commutes with, the loop commutes with. -/
theorem resolve_map {g : Text → Text}
    (hstep : ∀ t, (f.splice (g t)).after? = (f.splice t).after?.map g) {s s' : Stripped}
    (h : s'.text = g s.text) : (f.resolve s').text = g (f.resolve s).text := by
  cases hafter : (f.splice s.text).after? with
  | none =>
      have hafter' : (f.splice s'.text).after? = none := by rw [h, hstep, hafter]; rfl
      rw [text_resolve_of_after?_none hafter, text_resolve_of_after?_none hafter', h]
  | some t =>
      have hafter' : (f.splice s'.text).after? = some (g t) := by rw [h, hstep, hafter]; rfl
      obtain ⟨next, hnext, hs⟩ := resolve_of_after?_some hafter
      obtain ⟨next', hnext', hs'⟩ := resolve_of_after?_some hafter'
      have hshorter : next.text.length < s.text.length := hnext ▸ length_of_splice hafter
      rw [hs, hs']
      exact resolve_map hstep (by rw [hnext', hnext])
termination_by s.text.length

private theorem length_resolve_le (s : Stripped) : (f.resolve s).text.length ≤ s.text.length :=
  resolve_keeps (P := fun t => t.length ≤ s.text.length)
    (fun _ _ hle hsplice => Nat.le_trans (Nat.le_of_lt (length_of_splice hsplice)) hle)
    (Nat.le_refl _)

/-- What was found out of balance stays on the list. -/
private theorem unbalanced_isPrefixOf_resolve (s : Stripped) :
    s.unbalanced <+: (f.resolve s).unbalanced := by
  rcases f.resolve_ends s with ⟨-, h⟩ | ⟨offset, -, h⟩
  · exact ⟨[], by rw [h, List.append_nil]⟩
  · exact ⟨[⟨f.id, offset⟩], h.symm⟩

/-- The loop that neither shortens the text nor reports anything has found
no start marker. -/
theorem splice_eq_none_of_resolve {s : Stripped}
    (hlength : s.text.length ≤ (f.resolve s).text.length)
    (hunbalanced : (f.resolve s).unbalanced.length ≤ s.unbalanced.length) :
    f.splice s.text = .none := by
  rw [resolve_eq] at hlength hunbalanced
  cases h : f.splice s.text with
  | none => rfl
  | orphan offset =>
      simp only [h, List.length_append, List.length_singleton] at hunbalanced
      omega
  | remove t =>
      have hle := f.length_resolve_le { s with text := t, removed := s.removed + 1 }
      have hlt := length_of_splice_remove h
      simp only [h] at hlength hle
      omega
  | guard t =>
      have hle := f.length_resolve_le { s with text := t, guarded := s.guarded + 1 }
      have hlt := length_of_splice_guard h
      simp only [h] at hlength hle
      omega

end Feature

-- ========================================================== all features

/-- The loops of some features, one after the other. -/
def resolveAll (features : List Feature) (s : Stripped) : Stripped :=
  features.foldl (fun s f => f.resolve s) s

theorem strip_eq (features : List Feature) (t : Text) :
    strip features t = resolveAll features { text := t } := rfl

/-- Features are resolved in their order. -/
theorem resolveAll_append (features others : List Feature) (s : Stripped) :
    resolveAll (features ++ others) s = resolveAll others (resolveAll features s) :=
  List.foldl_append

/-- What every splice of a text keeps, the loops keep. -/
theorem resolveAll_keeps {features : List Feature} {P : Text → Prop}
    (hstep : ∀ f ∈ features, ∀ t u, P t → (f.splice t).after? = some u → P u) {s : Stripped}
    (h : P s.text) : P (resolveAll features s).text := by
  induction features generalizing s with
  | nil => exact h
  | cons f features ih =>
      obtain ⟨hf, hfeatures⟩ := List.forall_mem_cons.1 hstep
      exact ih hfeatures (Feature.resolve_keeps hf h)

/-- What every splice commutes with, the loops commute with. -/
theorem resolveAll_map {features : List Feature} {g : Text → Text}
    (hstep : ∀ f ∈ features, ∀ t, (f.splice (g t)).after? = (f.splice t).after?.map g)
    {s s' : Stripped} (h : s'.text = g s.text) :
    (resolveAll features s').text = g (resolveAll features s).text := by
  induction features generalizing s s' with
  | nil => exact h
  | cons f features ih =>
      obtain ⟨hf, hfeatures⟩ := List.forall_mem_cons.1 hstep
      exact ih hfeatures (Feature.resolve_map hf h)

/-- Loops do not lengthen a text, and take no report back. -/
theorem resolveAll_le (features : List Feature) (s : Stripped) :
    (resolveAll features s).text.length ≤ s.text.length ∧
      s.unbalanced <+: (resolveAll features s).unbalanced := by
  induction features generalizing s with
  | nil => exact ⟨Nat.le_refl _, List.prefix_rfl⟩
  | cons f features ih =>
      obtain ⟨hlength, hunbalanced⟩ := ih (f.resolve s)
      exact ⟨Nat.le_trans hlength (f.length_resolve_le s),
        (f.unbalanced_isPrefixOf_resolve s).trans hunbalanced⟩

/-- Loops leave everything as it was exactly if none of them finds a start
marker. -/
theorem resolveAll_eq_self_iff {features : List Feature} {s : Stripped} :
    resolveAll features s = s ↔
      ∀ f ∈ features, Text.occursIn (f.token .start) s.text = false := by
  induction features with
  | nil => simp [resolveAll]
  | cons f features ih =>
      rw [List.forall_mem_cons, ← ih]
      constructor
      · intro h
        -- what the other loops leave is no longer than what the first leaves
        obtain ⟨hlength, hunbalanced⟩ := resolveAll_le features (f.resolve s)
        have hself : resolveAll features (f.resolve s) = s := h
        rw [hself] at hlength hunbalanced
        have hnone := Feature.splice_eq_none_of_resolve hlength hunbalanced.length_le
        rw [Feature.resolve_of_splice_none hnone] at hself
        exact ⟨Feature.splice_eq_none_iff.1 hnone, hself⟩
      · rintro ⟨hfirst, hrest⟩
        show resolveAll features (f.resolve s) = s
        rw [Feature.resolve_of_splice_none (Feature.splice_eq_none_iff.2 hfirst), hrest]

end TaggedSource

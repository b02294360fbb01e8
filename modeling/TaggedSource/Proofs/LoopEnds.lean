/-
How the loops of features come to an end, and what is left then.

# What the last loop leaves

A loop ends at a text that it has nothing more to do with: without a start
marker of its feature, or with an orphan in front of all others. No loop
comes behind the last one, so what it has found is still true of the text
at the end, whatever the text and the features are (`last_feature_resolved`).
A feature alone is its own last one, so stripping for it twice is stripping
once.

# What a round costs

A round puts at most 52 bytes in the place of three tokens of 18 bytes or
more, and nothing in the place of two. With 36 bytes for each deletion and 2
for each guard added to the size of the text (`Stripped.weight`), no round
makes a state heavier (`Round.weight_le`), so no loop does, and no row of
loops. The text gets smaller in each round, so there is no endless row of
rounds (`wellFounded_round`); this asks nothing of ids and eyecatchers.
-/
import TaggedSource.Proofs.Orphans

namespace TaggedSource

-- ============================================================ the last loop

private theorem strip_concat (features : List Feature) (f : Feature) (t : Text) :
    strip (features ++ [f]) t = f.resolve (strip features t) := by
  rw [strip_eq, resolveAll_append]
  rfl

/-- An orphan is the first start marker, and no end marker begins behind
it. -/
theorem Feature.standsAt_of_splice_orphan {f : Feature} {t : Text} {offset : Nat}
    (h : f.splice t = .orphan offset) :
    StandsAt (f.token .start) t offset ∧
      (∀ other, StandsAt (f.token .start) t other → offset ≤ other) ∧
      ∀ other, StandsAt (f.token .finish) t other →
        other < offset + Text.byteSize (f.token .start) := by
  obtain ⟨front, rest, hstart, hfinish, rfl⟩ := cut?_of_splice_orphan h
  have ht := Text.eq_of_cut? hstart
  have hnone : Text.occursIn (f.token .finish) rest = false := by
    rw [Text.occursIn, hfinish]
    rfl
  refine ⟨⟨front, rest, ht, rfl⟩, ?_, ?_⟩
  · rintro other ⟨front', rest', ht', rfl⟩
    exact Text.byteSize_le_of_cut? hstart ht'
  · intro other hother
    rw [ht] at hother
    rw [← Text.byteSize_append]
    exact lt_of_not_occursIn hnone hother

/-- A loop finds nothing to resolve in a text that it has left. -/
theorem Feature.resolve_again (f : Feature) (t : Text) :
    let once := f.resolve { text := t }
    f.resolve { text := once.text }
      = { text := once.text, removed := 0, guarded := 0, unbalanced := once.unbalanced } := by
  intro once
  rw [resolve_eq]
  rcases f.resolve_ends { text := t } with ⟨hsplice, hreports⟩ | ⟨offset, hsplice, hreports⟩
  · simp only [once, hsplice, hreports]
  · simp only [once, hsplice, hreports]

/-- The last feature is resolved on every text: none of its start markers
is left and nothing is reported for it, or the last report is its own and
tells where the first of them stands, with no end marker behind it. So
stripping again for the same feature alone finds nothing to resolve. -/
theorem last_feature_resolved (features : List Feature) (f : Feature) (t : Text) :
    let before := strip features t
    let out := strip (features ++ [f]) t
    (¬ f.token .start <:+: out.text ∧ out.unbalanced = before.unbalanced ∨
      ∃ offset, out.unbalanced = before.unbalanced ++ [⟨f.id, offset⟩] ∧
        StandsAt (f.token .start) out.text offset ∧
        (∀ other, StandsAt (f.token .start) out.text other → offset ≤ other) ∧
        ∀ other, StandsAt (f.token .finish) out.text other →
          other < offset + Text.byteSize (f.token .start)) ∧
    let once := strip [f] t
    strip [f] once.text
      = { text := once.text, removed := 0, guarded := 0, unbalanced := once.unbalanced } := by
  intro before out
  have hout : out = f.resolve before := strip_concat features f t
  refine ⟨?_, f.resolve_again t⟩
  rw [hout]
  rcases f.resolve_ends before with ⟨hsplice, hreports⟩ | ⟨offset, hsplice, hreports⟩
  · exact .inl ⟨Text.occursIn_eq_false_iff.1 (Feature.splice_eq_none_iff.1 hsplice), hreports⟩
  · exact .inr ⟨offset, hreports, Feature.standsAt_of_splice_orphan hsplice⟩

-- =============================================================== rounds

namespace Feature

/-- A round of a loop: the first region is resolved. -/
inductive Round (f : Feature) (s : Stripped) : Stripped → Prop where
  /-- The region is deleted. -/
  | remove {t : Text} (h : f.splice s.text = .remove t) :
      Round f s { s with text := t, removed := s.removed + 1 }
  /-- The region shrinks to its fallback. -/
  | guard {t : Text} (h : f.splice s.text = .guard t) :
      Round f s { s with text := t, guarded := s.guarded + 1 }

/-- A loop that ends after so many rounds. -/
inductive Ends (f : Feature) : Nat → Stripped → Stripped → Prop where
  /-- There is no start marker. -/
  | none {s : Stripped} (h : f.splice s.text = .none) : Ends f 0 s s
  /-- There is an orphan. -/
  | orphan {s : Stripped} {offset : Nat} (h : f.splice s.text = .orphan offset) :
      Ends f 0 s { s with unbalanced := s.unbalanced ++ [⟨f.id, offset⟩] }
  /-- There is a region, and the loop ends after it is resolved. -/
  | round {rounds : Nat} {s next last : Stripped} (h : f.Round s next)
      (hrest : Ends f rounds next last) : Ends f (rounds + 1) s last

private theorem byteSize_token (f : Feature) (mark : Mark) :
    Text.byteSize (f.token mark) = 18 + Text.byteSize f.id + Text.byteSize f.eyecatcher := by
  have hlead : Text.byteSize markerLead = 14 := by decide
  have htail : Text.byteSize markerTail = 2 := by decide
  have hletter : Text.byteSize ['-', mark.letter] = 2 := by cases mark <;> rfl
  simp only [token, Text.byteSize_append, hlead, htail, hletter]
  omega

/-- A deletion drops two tokens and the body between them. -/
theorem byteSize_of_splice_remove {f : Feature} {t u : Text} (h : f.splice t = .remove u) :
    Text.byteSize u + 36 ≤ Text.byteSize t := by
  rcases f.splice_cases t with ⟨-, hs⟩ | ⟨_, _, -, -, hs⟩ |
    ⟨before, rest, body, after, hstart, hfinish, -, hs⟩ | ⟨_, _, _, _, _, _, -, -, -, hs⟩ <;>
    rw [hs] at h <;> cases h
  rw [Text.eq_of_cut? hstart, Text.eq_of_cut? hfinish]
  simp only [Text.byteSize_append, byteSize_token]
  omega

/-- A guard drops three tokens and what is between the first two, and puts
two sentinels in their place. -/
theorem byteSize_of_splice_guard {f : Feature} {t u : Text} (h : f.splice t = .guard u) :
    Text.byteSize u + 2 ≤ Text.byteSize t := by
  rcases f.splice_cases t with ⟨-, hs⟩ | ⟨_, _, -, -, hs⟩ | ⟨_, _, _, _, -, -, -, hs⟩ |
    ⟨before, rest, body, after, gated, fallback, hstart, hfinish, hleave, hs⟩ <;>
    rw [hs] at h <;> cases h
  have hopen : Text.byteSize guardOpen = 27 := by decide
  have hclose : Text.byteSize guardClose = 25 := by decide
  rw [Text.eq_of_cut? hstart, Text.eq_of_cut? hfinish, Text.eq_of_cut? hleave]
  simp only [Text.byteSize_append, byteSize_token, hopen, hclose]
  omega

/-- A feature with neither id nor eyecatcher has the shortest tokens, and a
region of it that is all markers gets shorter by two bytes only. -/
example : (Feature.mk [] []).splice (text "/*Piranhito?@--S*//*Piranhito?@--L*//*Piranhito?@--E*/")
    = .guard (text "/*Piranhito?@-@FuncBegin@*//*Piranhito?@-@FuncEnd@*/") := by decide +kernel

end Feature

-- ============================================================== weights

/-- The size of a text, with what its rounds have paid. -/
def Stripped.weight (s : Stripped) : Nat :=
  Text.byteSize s.text + 36 * s.removed + 2 * s.guarded

namespace Feature

variable {f : Feature}

private theorem Round.weight_le {s next : Stripped} (h : f.Round s next) :
    next.weight ≤ s.weight := by
  cases h with
  | remove h =>
      have hsize := byteSize_of_splice_remove h
      simp only [Stripped.weight]
      omega
  | guard h =>
      have hsize := byteSize_of_splice_guard h
      simp only [Stripped.weight]
      omega

/-- No row of rounds goes on for ever: the text gets smaller. -/
theorem wellFounded_round (f : Feature) : WellFounded fun next s => f.Round s next := by
  refine Subrelation.wf (fun {next s} h => ?_) (measure fun s => Text.byteSize s.text).wf
  show Text.byteSize next.text < Text.byteSize s.text
  cases h with
  | remove h =>
      have hsize := byteSize_of_splice_remove h
      dsimp only
      omega
  | guard h =>
      have hsize := byteSize_of_splice_guard h
      dsimp only
      omega

/-- The loop of a feature ends, after a round for each region that it has
resolved. -/
theorem ends_resolve (f : Feature) (s : Stripped) :
    ∃ rounds, f.Ends rounds s (f.resolve s) ∧
      (f.resolve s).removed + (f.resolve s).guarded = s.removed + s.guarded + rounds := by
  fun_induction f.resolve s with
  | case1 s h => exact ⟨0, .none h, rfl⟩
  | case2 s offset h => exact ⟨0, .orphan h, rfl⟩
  | case3 s t h ih =>
      obtain ⟨rounds, hends, hcount⟩ := ih
      refine ⟨rounds + 1, .round (.remove h) hends, ?_⟩
      dsimp only at hcount
      omega
  | case4 s t h ih =>
      obtain ⟨rounds, hends, hcount⟩ := ih
      refine ⟨rounds + 1, .round (.guard h) hends, ?_⟩
      dsimp only at hcount
      omega

private theorem Ends.weight_le {rounds : Nat} {s last : Stripped} (h : f.Ends rounds s last) :
    last.weight ≤ s.weight := by
  induction h with
  | none => exact Nat.le_refl _
  | orphan => exact Nat.le_refl _
  | round h _ ih => exact Nat.le_trans ih h.weight_le

end Feature

private theorem weight_resolveAll_le (features : List Feature) (s : Stripped) :
    (resolveAll features s).weight ≤ s.weight := by
  induction features generalizing s with
  | nil => exact Nat.le_refl _
  | cons f features ih =>
      obtain ⟨rounds, hends, -⟩ := f.ends_resolve s
      exact Nat.le_trans (ih (f.resolve s)) hends.weight_le

/-- From no state there is an endless row of rounds, and the loop of every
further feature ends after a round for each region that it resolves. Each
round pays for itself, so the size of the text at the end, with 36 bytes for
each deletion and 2 for each guard, is within the size of the text. -/
theorem strip_pays_for_rounds (features : List Feature) (t : Text) :
    let out := strip features t
    (∀ f : Feature, (WellFounded fun next s => f.Round s next) ∧
      ∃ rounds, let last := strip (features ++ [f]) t
        f.Ends rounds out last ∧ last.removed + last.guarded = out.removed + out.guarded + rounds) ∧
    (∀ (f : Feature) (s next : Stripped), f.Round s next → next.weight ≤ s.weight) ∧
    Text.byteSize out.text + 36 * out.removed + 2 * out.guarded ≤ Text.byteSize t := by
  intro out
  refine ⟨fun f => ⟨f.wellFounded_round, ?_⟩, fun f s next h => h.weight_le, ?_⟩
  · rw [strip_concat]
    exact f.ends_resolve out
  · exact weight_resolveAll_le features { text := t }

end TaggedSource

/-
What a balanced strip promises.

Every feature's own loop leaves no start marker of it behind, if nothing is
reported. The loops of later features may bring one about: a deletion joins
what stood before a region to what stood behind it, and the two halves of a
marker with a region between them become a whole one. So the reports alone
do not say that the markers are gone (`joined_marker_survives`).

They are gone exactly if stripping the result once more finds nothing, and
always where no marker is broken to begin with, that is, in a row of
comments and plain texts: such a row is cut between its pieces only, and
what is put in are comments (`balanced_strip`).
-/
import TaggedSource.Proofs.Comment
import TaggedSource.Proofs.Reduction

namespace TaggedSource

-- ============================================================ own loops

/-- If nothing is reported, a feature's own loop leaves no start marker. -/
theorem not_occursIn_of_balanced {features before after : List Feature} {f : Feature} {t : Text}
    (h : (strip features t).balanced = true) (hsplit : features = before ++ f :: after) :
    Text.occursIn (f.token .start) (strip (before ++ [f]) t).text = false := by
  have hparts : strip features t = resolveAll after (strip (before ++ [f]) t) := by
    rw [strip_eq, strip_eq, ← resolveAll_append, hsplit, List.append_assoc, List.singleton_append]
  have hnone : (strip (before ++ [f]) t).unbalanced = [] := by
    have hprefix := (resolveAll_le after (strip (before ++ [f]) t)).2
    rw [← hparts, List.isEmpty_iff.1 h] at hprefix
    exact List.prefix_nil.1 hprefix
  have hlast : strip (before ++ [f]) t = f.resolve (strip before t) := by
    rw [strip_eq, resolveAll_append]
    rfl
  rw [hlast] at hnone ⊢
  rcases f.resolve_ends (strip before t) with ⟨hsplice, -⟩ | ⟨offset, -, hreported⟩
  · exact Feature.splice_eq_none_iff.1 hsplice
  · rw [hreported] at hnone
    simp at hnone

-- ================================================================= rows

/-- A comment that is found in a row is one of its pieces. -/
theorem exists_of_cut?_flatten {t b a : Text} {row : List Text} (ht : IsComment t)
    (hrow : IsRow row) (h : Text.cut? t row.flatten = some (b, a)) :
    ∃ before after, row = before ++ t :: after ∧ IsRow before ∧ IsRow after ∧
      b = before.flatten ∧ a = after.flatten := by
  have hmem : t ∈ row := by
    by_cases hmem : t ∈ row
    · exact hmem
    · rw [cut?_flatten_eq_none ht hrow hmem] at h
      cases h
  obtain ⟨before, after, rfl, hfirst⟩ := List.eq_append_cons_of_mem hmem
  obtain ⟨hbefore, hrest⟩ := isRow_append.1 hrow
  obtain ⟨-, hafter⟩ := isRow_cons.1 hrest
  rw [cut?_flatten ht hbefore hafter hfirst] at h
  cases h
  exact ⟨before, after, rfl, hbefore, hafter, rfl, rfl⟩

/-- A text is made of pieces of a row, and of sentinels. -/
def MadeOf (row : List Text) (t : Text) : Prop :=
  ∃ pieces, t = pieces.flatten ∧ IsRow pieces ∧
    ∀ p ∈ pieces, p ∈ row ∨ p = guardOpen ∨ p = guardClose

theorem madeOf_self {row : List Text} (h : IsRow row) : MadeOf row row.flatten :=
  ⟨row, rfl, h, fun _ hp => .inl hp⟩

/-- A splice cuts a row between its pieces, and puts sentinels in. -/
theorem MadeOf.splice {f : Feature} (hf : f.Proper) {row : List Text} {t u : Text}
    (h : MadeOf row t) (hsplice : (f.splice t).after? = some u) : MadeOf row u := by
  obtain ⟨pieces, rfl, hpieces, hfrom⟩ := h
  rcases f.splice_cases pieces.flatten with ⟨-, hs⟩ | ⟨_, _, -, -, hs⟩ |
    ⟨b, r, m, a, hstart, hfinish, -, hs⟩ | ⟨b, r, m, a, g, k, hstart, hfinish, hleave, hs⟩
  · rw [hs] at hsplice
    cases hsplice
  · rw [hs] at hsplice
    cases hsplice
  · obtain ⟨before, rest, rfl, hbefore, hrest, rfl, rfl⟩ :=
      exists_of_cut?_flatten (hf.isComment_token .start) hpieces hstart
    obtain ⟨body, after, rfl, -, hafter, rfl, rfl⟩ :=
      exists_of_cut?_flatten (hf.isComment_token .finish) hrest hfinish
    rw [hs] at hsplice
    cases hsplice
    refine ⟨before ++ after, by simp, isRow_append.2 ⟨hbefore, hafter⟩, fun p hp => ?_⟩
    apply hfrom p
    rcases List.mem_append.1 hp with hp | hp <;> simp [hp]
  · obtain ⟨before, rest, rfl, hbefore, hrest, rfl, rfl⟩ :=
      exists_of_cut?_flatten (hf.isComment_token .start) hpieces hstart
    obtain ⟨body, after, rfl, hbody, hafter, rfl, rfl⟩ :=
      exists_of_cut?_flatten (hf.isComment_token .finish) hrest hfinish
    obtain ⟨gated, fallback, rfl, -, hfallback, rfl, rfl⟩ :=
      exists_of_cut?_flatten (hf.isComment_token .leave) hbody hleave
    rw [hs] at hsplice
    cases hsplice
    refine ⟨before ++ guardOpen :: (fallback ++ guardClose :: after), by simp, ?_, fun p hp => ?_⟩
    · simp [hbefore, hfallback, hafter, IsPiece, isComment_guardOpen, isComment_guardClose]
    · -- a piece is a sentinel, or stood in one of the three stretches that are kept
      have hkept : p ∈ before ∨ p = guardOpen ∨ p ∈ fallback ∨ p = guardClose ∨ p ∈ after := by
        simpa using hp
      rcases hkept with hp | hp | hp | hp | hp
      · exact hfrom p (by simp [hp])
      · exact .inr (.inl hp)
      · exact hfrom p (by simp [hp])
      · exact .inr (.inr hp)
      · exact hfrom p (by simp [hp])

/-- Resolving features one after the other leaves a text made of the row. -/
theorem MadeOf.resolveAll {features : List Feature} (hf : ∀ f ∈ features, f.Proper)
    {row : List Text} {s : Stripped} (h : MadeOf row s.text) :
    MadeOf row (resolveAll features s).text :=
  resolveAll_keeps (fun f hmem _ _ hmade hsplice => hmade.splice (hf f hmem) hsplice) h

/-- Loops bring no token about in a row. -/
theorem not_occursIn_resolveAll {features : List Feature} (hfeatures : ∀ f ∈ features, f.Proper)
    {f : Feature} (hf : f.Proper) (mark : Mark) {row : List Text} (hrow : IsRow row)
    {s : Stripped} (hs : s.text = row.flatten)
    (h : Text.occursIn (f.token mark) s.text = false) :
    Text.occursIn (f.token mark) (resolveAll features s).text = false := by
  have hnot : f.token mark ∉ row := not_mem_of_not_occursIn (hf.isComment_token mark) hrow (hs ▸ h)
  obtain ⟨pieces, hpieces, hisRow, hfrom⟩ := MadeOf.resolveAll hfeatures (hs ▸ madeOf_self hrow)
  have hnot' : f.token mark ∉ pieces := by
    intro hmem
    rcases hfrom _ hmem with hin | hopen | hclose
    · exact hnot hin
    · exact f.token_ne_guardOpen mark hopen
    · exact f.token_ne_guardClose mark hclose
  rw [Text.occursIn, hpieces, cut?_flatten_eq_none (hf.isComment_token mark) hisRow hnot']
  rfl

-- ============================================================== promises

/-- If a strip reports nothing, then each feature's own loop has left no
start marker of it; no start marker of any feature is left at the end
exactly if stripping once more changes and reports nothing; and none is
left if the text was a row of comments and plain texts. -/
theorem balanced_strip (features : List Feature) (t : Text)
    (h : (strip features t).balanced = true) :
    let out := (strip features t).text
    (∀ before f after, features = before ++ f :: after →
      Text.occursIn (f.token .start) (strip (before ++ [f]) t).text = false) ∧
    ((∀ f ∈ features, Text.occursIn (f.token .start) out = false) ↔
      strip features out = { text := out }) ∧
    (∀ row, IsRow row → t = row.flatten → (∀ f ∈ features, f.Proper) →
      ∀ f ∈ features, Text.occursIn (f.token .start) out = false) := by
  intro out
  refine ⟨fun before f after hsplit => not_occursIn_of_balanced h hsplit, ?_, ?_⟩
  · exact (resolveAll_eq_self_iff (s := { text := out })).symm
  · intro row hrow ht hproper f hmem
    obtain ⟨before, after, hsplit⟩ := List.append_of_mem hmem
    have hown := not_occursIn_of_balanced h hsplit
    have hout : out = (resolveAll after (strip (before ++ [f]) t)).text := by
      show (strip features t).text = _
      rw [strip_eq, strip_eq, ← resolveAll_append, hsplit, List.append_assoc,
        List.singleton_append]
    -- what the own loop leaves is a row again, and the later loops start from there
    have hfirst : ∀ g ∈ before ++ [f], g.Proper := by
      intro g hg
      apply hproper
      rw [hsplit]
      rcases List.mem_append.1 hg with hg | hg
      · exact List.mem_append_left _ hg
      · rw [List.mem_singleton.1 hg]
        exact List.mem_append_right _ (.head _)
    have hlater : ∀ g ∈ after, g.Proper := fun g hg =>
      hproper g (hsplit ▸ List.mem_append_right _ (.tail _ hg))
    obtain ⟨pieces, hpieces, hisRow, -⟩ :=
      MadeOf.resolveAll hfirst (s := { text := t }) (ht ▸ madeOf_self hrow)
    rw [hout]
    exact not_occursIn_resolveAll hlater (hproper f hmem) .start hisRow hpieces hown

-- ============================================================ at two texts

/-- A feature whose regions are resolved first. -/
def tracer : Feature := ⟨text "Tracer", text "@O8gSAh@"⟩

/-- A feature whose regions are resolved behind them. -/
def logger : Feature := ⟨text "Logger", text "@85Lbt3@"⟩

/-- A region of each, side by side. -/
def sideBySide : List Text :=
  [text "a ", logger.token .start, text "x", logger.token .finish, tracer.token .start,
    text "y", tracer.token .finish, text " b"]

private theorem isRow_sideBySide : IsRow sideBySide := by
  have htracer (mark : Mark) : IsPiece (tracer.token mark) :=
    .inr (Feature.Proper.isComment_token (by decide) mark)
  have hlogger (mark : Mark) : IsPiece (logger.token mark) :=
    .inr (Feature.Proper.isComment_token (by decide) mark)
  have hplain : IsPlain (text "a ") ∧ IsPlain (text "x") ∧ IsPlain (text "y") ∧
      IsPlain (text " b") := by decide
  simp only [sideBySide, isRow_cons, isRow_nil, and_true, htracer, hlogger, true_and]
  exact ⟨.inl hplain.1, .inl hplain.2.1, .inl hplain.2.2.1, .inl hplain.2.2.2⟩

/-- The two regions are resolved one after the other. -/
private theorem strip_sideBySide :
    strip [tracer, logger] sideBySide.flatten = { text := text "a  b", removed := 2 } := by
  let kept := text "a " ++ logger.token .start ++ text "x" ++ logger.token .finish ++ text " b"
  have htracer : tracer.resolve { text := sideBySide.flatten } = { text := kept, removed := 1 } := by
    rw [Feature.resolve_of_splice_remove (t := kept) (by decide +kernel),
      Feature.resolve_of_splice_none (by decide +kernel)]
  have hlogger : logger.resolve { text := kept, removed := 1 }
      = { text := text "a  b", removed := 2 } := by
    rw [Feature.resolve_of_splice_remove (t := text "a  b") (by decide +kernel),
      Feature.resolve_of_splice_none (by decide +kernel)]
  show logger.resolve (tracer.resolve _) = _
  rw [htracer, hlogger]

theorem balanced_strip_sideBySide :
    (strip [tracer, logger] sideBySide.flatten).balanced = true ∧
      Text.occursIn (tracer.token .start) (strip [tracer] sideBySide.flatten).text = false ∧
      Text.occursIn (tracer.token .start) (text "a  b") = false ∧
      strip [tracer, logger] (text "a  b") = { text := text "a  b" } := by
  have hbalanced : (strip [tracer, logger] sideBySide.flatten).balanced = true := by
    rw [strip_sideBySide]
    rfl
  obtain ⟨hown, hagain, hgone⟩ := balanced_strip [tracer, logger] sideBySide.flatten hbalanced
  have hgone := hgone sideBySide isRow_sideBySide rfl (by decide)
  refine ⟨hbalanced, hown [] tracer [logger] rfl, ?_, ?_⟩
  · have htracer := hgone tracer (.head _)
    rwa [strip_sideBySide] at htracer
  · have hsame := hagain.1 hgone
    rwa [strip_sideBySide] at hsame

/-- A marker of the first feature with a region of the second inside it,
and the end of the region that the marker opens. -/
def brokenMarker : Text :=
  (tracer.token .start).take 9 ++ logger.token .start ++ logger.token .finish ++
    (tracer.token .start).drop 9 ++ text "x" ++ tracer.token .finish ++ text "y"

/-- The same with the marker whole. -/
def joinedMarker : Text :=
  tracer.token .start ++ text "x" ++ tracer.token .finish ++ text "y"

/-- Resolving the second feature makes the marker of the first whole: the
strip is balanced, a start marker is left, and stripping once more deletes
a region. -/
theorem joined_marker_survives :
    (∀ f ∈ [tracer, logger], f.id ≠ [] ∧ f.eyecatcher ≠ []) ∧
      (strip [tracer, logger] brokenMarker).balanced = true ∧
      Text.occursIn (tracer.token .start) (strip [tracer, logger] brokenMarker).text = true ∧
      (strip [tracer, logger] (strip [tracer, logger] brokenMarker).text).text
        ≠ (strip [tracer, logger] brokenMarker).text := by
  have hjoined : strip [tracer, logger] brokenMarker = { text := joinedMarker, removed := 1 } := by
    have htracer : tracer.resolve { text := brokenMarker } = { text := brokenMarker } :=
      Feature.resolve_of_splice_none (by decide +kernel)
    show logger.resolve (tracer.resolve _) = _
    rw [htracer, Feature.resolve_of_splice_remove (t := joinedMarker) (by decide +kernel),
      Feature.resolve_of_splice_none (by decide +kernel)]
  have hagain : strip [tracer, logger] joinedMarker = { text := text "y", removed := 1 } := by
    have htracer : tracer.resolve { text := joinedMarker } = { text := text "y", removed := 1 } := by
      rw [Feature.resolve_of_splice_remove (t := text "y") (by decide +kernel),
        Feature.resolve_of_splice_none (by decide +kernel)]
    show logger.resolve (tracer.resolve _) = _
    rw [htracer, Feature.resolve_of_splice_none (by decide +kernel)]
  rw [hjoined, hagain]
  exact ⟨by decide, rfl, by decide +kernel, by decide +kernel⟩

end TaggedSource

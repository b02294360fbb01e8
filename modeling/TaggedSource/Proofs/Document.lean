/-
Documents: tagged sources as they are meant, and what stripping makes of
them.

A document is a row of nodes. A node is a fragment of text, a region of a
feature (with a fallback or without) around further documents, or a kept
document between the two guard sentinels. `render` writes a document down
with its markers; `resolve` says, by recursion over the nesting, what is
left of it once some features are disabled. Stripping knows nothing of the
nesting: it searches the flat text and splices, one feature at a time. The
main result, `strip_render`, is that it comes to the same.

# The argument

The pieces of a document (its fragments, tokens and sentinels) form a row
in the sense of `Comment.lean`, so a search for a token finds the first
piece that is that token. Of a disabled feature's regions the first in the
text is therefore found whole: no token of the feature stands in its body
or fallback, since regions of one feature are not nested (`splice_remove`,
`splice_guard`). `settles_resolve` follows the loop of `Feature.resolve`
through a document, by induction over the nodes: whatever stands in front
of a node holds no start marker of the feature any more, and what stands
behind it is not looked at, so that stretches are settled one after the
other (`Settles.append`). One feature after the other then gives what all
of them give at once (`resolve_resolve`).
-/
import TaggedSource.Proofs.Comment
import TaggedSource.Proofs.Reduction

namespace TaggedSource

/-- A tagged source: each constructor puts one node in front of the rest. -/
inductive Document where
  /-- No node. -/
  | empty
  /-- A fragment of text. -/
  | fragment (content : Text) (rest : Document)
  /-- A region of a feature, without a fallback. -/
  | region (feature : Feature) (body rest : Document)
  /-- A region of a feature and its fallback. -/
  | choice (feature : Feature) (body fallback rest : Document)
  /-- A document kept between the guard sentinels. -/
  | guarded (kept rest : Document)
  deriving DecidableEq, Repr

namespace Document

-- ====================================================== the vocabulary

/-- A document as it is written. -/
def render : Document → Text
  | empty => []
  | fragment content rest => content ++ rest.render
  | region feature body rest =>
    feature.token .start ++ body.render ++ feature.token .finish ++ rest.render
  | choice feature body fallback rest =>
    feature.token .start ++ body.render ++ feature.token .leave ++ fallback.render ++
      feature.token .finish ++ rest.render
  | guarded kept rest => guardOpen ++ kept.render ++ guardClose ++ rest.render

/-- The document that is left once some features are disabled: a region of
a disabled feature is gone, or its fallback is kept. -/
def resolve (disabled : List Feature) : Document → Document
  | empty => empty
  | fragment content rest => fragment content (rest.resolve disabled)
  | region feature body rest =>
    if feature ∈ disabled then
      rest.resolve disabled
    else
      region feature (body.resolve disabled) (rest.resolve disabled)
  | choice feature body fallback rest =>
    if feature ∈ disabled then
      guarded (fallback.resolve disabled) (rest.resolve disabled)
    else
      choice feature (body.resolve disabled) (fallback.resolve disabled)
        (rest.resolve disabled)
  | guarded kept rest => guarded (kept.resolve disabled) (rest.resolve disabled)

/-- The features of the regions in a document, at any depth. -/
def features : Document → List Feature
  | empty => []
  | fragment _ rest => rest.features
  | region feature body rest => feature :: body.features ++ rest.features
  | choice feature body fallback rest =>
    feature :: body.features ++ fallback.features ++ rest.features
  | guarded kept rest => kept.features ++ rest.features

/-- A document whose fragments are plain, whose features are proper, and
in which no region lies inside another one of the same feature. -/
def WellNested : Document → Prop
  | empty => True
  | fragment content rest => IsPlain content ∧ rest.WellNested
  | region feature body rest =>
    feature.Proper ∧ feature ∉ body.features ∧ body.WellNested ∧ rest.WellNested
  | choice feature body fallback rest =>
    feature.Proper ∧ feature ∉ body.features ∧ feature ∉ fallback.features ∧
      body.WellNested ∧ fallback.WellNested ∧ rest.WellNested
  | guarded kept rest => kept.WellNested ∧ rest.WellNested

/-- Whether a document is well nested can be found out. -/
instance decideWellNested : (document : Document) → Decidable document.WellNested
  | empty => inferInstanceAs (Decidable True)
  | fragment content rest =>
    have := decideWellNested rest
    inferInstanceAs (Decidable (IsPlain content ∧ rest.WellNested))
  | region feature body rest =>
    have := decideWellNested body
    have := decideWellNested rest
    inferInstanceAs (Decidable
      (feature.Proper ∧ feature ∉ body.features ∧ body.WellNested ∧ rest.WellNested))
  | choice feature body fallback rest =>
    have := decideWellNested body
    have := decideWellNested fallback
    have := decideWellNested rest
    inferInstanceAs (Decidable
      (feature.Proper ∧ feature ∉ body.features ∧ feature ∉ fallback.features ∧
        body.WellNested ∧ fallback.WellNested ∧ rest.WellNested))
  | guarded kept rest =>
    have := decideWellNested kept
    have := decideWellNested rest
    inferInstanceAs (Decidable (kept.WellNested ∧ rest.WellNested))

-- ============================================================== pieces

/-- The fragments, tokens and sentinels of a document, first to last. -/
def pieces : Document → List Text
  | empty => []
  | fragment content rest => content :: rest.pieces
  | region feature body rest =>
    feature.token .start :: body.pieces ++ feature.token .finish :: rest.pieces
  | choice feature body fallback rest =>
    feature.token .start :: body.pieces ++ feature.token .leave :: fallback.pieces ++
      feature.token .finish :: rest.pieces
  | guarded kept rest => guardOpen :: kept.pieces ++ guardClose :: rest.pieces

/-- The pieces make up the text. -/
theorem render_eq_flatten (document : Document) :
    document.render = document.pieces.flatten := by
  induction document with
  | empty => rfl
  | fragment content rest ih =>
      rw [render, pieces, List.flatten_cons, ih]
  | region feature body rest ihb ihr =>
      rw [render, pieces, ihb, ihr]
      simp
  | choice feature body fallback rest ihb ihf ihr =>
      rw [render, pieces, ihb, ihf, ihr]
      simp
  | guarded kept rest ihk ihr =>
      rw [render, pieces, ihk, ihr]
      simp

/-- The pieces of a well-nested document form a row. -/
theorem WellNested.isRow {document : Document} (h : document.WellNested) :
    IsRow document.pieces := by
  induction document with
  | empty => exact isRow_nil
  | fragment content rest ih =>
      obtain ⟨hcontent, hrest⟩ := h
      exact isRow_cons.2 ⟨.inl hcontent, ih hrest⟩
  | region feature body rest ihb ihr =>
      obtain ⟨hproper, -, hbody, hrest⟩ := h
      have htoken (mark : Mark) : IsPiece (feature.token mark) :=
        .inr (hproper.isComment_token mark)
      simp [pieces, htoken, ihb hbody, ihr hrest]
  | choice feature body fallback rest ihb ihf ihr =>
      obtain ⟨hproper, -, -, hbody, hfallback, hrest⟩ := h
      have htoken (mark : Mark) : IsPiece (feature.token mark) :=
        .inr (hproper.isComment_token mark)
      simp [pieces, htoken, ihb hbody, ihf hfallback, ihr hrest]
  | guarded kept rest ihk ihr =>
      obtain ⟨hkept, hrest⟩ := h
      have hopen : IsPiece guardOpen := .inr isComment_guardOpen
      have hclose : IsPiece guardClose := .inr isComment_guardClose
      simp [pieces, hopen, hclose, ihk hkept, ihr hrest]

/-- The tokens of a feature stand only in documents with a region of it. -/
theorem WellNested.token_not_mem {document : Document} (h : document.WellNested)
    {f : Feature} (hf : f.Proper) (hmem : f ∉ document.features) (mark : Mark) :
    f.token mark ∉ document.pieces := by
  induction document with
  | empty => exact List.not_mem_nil
  | fragment content rest ih =>
      obtain ⟨hcontent, hrest⟩ := h
      intro hp
      rcases List.mem_cons.1 hp with heq | hp
      · exact (hf.isComment_token mark).not_isPlain (heq ▸ hcontent)
      · exact ih hrest hmem hp
  | region feature body rest ihb ihr =>
      obtain ⟨hproper, -, hbody, hrest⟩ := h
      simp only [features, List.cons_append, List.mem_cons, List.mem_append, not_or] at hmem
      obtain ⟨hne, hmb, hmr⟩ := hmem
      intro hp
      simp only [pieces, List.cons_append, List.mem_cons, List.mem_append] at hp
      rcases hp with heq | hp | heq | hp
      · exact hne (Feature.token_inj hf hproper heq).1
      · exact ihb hbody hmb hp
      · exact hne (Feature.token_inj hf hproper heq).1
      · exact ihr hrest hmr hp
  | choice feature body fallback rest ihb ihf ihr =>
      obtain ⟨hproper, -, -, hbody, hfallback, hrest⟩ := h
      simp only [features, List.cons_append, List.mem_cons, List.mem_append, not_or] at hmem
      obtain ⟨hne, ⟨hmb, hmf⟩, hmr⟩ := hmem
      intro hp
      simp only [pieces, List.cons_append, List.mem_cons, List.mem_append] at hp
      rcases hp with heq | (hp | heq | hp) | heq | hp
      · exact hne (Feature.token_inj hf hproper heq).1
      · exact ihb hbody hmb hp
      · exact hne (Feature.token_inj hf hproper heq).1
      · exact ihf hfallback hmf hp
      · exact hne (Feature.token_inj hf hproper heq).1
      · exact ihr hrest hmr hp
  | guarded kept rest ihk ihr =>
      obtain ⟨hkept, hrest⟩ := h
      simp only [features, List.mem_append, not_or] at hmem
      intro hp
      simp only [pieces, List.cons_append, List.mem_cons, List.mem_append] at hp
      rcases hp with heq | hp | heq | hp
      · exact f.token_ne_guardOpen mark heq
      · exact ihk hkept hmem.1 hp
      · exact f.token_ne_guardClose mark heq
      · exact ihr hrest hmem.2 hp

-- ========================================================== resolution

/-- Disabling features that a document does not have changes nothing. -/
theorem resolve_of_not_mem {disabled : List Feature} {document : Document}
    (h : ∀ f ∈ document.features, f ∉ disabled) : document.resolve disabled = document := by
  induction document with
  | empty => rfl
  | fragment content rest ih => rw [resolve, ih h]
  | region feature body rest ihb ihr =>
      simp only [features, List.cons_append, List.forall_mem_cons, List.forall_mem_append] at h
      obtain ⟨hfeature, hb, hr⟩ := h
      rw [resolve, if_neg hfeature, ihb hb, ihr hr]
  | choice feature body fallback rest ihb ihf ihr =>
      simp only [features, List.cons_append, List.forall_mem_cons, List.forall_mem_append] at h
      obtain ⟨hfeature, ⟨hb, hf⟩, hr⟩ := h
      rw [resolve, if_neg hfeature, ihb hb, ihf hf, ihr hr]
  | guarded kept rest ihk ihr =>
      obtain ⟨hk, hr⟩ := List.forall_mem_append.1 h
      rw [resolve, ihk hk, ihr hr]

/-- Only the set of the disabled features counts. -/
theorem resolve_congr {disabled others : List Feature}
    (h : ∀ f, f ∈ others ↔ f ∈ disabled) (document : Document) :
    document.resolve others = document.resolve disabled := by
  induction document with
  | empty => rfl
  | fragment content rest ih => rw [resolve, resolve, ih]
  | region feature body rest ihb ihr => simp only [resolve, h, ihb, ihr]
  | choice feature body fallback rest ihb ihf ihr => simp only [resolve, h, ihb, ihf, ihr]
  | guarded kept rest ihk ihr => rw [resolve, resolve, ihk, ihr]

/-- Disabling a feature and then others is disabling all of them. -/
theorem resolve_resolve (f : Feature) (disabled : List Feature) (document : Document) :
    (document.resolve [f]).resolve disabled = document.resolve (f :: disabled) := by
  induction document with
  | empty => rfl
  | fragment content rest ih => rw [resolve, resolve, resolve, ih]
  | region feature body rest ihb ihr =>
      by_cases hf : feature = f
      · rw [resolve, resolve, if_pos (by simp [hf]), if_pos (by simp [hf]), ihr]
      · rw [resolve, if_neg (by simpa using hf)]
        simp only [resolve, List.mem_cons, hf, false_or, ihb, ihr]
  | choice feature body fallback rest ihb ihf ihr =>
      by_cases hf : feature = f
      · rw [resolve, resolve, if_pos (by simp [hf]), if_pos (by simp [hf]), resolve, ihf, ihr]
      · rw [resolve, if_neg (by simpa using hf)]
        simp only [resolve, List.mem_cons, hf, false_or, ihb, ihf, ihr]
  | guarded kept rest ihk ihr => rw [resolve, resolve, resolve, ihk, ihr]

/-- A resolved document has no features that the document had not. -/
theorem features_resolve_subset (disabled : List Feature) (document : Document) :
    (document.resolve disabled).features ⊆ document.features := by
  induction document with
  | empty => exact List.Subset.refl _
  | fragment content rest ih => exact ih
  | region feature body rest ihb ihr =>
      rw [resolve]
      split
      · exact fun f hf => List.mem_append_right _ (ihr hf)
      · exact List.append_subset.2 ⟨
          List.Subset.trans (List.cons_subset_cons _ ihb) (List.subset_append_left _ _),
          List.Subset.trans ihr (List.subset_append_right _ _)⟩
  | choice feature body fallback rest ihb ihf ihr =>
      rw [resolve]
      split
      · intro f hf
        simp only [features, List.mem_append, List.mem_cons, List.cons_append] at hf ⊢
        rcases hf with hf | hf
        · exact .inr (.inl (.inr (ihf hf)))
        · exact .inr (.inr (ihr hf))
      · intro f hf
        simp only [features, List.mem_append, List.mem_cons, List.cons_append] at hf ⊢
        rcases hf with hf | (hf | hf) | hf
        · exact .inl hf
        · exact .inr (.inl (.inl (ihb hf)))
        · exact .inr (.inl (.inr (ihf hf)))
        · exact .inr (.inr (ihr hf))
  | guarded kept rest ihk ihr =>
      exact List.append_subset.2 ⟨List.Subset.trans ihk (List.subset_append_left _ _),
        List.Subset.trans ihr (List.subset_append_right _ _)⟩

/-- A resolved document is as well nested as the document was. -/
theorem WellNested.resolve {document : Document} (h : document.WellNested)
    (disabled : List Feature) : (document.resolve disabled).WellNested := by
  induction document with
  | empty => exact h
  | fragment content rest ih => exact ⟨h.1, ih h.2⟩
  | region feature body rest ihb ihr =>
      obtain ⟨hproper, hmem, hbody, hrest⟩ := h
      rw [Document.resolve]
      split
      · exact ihr hrest
      · exact ⟨hproper, fun hf => hmem (features_resolve_subset disabled body hf),
          ihb hbody, ihr hrest⟩
  | choice feature body fallback rest ihb ihf ihr =>
      obtain ⟨hproper, hmb, hmf, hbody, hfallback, hrest⟩ := h
      rw [Document.resolve]
      split
      · exact ⟨ihf hfallback, ihr hrest⟩
      · exact ⟨hproper, fun hf => hmb (features_resolve_subset disabled body hf),
          fun hf => hmf (features_resolve_subset disabled fallback hf),
          ihb hbody, ihf hfallback, ihr hrest⟩
  | guarded kept rest ihk ihr => exact ⟨ihk h.1, ihr h.2⟩

-- ========================================================== one splice

/-- Splicing the text of a row whose first region has no fallback. -/
theorem splice_remove {f : Feature} (hf : f.Proper) {before body after : List Text}
    (hbefore : IsRow before) (hbody : IsRow body) (hafter : IsRow after)
    (hstart : f.token .start ∉ before) (hfinish : f.token .finish ∉ body)
    (hleave : f.token .leave ∉ body) :
    f.splice (before ++ f.token .start :: (body ++ f.token .finish :: after)).flatten
      = .remove (before ++ after).flatten := by
  have hbehind : IsRow (body ++ f.token .finish :: after) :=
    isRow_append.2 ⟨hbody, isRow_cons.2 ⟨.inr (hf.isComment_token .finish), hafter⟩⟩
  rw [Feature.splice, cut?_flatten (hf.isComment_token .start) hbefore hbehind hstart]
  simp only []
  rw [cut?_flatten (hf.isComment_token .finish) hbody hafter hfinish]
  simp only []
  rw [cut?_flatten_eq_none (hf.isComment_token .leave) hbody hleave, List.flatten_append]

/-- Splicing the text of a row whose first region has a fallback. -/
theorem splice_guard {f : Feature} (hf : f.Proper) {before body fallback after : List Text}
    (hbefore : IsRow before) (hbody : IsRow body) (hfallback : IsRow fallback)
    (hafter : IsRow after) (hstart : f.token .start ∉ before)
    (hfinish : f.token .finish ∉ body) (hfinish' : f.token .finish ∉ fallback)
    (hleave : f.token .leave ∉ body) :
    f.splice (before ++ f.token .start ::
        (body ++ f.token .leave :: (fallback ++ f.token .finish :: after))).flatten
      = .guard (before ++ guardOpen :: (fallback ++ guardClose :: after)).flatten := by
  -- the end marker is searched for over body and fallback together
  have hregion : body ++ f.token .leave :: (fallback ++ f.token .finish :: after)
      = (body ++ f.token .leave :: fallback) ++ f.token .finish :: after := by
    simp
  have hinner : IsRow (body ++ f.token .leave :: fallback) :=
    isRow_append.2 ⟨hbody, isRow_cons.2 ⟨.inr (hf.isComment_token .leave), hfallback⟩⟩
  have hbehind : IsRow ((body ++ f.token .leave :: fallback) ++ f.token .finish :: after) :=
    isRow_append.2 ⟨hinner, isRow_cons.2 ⟨.inr (hf.isComment_token .finish), hafter⟩⟩
  have hnot : f.token .finish ∉ body ++ f.token .leave :: fallback := by
    have hne : f.token .finish ≠ f.token .leave := by
      intro heq
      have hmark := (Feature.token_inj hf hf heq).2
      cases hmark
    simp [hfinish, hfinish', hne]
  rw [hregion, Feature.splice, cut?_flatten (hf.isComment_token .start) hbefore hbehind hstart]
  simp only []
  rw [cut?_flatten (hf.isComment_token .finish) hinner hafter hnot]
  simp only []
  rw [cut?_flatten (hf.isComment_token .leave) hbody hfallback hleave]
  simp

-- ============================================================ the loop

/-- The loop of a feature takes the text of one row to that of another,
whatever was counted before. -/
def Reduces (f : Feature) (row row' : List Text) : Prop :=
  ∀ removed guarded unbalanced, ∃ removed' guarded',
    f.resolve ⟨row.flatten, removed, guarded, unbalanced⟩
      = f.resolve ⟨row'.flatten, removed', guarded', unbalanced⟩

theorem Reduces.refl (f : Feature) (row : List Text) : Reduces f row row :=
  fun removed guarded _ => ⟨removed, guarded, rfl⟩

theorem Reduces.trans {f : Feature} {row row' row'' : List Text} (h : Reduces f row row')
    (h' : Reduces f row' row'') : Reduces f row row'' := by
  intro removed guarded unbalanced
  obtain ⟨removed₁, guarded₁, hfirst⟩ := h removed guarded unbalanced
  obtain ⟨removed₂, guarded₂, hsecond⟩ := h' removed₁ guarded₁ unbalanced
  exact ⟨removed₂, guarded₂, hfirst.trans hsecond⟩

/-- One round that removes a region is a reduction. -/
private theorem reduces_of_splice_remove {f : Feature} {row row' : List Text}
    (h : f.splice row.flatten = .remove row'.flatten) : Reduces f row row' := by
  intro removed guarded unbalanced
  exact ⟨removed + 1, guarded, Feature.resolve_of_splice_remove h⟩

/-- One round that guards a region is a reduction. -/
private theorem reduces_of_splice_guard {f : Feature} {row row' : List Text}
    (h : f.splice row.flatten = .guard row'.flatten) : Reduces f row row' := by
  intro removed guarded unbalanced
  exact ⟨removed, guarded + 1, Feature.resolve_of_splice_guard h⟩

/-- The loop of a feature takes a stretch of a row to another one and is
done with it: in front of it no region of the feature begins, and behind
it anything may follow. -/
structure Settles (f : Feature) (row row' : List Text) : Prop where
  /-- The stretch is made of pieces. -/
  isRow : IsRow row
  /-- So is what it becomes. -/
  isRow' : IsRow row'
  /-- No region begins in what it becomes. -/
  clear : f.token .start ∉ row'
  /-- The loop takes one to the other. -/
  reduces : ∀ front back, IsRow front → IsRow back → f.token .start ∉ front →
    Reduces f (front ++ row ++ back) (front ++ row' ++ back)

theorem Settles.refl {f : Feature} {row : List Text} (hrow : IsRow row)
    (hclear : f.token .start ∉ row) : Settles f row row :=
  ⟨hrow, hrow, hclear, fun _ _ _ _ _ => Reduces.refl f _⟩

/-- Rows that settle do so side by side. -/
theorem Settles.append {f : Feature} {row row' next next' : List Text} (h : Settles f row row')
    (h' : Settles f next next') : Settles f (row ++ next) (row' ++ next') := by
  refine ⟨isRow_append.2 ⟨h.isRow, h'.isRow⟩, isRow_append.2 ⟨h.isRow', h'.isRow'⟩,
    by simp [h.clear, h'.clear], ?_⟩
  intro front back hfront hback hstart
  -- the first stretch is settled with the second behind it, and is in
  -- front of the second from then on
  have hfirst := h.reduces front (next ++ back) hfront (isRow_append.2 ⟨h'.isRow, hback⟩) hstart
  have hsecond := h'.reduces (front ++ row') back (isRow_append.2 ⟨hfront, h.isRow'⟩) hback
    (by simp [hstart, h.clear])
  simp only [List.append_assoc] at hfirst hsecond ⊢
  exact hfirst.trans hsecond

/-- A piece that is no start stays in front of what settles. -/
theorem Settles.cons {f : Feature} {piece : Text} {row row' : List Text} (hpiece : IsPiece piece)
    (hne : f.token .start ≠ piece) (h : Settles f row row') :
    Settles f (piece :: row) (piece :: row') := by
  have hone : Settles f [piece] [piece] :=
    .refl (isRow_cons.2 ⟨hpiece, isRow_nil⟩) (by simp [hne])
  exact hone.append h

/-- A region without a fallback goes, and the loop goes on behind it. -/
theorem Settles.region {f : Feature} (hf : f.Proper) {body : Document} (hbody : body.WellNested)
    (hnest : f ∉ body.features) {row row' : List Text} (h : Settles f row row') :
    Settles f (f.token .start :: body.pieces ++ f.token .finish :: row) row' := by
  have htoken (mark : Mark) : IsPiece (f.token mark) := .inr (hf.isComment_token mark)
  refine ⟨by simp [htoken, hbody.isRow, h.isRow], h.isRow', h.clear, ?_⟩
  intro front back hfront hback hstart
  have hsplice := reduces_of_splice_remove
    (splice_remove hf hfront hbody.isRow (isRow_append.2 ⟨h.isRow, hback⟩) hstart
      (hbody.token_not_mem hf hnest .finish) (hbody.token_not_mem hf hnest .leave))
  have hbehind := h.reduces front back hfront hback hstart
  simp only [List.cons_append, List.append_assoc] at hsplice hbehind ⊢
  exact hsplice.trans hbehind

/-- Of a region with a fallback the fallback stays, and has no region of
the feature. -/
theorem Settles.choice {f : Feature} (hf : f.Proper) {body fallback : Document}
    (hbody : body.WellNested) (hfallback : fallback.WellNested) (hnb : f ∉ body.features)
    (hnf : f ∉ fallback.features) {row row' : List Text} (h : Settles f row row') :
    Settles f
      (f.token .start :: body.pieces ++ f.token .leave :: fallback.pieces ++ f.token .finish :: row)
      (guardOpen :: fallback.pieces ++ guardClose :: row') := by
  have htoken (mark : Mark) : IsPiece (f.token mark) := .inr (hf.isComment_token mark)
  have hkept : Settles f (guardOpen :: fallback.pieces ++ guardClose :: row)
      (guardOpen :: fallback.pieces ++ guardClose :: row') := by
    have hinside := Settles.refl hfallback.isRow (hfallback.token_not_mem hf hnf .start)
    exact .cons (.inr isComment_guardOpen) (f.token_ne_guardOpen .start)
      (hinside.append (.cons (.inr isComment_guardClose) (f.token_ne_guardClose .start) h))
  refine ⟨by simp [htoken, hbody.isRow, hfallback.isRow, h.isRow], hkept.isRow', hkept.clear, ?_⟩
  intro front back hfront hback hstart
  have hsplice := reduces_of_splice_guard
    (splice_guard hf hfront hbody.isRow hfallback.isRow (isRow_append.2 ⟨h.isRow, hback⟩) hstart
      (hbody.token_not_mem hf hnb .finish) (hfallback.token_not_mem hf hnf .finish)
      (hbody.token_not_mem hf hnb .leave))
  have hbehind := hkept.reduces front back hfront hback hstart
  simp only [List.cons_append, List.append_assoc] at hsplice hbehind ⊢
  exact hsplice.trans hbehind

/-- The loop of a feature resolves a document in its place. -/
theorem settles_resolve {f : Feature} (hf : f.Proper) {document : Document}
    (h : document.WellNested) : Settles f document.pieces (document.resolve [f]).pieces := by
  induction document with
  | empty => exact .refl isRow_nil List.not_mem_nil
  | fragment content rest ih =>
      obtain ⟨hcontent, hrest⟩ := h
      have hne : f.token .start ≠ content := fun heq =>
        (hf.isComment_token .start).not_isPlain (heq ▸ hcontent)
      exact (ih hrest).cons (.inl hcontent) hne
  | region feature body rest ihb ihr =>
      obtain ⟨hproper, hnest, hbody, hrest⟩ := h
      by_cases hfeature : feature = f
      · subst hfeature
        rw [resolve, if_pos List.mem_cons_self]
        exact (ihr hrest).region hf hbody hnest
      · have htoken (mark : Mark) : IsPiece (feature.token mark) :=
          .inr (hproper.isComment_token mark)
        have hne := Feature.token_ne_token hf hproper (Ne.symm hfeature) .start
        rw [resolve, if_neg (by simpa using hfeature)]
        exact .cons (htoken .start) (hne _)
          ((ihb hbody).append (.cons (htoken .finish) (hne _) (ihr hrest)))
  | choice feature body fallback rest ihb ihf ihr =>
      obtain ⟨hproper, hnb, hnf, hbody, hfallback, hrest⟩ := h
      by_cases hfeature : feature = f
      · subst hfeature
        have hkept : fallback.resolve [feature] = fallback :=
          resolve_of_not_mem fun g hg hin => hnf (List.mem_singleton.1 hin ▸ hg)
        rw [resolve, if_pos List.mem_cons_self, hkept]
        exact (ihr hrest).choice hf hbody hfallback hnb hnf
      · have htoken (mark : Mark) : IsPiece (feature.token mark) :=
          .inr (hproper.isComment_token mark)
        have hne := Feature.token_ne_token hf hproper (Ne.symm hfeature) .start
        rw [resolve, if_neg (by simpa using hfeature)]
        have hbehind := (ihr hrest).cons (htoken .finish) (hne _)
        have hkept := ((ihf hfallback).append hbehind).cons (htoken .leave) (hne _)
        simpa [pieces] using ((ihb hbody).append hkept).cons (htoken .start) (hne _)
  | guarded kept rest ihk ihr =>
      obtain ⟨hkept, hrest⟩ := h
      exact .cons (.inr isComment_guardOpen) (f.token_ne_guardOpen .start)
        ((ihk hkept).append
          (.cons (.inr isComment_guardClose) (f.token_ne_guardClose .start) (ihr hrest)))

/-- Resolving a feature in the text of a document resolves it in the
document, and leaves no orphan. -/
theorem resolve_render {f : Feature} (hf : f.Proper) {document : Document}
    (h : document.WellNested) {s : Stripped} (hs : s.text = document.render) :
    (f.resolve s).text = (document.resolve [f]).render ∧
      (f.resolve s).unbalanced = s.unbalanced := by
  obtain ⟨content, removed, guarded, unbalanced⟩ := s
  obtain rfl : content = document.render := hs
  have hsettles := settles_resolve hf h
  have hreduces := hsettles.reduces [] [] isRow_nil isRow_nil List.not_mem_nil
  obtain ⟨removed', guarded', hloop⟩ := hreduces removed guarded unbalanced
  simp only [List.nil_append, List.append_nil, ← render_eq_flatten] at hloop
  have hnone : f.splice (document.resolve [f]).render = .none := by
    rw [Feature.splice, render_eq_flatten,
      cut?_flatten_eq_none (hf.isComment_token .start) hsettles.isRow' hsettles.clear]
  rw [hloop, Feature.resolve_of_splice_none hnone]
  exact ⟨rfl, rfl⟩

/-- Resolving features one after the other resolves all of them in the
document. -/
theorem foldl_resolve_render {features : List Feature} (hf : ∀ f ∈ features, f.Proper)
    {document : Document} (h : document.WellNested) {s : Stripped}
    (hs : s.text = document.render) :
    (features.foldl (fun s f => f.resolve s) s).text = (document.resolve features).render ∧
      (features.foldl (fun s f => f.resolve s) s).unbalanced = s.unbalanced := by
  induction features generalizing document s with
  | nil => exact ⟨hs.trans (by rw [resolve_of_not_mem fun _ _ => List.not_mem_nil]), rfl⟩
  | cons f features ih =>
      obtain ⟨hhead, htail⟩ := List.forall_mem_cons.1 hf
      obtain ⟨htext, hunbalanced⟩ := resolve_render hhead h hs
      obtain ⟨htext', hunbalanced'⟩ := ih htail (h.resolve [f]) htext
      rw [List.foldl_cons, htext', hunbalanced', hunbalanced, resolve_resolve]
      exact ⟨rfl, rfl⟩

end Document

/-- Stripping resolves a well-nested document to its disabled branch and
reports nothing; the order and the repetitions of the features do not
matter. -/
theorem strip_render (document : Document) (features : List Feature)
    (hdocument : document.WellNested) (hfeatures : ∀ f ∈ features, f.Proper) :
    (strip features document.render).text = (document.resolve features).render ∧
      (strip features document.render).unbalanced = [] ∧
      ∀ others : List Feature, (∀ f, f ∈ others ↔ f ∈ features) →
        (strip others document.render).text = (strip features document.render).text := by
  have hstrip {list : List Feature} (hlist : ∀ f ∈ list, f.Proper) :
      (strip list document.render).text = (document.resolve list).render ∧
        (strip list document.render).unbalanced = [] :=
    Document.foldl_resolve_render hlist hdocument rfl
  refine ⟨(hstrip hfeatures).1, (hstrip hfeatures).2, fun others hothers => ?_⟩
  have hproper : ∀ f ∈ others, f.Proper := fun f hf => hfeatures f ((hothers f).1 hf)
  rw [(hstrip hproper).1, (hstrip hfeatures).1, Document.resolve_congr hothers]

/-- A region inside the fallback of another feature's region, which lies in
a region of a feature that stays. -/
def nestedSample (kept gated inner : Feature) : Document :=
  .fragment (text "a ") <| .region kept
    (.choice gated (.fragment (text "x * y") .empty)
      (.region inner (.fragment (text "p") .empty) (.fragment (text "/q") .empty))
      (.fragment (text "; ") .empty))
    .empty

/-- With two of three nested features disabled, in either order. -/
theorem strip_render_nestedSample :
    let kept : Feature := ⟨text "**", text "@anXjKh@"⟩
    let gated : Feature := ⟨text "Tracer", text "@O8gSAh@"⟩
    let inner : Feature := ⟨text "Logger", text "@85Lbt3@"⟩
    (nestedSample kept gated inner).WellNested ∧
      (strip [inner, gated, inner] (nestedSample kept gated inner).render).text
        = text "a " ++ kept.token .start ++ guardOpen ++ text "/q" ++ guardClose
          ++ text "; " ++ kept.token .finish ∧
      (strip [gated, inner] (nestedSample kept gated inner).render).text
        = (strip [inner, gated, inner] (nestedSample kept gated inner).render).text := by
  intro kept gated inner
  have hnested : (nestedSample kept gated inner).WellNested := by decide
  have hproper : ∀ f ∈ [inner, gated, inner], f.Proper := by decide
  obtain ⟨htext, -, horder⟩ := strip_render _ _ hnested hproper
  refine ⟨hnested, ?_, horder [gated, inner] fun f => ?_⟩
  · rw [htext]
    rfl
  · simp only [List.mem_cons, List.not_mem_nil, or_false]
    constructor
    · rintro (h | h)
      · exact .inr (.inl h)
      · exact .inl h
    · rintro (h | h | h)
      · exact .inr h
      · exact .inl h
      · exact .inr h

end TaggedSource

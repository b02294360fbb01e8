/-
Where orphans are reported.

The loop of a feature reports the first start marker that has no end marker
behind it, with its byte offset in the text as it is then. Later loops work
on the same text and may still delete or shrink what stands before the
marker, so in the text at the end it need not be where it was reported
(`later_region_shifts_orphan`).

# What a report is good for

A report is right about the text that its feature's own loop has left
(`exists_of_mem_unbalanced`). It is right about the text at the end if no
later feature finds anything to do, and, in a row of comments and plain
texts, if no later feature has a start marker before the orphan: then every
later splice happens behind the orphan, since a search passes over all
that is in front (`Feature.after?_splice_append`), and no end marker for
the orphan comes about (`orphans_reported_where_found`).
-/
import TaggedSource.Proofs.Balance

namespace TaggedSource

/-- A pattern stands in a text at a byte offset. -/
def StandsAt (pattern t : Text) (offset : Nat) : Prop :=
  ∃ front rest, t = front ++ pattern ++ rest ∧ Text.byteSize front = offset

-- ========================================================== the reports

/-- What a splice that comes to an orphan has found. -/
theorem Feature.cut?_of_splice_orphan {f : Feature} {t : Text} {offset : Nat}
    (h : f.splice t = .orphan offset) :
    ∃ front rest, Text.cut? (f.token .start) t = some (front, rest) ∧
      Text.cut? (f.token .finish) rest = none ∧ Text.byteSize front = offset := by
  rcases f.splice_cases t with ⟨-, hs⟩ | ⟨front, rest, hstart, hfinish, hs⟩ |
    ⟨_, _, _, _, -, -, -, hs⟩ | ⟨_, _, _, _, _, _, -, -, -, hs⟩
  · rw [hs] at h
    cases h
  · rw [hs] at h
    cases h
    exact ⟨front, rest, hstart, hfinish, rfl⟩
  · rw [hs] at h
    cases h
  · rw [hs] at h
    cases h

/-- A report was there before, or is that of the loop of a feature, about
the text that this loop has left. -/
theorem exists_of_mem_unbalanced {features : List Feature} {s : Stripped} {orphan : Orphan}
    (h : orphan ∈ (resolveAll features s).unbalanced) :
    orphan ∈ s.unbalanced ∨ ∃ before f after, features = before ++ f :: after ∧
      orphan.feature = f.id ∧
      f.splice (resolveAll (before ++ [f]) s).text = .orphan orphan.offset := by
  induction features generalizing s with
  | nil => exact .inl h
  | cons g features ih =>
      rcases ih (s := g.resolve s) h with hthere | ⟨before, f, after, rfl, hid, hsplice⟩
      · rcases g.resolve_ends s with ⟨-, hsame⟩ | ⟨offset, hsplice, hmore⟩
        · exact .inl (hsame ▸ hthere)
        · rw [hmore, List.mem_append, List.mem_singleton] at hthere
          rcases hthere with hthere | rfl
          · exact .inl hthere
          · exact .inr ⟨[], g, features, rfl, rfl, hsplice⟩
      · exact .inr ⟨g :: before, f, after, rfl, hid, hsplice⟩

-- ================================================== behind the orphan

/-- A splice happens behind what the search for its start marker passes
over. -/
theorem Feature.after?_splice_append {g : Feature} {front t : Text}
    (h : Text.cut? (g.token .start) (front ++ t)
      = (Text.cut? (g.token .start) t).map fun (before, after) => (front ++ before, after)) :
    (g.splice (front ++ t)).after? = (g.splice t).after?.map (front ++ ·) := by
  unfold splice
  rw [h]
  cases Text.cut? (g.token .start) t with
  | none => rfl
  | some parts =>
      obtain ⟨before, rest⟩ := parts
      simp only [Option.map_some]
      cases Text.cut? (g.token .finish) rest with
      | none => rfl
      | some parts =>
          obtain ⟨body, after⟩ := parts
          simp only
          cases Text.cut? (g.token .leave) body with
          | none => simp [Splice.after?]
          | some parts => simp [Splice.after?]

/-- A text that is `front`, then a marker, then something made of a row. -/
def Behind (front marker : Text) (row : List Text) (t : Text) : Prop :=
  ∃ rest, t = front ++ marker ++ rest ∧ MadeOf row rest

section
variable {f : Feature} {front row : List Text} (hf : f.Proper) (hfront : IsRow front)
  (hfinish : f.token .finish ∉ row)
include hf hfront hfinish

/-- A splice of a feature without a start marker in front of an orphan
happens behind the orphan. -/
theorem Behind.splice {g : Feature} (hg : g.Proper) (hstart : g.token .start ∉ front)
    {t u : Text} (h : Behind front.flatten (f.token .start) row t)
    (hsplice : (g.splice t).after? = some u) : Behind front.flatten (f.token .start) row u := by
  obtain ⟨rest, rfl, hmade⟩ := h
  obtain ⟨pieces, hpieces, hisRow, hfrom⟩ := id hmade
  by_cases hgf : g = f
  · -- the orphan itself: still no end marker is behind it
    subst hgf
    have hnot : g.token .finish ∉ pieces := by
      intro hmem
      rcases hfrom _ hmem with hin | hopen | hclose
      · exact hfinish hin
      · exact g.token_ne_guardOpen .finish hopen
      · exact g.token_ne_guardClose .finish hclose
    have hcut : Text.cut? (g.token .start) (front.flatten ++ g.token .start ++ rest)
        = some (front.flatten, rest) := by
      have hflatten := cut?_flatten (hg.isComment_token .start) hfront hisRow hstart
      rw [List.flatten_append, List.flatten_cons, ← hpieces] at hflatten
      rw [List.append_assoc]
      exact hflatten
    have hnone : Text.cut? (g.token .finish) rest = none := by
      rw [hpieces]
      exact cut?_flatten_eq_none (hg.isComment_token .finish) hisRow hnot
    rw [Feature.splice, hcut] at hsplice
    simp [hnone, Splice.after?] at hsplice
  · -- the search for the start marker passes over the orphan
    have hother : g.token .start ∉ front ++ [f.token .start] := by
      rw [List.mem_append, List.mem_singleton, not_or]
      exact ⟨hstart, Feature.token_ne_token hg hf hgf .start .start⟩
    have hrow : IsRow (front ++ [f.token .start]) :=
      isRow_append.2 ⟨hfront, isRow_cons.2 ⟨.inr (hf.isComment_token .start), isRow_nil⟩⟩
    have hcut := cut?_flatten_append (hg.isComment_token .start) hrow hisRow hother
    rw [List.flatten_append, List.flatten_append, List.flatten_singleton, ← hpieces] at hcut
    rw [Feature.after?_splice_append hcut, Option.map_eq_some_iff] at hsplice
    obtain ⟨v, hv, rfl⟩ := hsplice
    exact ⟨v, rfl, hmade.splice hg hv⟩

theorem Behind.resolveAll {features : List Feature} (hproper : ∀ g ∈ features, g.Proper)
    (hstart : ∀ g ∈ features, g.token .start ∉ front) {s : Stripped}
    (h : Behind front.flatten (f.token .start) row s.text) :
    Behind front.flatten (f.token .start) row (resolveAll features s).text :=
  resolveAll_keeps (fun g hmem _ _ hbehind hsplice =>
    hbehind.splice hf hfront hfinish (hproper g hmem) (hstart g hmem) hsplice) h

end

/-- An orphan in a row stays where it is under loops of features that have
no start marker before it. -/
theorem standsAt_resolveAll {features : List Feature} (hproper : ∀ g ∈ features, g.Proper)
    {f : Feature} (hf : f.Proper) {row : List Text} (hrow : IsRow row) {s : Stripped}
    (hs : s.text = row.flatten) {front rest : Text}
    (hcut : Text.cut? (f.token .start) s.text = some (front, rest))
    (hfinish : Text.cut? (f.token .finish) rest = none)
    (hstart : ∀ g ∈ features, Text.occursIn (g.token .start) front = false) :
    StandsAt (f.token .start) (resolveAll features s).text (Text.byteSize front) := by
  obtain ⟨before, after, rfl, hbefore, hafter, rfl, rfl⟩ :=
    exists_of_cut?_flatten (hf.isComment_token .start) hrow (hs ▸ hcut)
  have hnot : f.token .finish ∉ after :=
    not_mem_of_not_occursIn (hf.isComment_token .finish) hafter (by rw [Text.occursIn, hfinish]; rfl)
  have hbehind : Behind before.flatten (f.token .start) after s.text :=
    ⟨after.flatten, by rw [hs]; simp, madeOf_self hafter⟩
  obtain ⟨last, hlast, -⟩ := hbehind.resolveAll hf hbefore hnot hproper fun g hg =>
    not_mem_of_not_occursIn ((hproper g hg).isComment_token .start) hbefore (hstart g hg)
  exact ⟨before.flatten, last, hlast, rfl⟩

-- ============================================================= offsets

/-- What stands nowhere before an offset does not occur in the text up to
there. -/
theorem not_occursIn_of_standsAt {pattern front rest : Text} (hne : pattern ≠ [])
    (h : ∀ offset, StandsAt pattern (front ++ rest) offset → Text.byteSize front ≤ offset) :
    Text.occursIn pattern front = false := by
  rw [Text.occursIn_eq_false_iff]
  rintro ⟨a, b, rfl⟩
  have hle := h (Text.byteSize a) ⟨a, b ++ rest, by simp, rfl⟩
  have hpos := Text.byteSize_pos hne
  simp only [Text.byteSize_append] at hle
  omega

/-- What does not occur behind a part of a text begins within the part. -/
theorem lt_of_not_occursIn {pattern front rest : Text} (h : Text.occursIn pattern rest = false)
    {offset : Nat} (hat : StandsAt pattern (front ++ rest) offset) :
    offset < Text.byteSize front := by
  obtain ⟨a, b, hsame, rfl⟩ := hat
  rw [List.append_assoc] at hsame
  rw [Text.occursIn_eq_false_iff] at h
  rcases List.append_eq_append_iff.1 hsame with ⟨more, rfl, hmore⟩ | ⟨more, rfl, hmore⟩
  · refine absurd ⟨more, b, ?_⟩ h
    rw [hmore, List.append_assoc]
  · by_cases hnil : more = []
    · refine absurd ⟨[], b, ?_⟩ h
      simpa [hnil] using hmore
    · have hpos := Text.byteSize_pos hnil
      rw [Text.byteSize_append]
      omega

/-- Every report is that of a feature of the list. It tells where the first
start marker of the feature stood when the feature's own loop was done, with
no end marker behind it. There it still stands at the end, if the later
features found no start marker of theirs, or if the text was a row of
comments and plain texts and they had none before the orphan. -/
theorem orphans_reported_where_found (features : List Feature) (t : Text) (orphan : Orphan)
    (h : orphan ∈ (strip features t).unbalanced) :
    ∃ before f after, features = before ++ f :: after ∧ orphan.feature = f.id ∧
      let own := (strip (before ++ [f]) t).text
      let out := (strip features t).text
      StandsAt (f.token .start) own orphan.offset ∧
      (∀ offset, StandsAt (f.token .start) own offset → orphan.offset ≤ offset) ∧
      (∀ offset, StandsAt (f.token .finish) own offset →
        offset < orphan.offset + Text.byteSize (f.token .start)) ∧
      ((∀ g ∈ after, Text.occursIn (g.token .start) own = false) →
        StandsAt (f.token .start) out orphan.offset) ∧
      (∀ row, IsRow row → t = row.flatten → (∀ g ∈ features, g.Proper) →
        (∀ g ∈ after, ∀ offset, StandsAt (g.token .start) own offset → orphan.offset ≤ offset) →
        StandsAt (f.token .start) out orphan.offset) := by
  rcases exists_of_mem_unbalanced (s := { text := t }) h with hnone |
    ⟨before, f, after, rfl, hid, hsplice⟩
  · cases hnone
  obtain ⟨front, rest, hcut, hfinish, hoffset⟩ := Feature.cut?_of_splice_orphan hsplice
  have hown : (strip (before ++ [f]) t).text = front ++ f.token .start ++ rest :=
    Text.eq_of_cut? hcut
  have hlater : strip (before ++ f :: after) t = resolveAll after (strip (before ++ [f]) t) := by
    rw [strip_eq, strip_eq, ← resolveAll_append, List.append_assoc, List.singleton_append]
  refine ⟨before, f, after, rfl, hid, ⟨front, rest, hown, hoffset⟩, ?_, ?_, ?_, ?_⟩
  · rintro offset ⟨front', rest', hfront', rfl⟩
    rw [← hoffset]
    exact Text.byteSize_le_of_cut? hcut hfront'
  · intro offset hat
    have hnone : Text.occursIn (f.token .finish) rest = false := by rw [Text.occursIn, hfinish]; rfl
    rw [hown] at hat
    rw [← hoffset, ← Text.byteSize_append]
    exact lt_of_not_occursIn hnone hat
  · intro hnone
    show StandsAt _ (strip (before ++ f :: after) t).text _
    rw [hlater, resolveAll_eq_self_iff.2 hnone]
    exact ⟨front, rest, hown, hoffset⟩
  · intro row hrow ht hproper hstart
    obtain ⟨hbefore, hrest⟩ := List.forall_mem_append.1 hproper
    obtain ⟨hf, hafter⟩ := List.forall_mem_cons.1 hrest
    have hfirst : ∀ g ∈ before ++ [f], g.Proper :=
      List.forall_mem_append.2 ⟨hbefore, List.forall_mem_singleton.2 hf⟩
    -- what the own loop leaves is a row again, and the later loops start from there
    obtain ⟨pieces, hpieces, hisRow, -⟩ :=
      MadeOf.resolveAll hfirst (s := { text := t }) (ht ▸ madeOf_self hrow)
    show StandsAt _ (strip (before ++ f :: after) t).text _
    rw [hlater, ← hoffset]
    refine standsAt_resolveAll hafter hf hisRow hpieces hcut hfinish fun g hg => ?_
    have htoken : g.token .start ≠ [] := ((hafter g hg).isComment_token .start).ne_nil
    have hbehind : ∀ offset, StandsAt (g.token .start) (front ++ (f.token .start ++ rest)) offset →
        Text.byteSize front ≤ offset := by
      rw [← List.append_assoc, ← hown, hoffset]
      exact hstart g hg
    exact not_occursIn_of_standsAt htoken hbehind

-- ========================================================== at two texts

/-- An orphan of one feature with a region of a later one behind it. -/
def orphanFirst : List Text :=
  [text "ä", tracer.token .start, logger.token .start, text "x", logger.token .finish, text "y"]

private theorem isRow_orphanFirst : IsRow orphanFirst := by
  have htracer : IsPiece (tracer.token .start) :=
    .inr (Feature.Proper.isComment_token (by decide) .start)
  have hlogger (mark : Mark) : IsPiece (logger.token mark) :=
    .inr (Feature.Proper.isComment_token (by decide) mark)
  have hplain : IsPlain (text "ä") ∧ IsPlain (text "x") ∧ IsPlain (text "y") := by decide
  simp only [orphanFirst, isRow_cons, isRow_nil, and_true, htracer, hlogger, true_and]
  exact ⟨.inl hplain.1, .inl hplain.2.1, .inl hplain.2.2⟩

private theorem resolve_orphanFirst : tracer.resolve { text := orphanFirst.flatten }
    = { text := orphanFirst.flatten, unbalanced := [⟨text "Tracer", 2⟩] } := by
  have hsplice : tracer.splice orphanFirst.flatten = .orphan 2 := by decide +kernel
  rw [Feature.resolve_eq, hsplice]
  rfl

/-- The region behind the orphan goes, and the orphan is where it was
reported. -/
theorem orphans_reported_where_found_orphanFirst :
    let stripped := strip [tracer, logger] orphanFirst.flatten
    ⟨text "Tracer", 2⟩ ∈ stripped.unbalanced ∧ stripped.text ≠ orphanFirst.flatten ∧
      StandsAt (tracer.token .start) stripped.text 2 := by
  intro stripped
  have hstripped : stripped
      = ⟨text "ä" ++ tracer.token .start ++ text "y", 1, 0, [⟨text "Tracer", 2⟩]⟩ := by
    show logger.resolve (tracer.resolve _) = _
    rw [resolve_orphanFirst, Feature.resolve_of_splice_remove
      (t := text "ä" ++ tracer.token .start ++ text "y") (by decide +kernel),
      Feature.resolve_of_splice_none (by decide +kernel)]
  have hmem : ⟨text "Tracer", 2⟩ ∈ stripped.unbalanced := by rw [hstripped]; exact .head _
  refine ⟨hmem, by rw [hstripped]; decide +kernel, ?_⟩
  obtain ⟨before, f, after, hsplit, hid, -, -, -, -, hrow⟩ :=
    orphans_reported_where_found [tracer, logger] orphanFirst.flatten _ hmem
  cases before with
  | nil =>
      obtain ⟨rfl, rfl⟩ := List.cons.inj hsplit
      refine hrow orphanFirst isRow_orphanFirst rfl (by decide) fun g hg offset hat => ?_
      have hown : (strip ([] ++ [tracer]) orphanFirst.flatten).text = orphanFirst.flatten :=
        congrArg Stripped.text resolve_orphanFirst
      rw [hown] at hat
      obtain rfl := List.mem_singleton.1 hg
      obtain ⟨front, rest, hfront, rfl⟩ := hat
      cases front with
      | nil => exact absurd (List.cons.inj hfront).1 (by decide)
      | cons c front =>
          obtain rfl : 'ä' = c := (List.cons.inj hfront).1
          exact Nat.le_add_right 2 (Text.byteSize front)
  | cons g before =>
      -- the other feature has another id
      obtain ⟨rfl, hrest⟩ := List.cons.inj hsplit
      cases before with
      | nil =>
          obtain ⟨rfl, rfl⟩ := List.cons.inj hrest
          exact absurd hid (by decide)
      | cons g before => simp at hrest

/-- A region of one feature with an orphan of an earlier one behind it. -/
def orphanLast : Text :=
  logger.token .start ++ text "x" ++ logger.token .finish ++ tracer.token .start ++ text "y"

/-- The region in front of the orphan goes when the orphan is reported
already, and the orphan is not where it was reported. -/
theorem later_region_shifts_orphan :
    (∀ f ∈ [tracer, logger], f.id ≠ [] ∧ f.eyecatcher ≠ []) ∧
      let stripped := strip [tracer, logger] orphanLast
      stripped.unbalanced = [⟨text "Tracer", 65⟩] ∧
      StandsAt (tracer.token .start) stripped.text 0 ∧
      ∀ f ∈ [tracer, logger], ¬ StandsAt (f.token .start) stripped.text 65 := by
  have hstripped : strip [tracer, logger] orphanLast
      = ⟨tracer.token .start ++ text "y", 1, 0, [⟨text "Tracer", 65⟩]⟩ := by
    have htracer : tracer.resolve { text := orphanLast }
        = { text := orphanLast, unbalanced := [⟨text "Tracer", 65⟩] } := by
      have hsplice : tracer.splice orphanLast = .orphan 65 := by decide +kernel
      rw [Feature.resolve_eq, hsplice]
      rfl
    show logger.resolve (tracer.resolve _) = _
    rw [htracer, Feature.resolve_of_splice_remove (t := tracer.token .start ++ text "y")
      (by decide +kernel), Feature.resolve_of_splice_none (by decide +kernel)]
  refine ⟨by decide, ?_⟩
  rw [hstripped]
  refine ⟨rfl, ⟨[], text "y", rfl, rfl⟩, ?_⟩
  rintro f - ⟨front, rest, hsame, hfront⟩
  -- the text that is left is shorter than that
  have hsize := congrArg Text.byteSize hsame
  have hleft : Text.byteSize (tracer.token .start ++ text "y") = 33 := by decide
  rw [hleft, Text.byteSize_append, Text.byteSize_append, hfront] at hsize
  omega

end TaggedSource

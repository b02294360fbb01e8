/-
Forbidden lines do not survive a pass.

A pass cuts its text into lines, drops the forbidden ones and joins the
others. What is joined has the kept lines for its lines
(`splitLines_joinLines`); if all were dropped it has the empty line alone,
which is never forbidden. So a copyright alignment gives the allowed lines
of the substituted text and nothing else.

A transformation edits the kept lines and drops blank ones behind that. An
edit can put a pattern together, so no more is said of a profile with
tokens; without tokens the lines of the result are kept lines, too.
-/
import TaggedSource.Proofs.Drawing
import TaggedSource.Proofs.Lines
import TaggedSource.Proofs.Totality

namespace TaggedSource

-- ================================================== the lines of a result

section
variable {profile : Profile} {t line : Text}

/-- The allowed lines of a text. -/
def Line.allowed (patterns : List Text) (t : Text) : List Text :=
  (Text.splitLines t).filter fun line => Line.Allowed patterns line

private theorem no_break_of_mem_allowed {patterns : List Text}
    (h : line ∈ Line.allowed patterns t) :
    '\n' ∉ line :=
  Text.no_break_of_mem_splitLines (List.mem_filter.1 h).1

/-- Without tokens to edit, a profile drops lines and that is all. -/
private theorem mapLines_id (profile : Profile) (t : Text) :
    Pipeline.mapLines profile id t = Text.joinLines (Line.allowed profile.removableLines t) := by
  rw [Pipeline.mapLines, List.map_id, Line.dropForbidden_eq]
  rfl

private theorem allowed_of_mem_mapLines
    (h : line ∈ Text.splitLines (Pipeline.mapLines profile id t)) :
    Line.Allowed profile.removableLines line := by
  rw [mapLines_id] at h
  rcases Text.mem_or_eq_nil_of_mem_splitLines (fun _ => no_break_of_mem_allowed) h with
    hkept | rfl
  · exact of_decide_eq_true (List.mem_filter.1 hkept).2
  · exact Line.allowed_nil _

/-- Dropping blank lines leaves lines of the text. -/
theorem mem_or_eq_nil_of_mem_blankLines (h : line ∈ Text.splitLines (Tidy.blankLines t)) :
    line ∈ Text.splitLines t ∨ line = [] := by
  have hsublist := Tidy.dropInner_sublist (Text.splitLines t)
  rw [Tidy.blankLines_eq] at h
  have hbreak (line : Text) (hmem : line ∈ Tidy.dropInner (Text.splitLines t)) : '\n' ∉ line :=
    Text.no_break_of_mem_splitLines (hsublist.subset hmem)
  rcases Text.mem_or_eq_nil_of_mem_splitLines hbreak h with hmem | hnil
  · exact .inl (hsublist.subset hmem)
  · exact .inr hnil

/-- Tidying joins no lines, so those that are left were there before. -/
private theorem allowed_of_mem_tidy (htokens : profile.removableTokens = [])
    (hpairs : profile.replaceableTokens = [])
    (h : line ∈ Text.splitLines (Pipeline.tidy profile t)) :
    Line.Allowed profile.removableLines line := by
  -- without tokens a line is edited to itself
  have hedit : Line.edit profile.removableTokens profile.replaceableTokens = id := by
    rw [htokens, hpairs]
    rfl
  rw [Pipeline.tidy, hedit] at h
  rcases mem_or_eq_nil_of_mem_blankLines h with hmem | rfl
  · exact allowed_of_mem_mapLines hmem
  · exact Line.allowed_nil _

end

-- ============================================================ the passes

/-- No forbidden line survives. A copyright alignment gives the allowed lines
of the text with its strings substituted, in their order; and if a profile
has no tokens to remove or to replace, all lines that a transformation gives
are allowed. -/
theorem forbidden_lines_dropped (profile : Profile) (t : Text) (s : WordSource) :
    (∀ out, ((Pass.copyright.run profile t).run s).result = .ok out →
      (∃ substituted,
        ((substitute profile.copyrightStrings (strip profile.copyrightFeatures t).text).run s).result
          = .ok substituted ∧
        let kept := Line.allowed profile.removableLines substituted
        out = Text.joinLines kept ∧ (kept ≠ [] → Text.splitLines out = kept)) ∧
      ∀ line ∈ Text.splitLines out, ∀ pattern ∈ profile.removableLines, pattern ≠ [] →
        ¬ pattern <:+: line) ∧
    (profile.removableTokens = [] → profile.replaceableTokens = [] →
      ∀ out, ((Pass.transform.run profile t).run s).result = .ok out →
        ∀ line ∈ Text.splitLines out, ∀ pattern ∈ profile.removableLines, pattern ≠ [] →
          ¬ pattern <:+: line) := by
  refine ⟨fun out hout => ?_, fun htokens hpairs out hout line hmem => ?_⟩
  · obtain ⟨substituted, hsubstituted, hfinish⟩ := Pass.exists_substituted hout
    obtain rfl : out = Pipeline.mapLines profile id substituted := hfinish
    refine ⟨⟨substituted, hsubstituted, mapLines_id profile substituted, fun hne => ?_⟩,
      fun line hmem => allowed_of_mem_mapLines hmem⟩
    rw [mapLines_id]
    exact Text.splitLines_joinLines hne fun _ => no_break_of_mem_allowed
  · obtain ⟨substituted, -, hfinish⟩ := Pass.exists_substituted hout
    obtain rfl : out = Pipeline.tidy profile substituted := hfinish
    exact allowed_of_mem_tidy htokens hpairs hmem

/-- A profile that forbids two patterns, one of which its rules bring in. -/
def strictProfile : Profile where
  id := text "Strict"
  removableLines := [text "TODO", text "secret"]
  copyrightStrings := [⟨text "old", text "secret"⟩]
  replaceableStrings := [⟨text "old", text "secret"⟩]

/-- Only the second and the fourth of these lines stay allowed. -/
def strictText : Text := text "old\nfirst\nTODO\nlast\nsecret"

/-- The first line is dropped since substitution makes it forbidden, the
third and the last since they are. -/
theorem forbidden_lines_dropped_strictText :
    let s := WordSource.ofWords [] 0
    ((Pass.copyright.run strictProfile strictText).run s).result = .ok (text "first\nlast") ∧
      (∃ substituted,
        text "first\nlast"
          = Text.joinLines (Line.allowed strictProfile.removableLines substituted)) ∧
      ∃ out, ((Pass.transform.run strictProfile strictText).run s).result = .ok out ∧
        ∀ line ∈ Text.splitLines out, ∀ pattern ∈ strictProfile.removableLines, pattern ≠ [] →
          ¬ pattern <:+: line := by
  intro s
  have hresult : ((Pass.copyright.run strictProfile strictText).run s).result
      = .ok (text "first\nlast") := by decide +kernel
  have hvalid : strictProfile.validate = .ok () := by decide
  obtain ⟨out, hout⟩ := Pass.run_of_validate hvalid .transform strictText s
  obtain ⟨hcopyright, htransform⟩ := forbidden_lines_dropped strictProfile strictText s
  obtain ⟨⟨substituted, -, hjoined, -⟩, -⟩ := hcopyright _ hresult
  exact ⟨hresult, ⟨substituted, hjoined⟩, out, hout, htransform rfl rfl out hout⟩

end TaggedSource

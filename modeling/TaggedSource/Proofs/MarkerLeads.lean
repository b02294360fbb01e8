/-
No marker is left by a transformation of a built-in profile.

Every stage of a transformation can put a marker together: what is deleted
lets its two sides meet, and what is put in meets what stands around it.
The last edit of each line rules all of them out. It replaces the lead of
markers by a text that begins like the lead and then differs, with a first
character that neither has again; so no lead reaches into or out of a
replaced place (`not_occursIn_replaceAll`). Behind it lines are joined and
dropped, and a lead has no line feed (`not_occursIn_tidy`).

Every token begins with the lead, so stripping the output finds nothing
(`transform_leaves_no_marker`).
-/
import TaggedSource.Catalogue.Builtin
import TaggedSource.Proofs.Lines
import TaggedSource.Proofs.Reduction
import TaggedSource.Proofs.Totality

namespace TaggedSource

-- ============================================================ all lines

/-- What the last replacement of a line leaves no trace of, no line of the
tidied text has. -/
theorem not_occursIn_tidy {profile : Profile} {pairs : List TokenPair} {pair : TokenPair}
    (hpairs : profile.replaceableTokens = pairs ++ [pair]) (hne : pair.old ≠ [])
    (hbreak : '\n' ∉ pair.old)
    (hgone : ∀ line, Text.occursIn pair.old (Line.replaceToken pair line) = false) (t : Text) :
    Text.occursIn pair.old (Pipeline.tidy profile t) = false := by
  unfold Pipeline.tidy
  apply Tidy.occursIn_blankLines hne hbreak
  unfold Pipeline.mapLines
  rw [Text.occursIn_joinLines hne hbreak, List.any_eq_false]
  intro line hline
  obtain ⟨kept, -, rfl⟩ := List.mem_map.1 hline
  rw [Line.edit, hpairs, List.foldl_append, List.foldl_cons, List.foldl_nil, hgone]
  exact Bool.false_ne_true

/-- The pair that both profiles have. -/
theorem not_occursIn_replaceToken (line : Text) :
    Text.occursIn markerLead (Line.replaceToken ⟨markerLead, text "/*?@-"⟩ line) = false :=
  Text.not_occursIn_replaceAll (c := '/') (p := text "*Piranhito?@-") (q := text "*?@-")
    (by decide) (by decide) (by decide) (by decide) line

/-- No token occurs where the lead of markers does not. -/
theorem not_occursIn_token {t : Text} (h : Text.occursIn markerLead t = false) (f : Feature)
    (mark : Mark) : Text.occursIn (f.token mark) t = false := by
  refine Text.occursIn_of_isInfix ?_ h
  refine ⟨[], f.id ++ ['-', mark.letter] ++ f.eyecatcher ++ markerTail, ?_⟩
  simp [Feature.token]

-- ============================================================== profiles

/-- A pass that gives a text has finished some text. -/
theorem Pass.exists_of_run_ok {pass : Pass} {profile : Profile} {t out : Text} {s : WordSource}
    (h : ((pass.run profile t).run s).result = .ok out) : ∃ u, out = pass.finish profile u := by
  obtain ⟨substituted, -, hfinish⟩ := Pass.exists_substituted h
  exact ⟨substituted, hfinish⟩

theorem run_builtin {σ : Type} (s : σ) :
    (Catalogue.builtin.run s).result = .ok ⟨[Builtin.orientamento, Builtin.snifferUtil]⟩ := by
  refine Catalogue.ofProfiles_of_valid s (fun profile hprofile => ?_) (by decide)
  rcases List.mem_cons.1 hprofile with rfl | hprofile
  · decide +kernel
  · obtain rfl := List.mem_singleton.1 hprofile
    decide +kernel

/-- There is a catalogue of the built-in profiles, and a transformation
with any of them gives, of every text and with every word source, a text
without the lead of markers, in which stripping finds nothing. -/
theorem transform_leaves_no_marker :
    ∃ catalogue, (Catalogue.builtin.run ()).result = .ok catalogue ∧
      catalogue.ids = [text "Orientamento", text "SnifferUtil"] ∧
      ∀ profile ∈ catalogue.profiles, ∀ (t : Text) (s : WordSource),
        ∃ out, ((Pass.transform.run profile t).run s).result = .ok out ∧
          Text.occursIn markerLead out = false ∧
          strip profile.removableFeatures out
            = { text := out, removed := 0, guarded := 0, unbalanced := [] } := by
  refine ⟨_, run_builtin (), rfl, fun profile hprofile t s => ?_⟩
  have hvalid := Catalogue.validate_of_ofProfiles (run_builtin ()) profile hprofile
  obtain ⟨out, hout⟩ := Pass.run_of_validate hvalid .transform t s
  have hpairs : profile.replaceableTokens = [] ++ [⟨markerLead, text "/*?@-"⟩] := by
    rcases List.mem_cons.1 hprofile with rfl | hprofile
    · rfl
    · obtain rfl := List.mem_singleton.1 hprofile
      rfl
  have hgone : Text.occursIn markerLead out = false := by
    obtain ⟨u, rfl⟩ := Pass.exists_of_run_ok hout
    exact not_occursIn_tidy hpairs (by decide) (by decide) not_occursIn_replaceToken u
  refine ⟨out, hout, hgone, ?_⟩
  exact resolveAll_eq_self_iff.2 fun f _ => not_occursIn_token hgone f .start

/-- A start marker without its end, inside another that is whole only when
the logger's region is gone. -/
def overlapping : Text :=
  text "/*Piran/*Piranhito?@-Logger-S@85Lbt3@*/" ++
    text "/*Piranhito?@-Logger-E@85Lbt3@*/hito?@-Grapher-S@4Fu5VH@*/"

theorem transform_leaves_no_marker_overlapping :
    Text.occursIn markerLead overlapping = true ∧
      ∃ out, ((Pass.transform.run Builtin.snifferUtil overlapping).run
          (WordSource.ofWords [] 0)).result = .ok out ∧
        Text.occursIn markerLead out = false ∧
        strip Builtin.snifferUtil.removableFeatures out
          = { text := out, removed := 0, guarded := 0, unbalanced := [] } := by
  refine ⟨by decide +kernel, ?_⟩
  obtain ⟨catalogue, hcatalogue, -, h⟩ := transform_leaves_no_marker
  obtain rfl := Except.ok.inj ((run_builtin ()).symm.trans hcatalogue)
  exact h Builtin.snifferUtil (by simp) overlapping (WordSource.ofWords [] 0)

end TaggedSource

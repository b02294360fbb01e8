/-
The texts never reach the word source.

A run of several calls goes on with one word source from call to call. Two
runs that ask for the same passes of the same profiles, on whatever texts,
draw the same identifiers, leave the source in the same place after each
call, and fail alike (`runSteps_alike`). What a call makes of its text is
what it would make of it with the identifiers it drew written into the
rules.
-/
import Mathlib.Data.List.Forall2
import Mathlib.Data.List.Permutation
import TaggedSource.Proofs.Catalogue
import TaggedSource.Proofs.Drawing

namespace TaggedSource

-- ============================================================ two runs

/-- Outcomes that differ in nothing but the text of the result and what is
reported of it. -/
structure Outcome.Alike (o o' : Outcome WordSource Text) : Prop where
  /-- The source is left in the same place. -/
  state : o.state = o'.state
  /-- Both succeed, or both fail with the same failure. -/
  verdict : o.result.map (fun _ => ()) = o'.result.map fun _ => ()
  /-- The same identifiers were drawn. -/
  generated : generated o.log = generated o'.log

private theorem generated_append (log more : List Log.Event) :
    generated (log ++ more) = generated log ++ generated more :=
  List.filterMap_append

/-- A pass draws the same for every text. -/
theorem Pass.run_alike (pass : Pass) (profile : Profile) (t t' : Text) (s : WordSource) :
    ((pass.run profile t).run s).Alike ((pass.run profile t').run s) := by
  rw [Pass.run_run, Pass.run_run]
  refine ⟨rfl, ?_, ?_⟩
  · cases ((settleAll (pass.rules profile)).run s).result <;> rfl
  · simp only [generated_append, Pass.generated_stripEvents]

theorem Catalogue.run_alike (catalogue : Catalogue) (pass : Pass) (id t t' : Text)
    (s : WordSource) :
    ((catalogue.run pass id t).run s).Alike ((catalogue.run pass id t').run s) := by
  cases hget : catalogue.get id with
  | error cause =>
      rw [run_of_get_error hget, run_of_get_error hget]
      exact ⟨rfl, rfl, rfl⟩
  | ok profile =>
      rw [run_of_get_ok hget, run_of_get_ok hget]
      exact pass.run_alike profile t t' s

/-- Runs that ask for the same are alike call by call. The induction is
over the calls: alike outcomes leave the same source, from which the next
two calls start. -/
theorem Catalogue.runSteps_alike (catalogue : Catalogue) {steps others : List Step}
    (h : steps.map Step.request = others.map Step.request) (s : WordSource) :
    List.Forall₂ Outcome.Alike (catalogue.runSteps steps s) (catalogue.runSteps others s) := by
  induction steps generalizing others s with
  | nil =>
      obtain rfl : others = [] := List.map_eq_nil_iff.1 h.symm
      exact .nil
  | cons step steps ih =>
      obtain ⟨other, others, rfl⟩ : ∃ other rest, others = other :: rest := by
        cases others with
        | nil => cases h
        | cons other rest => exact ⟨other, rest, rfl⟩
      obtain ⟨hrequest, hrest⟩ := List.cons.inj h
      obtain ⟨hpass, hid⟩ := Prod.mk.inj hrequest
      have halike : ((catalogue.run step.pass step.id step.content).run s).Alike
          ((catalogue.run other.pass other.id other.content).run s) := by
        rw [← hpass, ← hid]
        exact catalogue.run_alike step.pass step.id step.content other.content s
      refine .cons halike ?_
      rw [halike.state]
      exact ih hrest _

-- ========================================================= each call

/-- A call makes of its text what it would make of it with the identifiers
that it drew written into the rules, from any source and without a word. -/
theorem Pass.run_literalise {pass : Pass} {profile : Profile} {t out : Text} {s : WordSource}
    (h : ((pass.run profile t).run s).result = .ok out) (s' : WordSource) :
    let rules := literalise (pass.rules profile) (generated ((pass.run profile t).run s).log)
    ((pass.run (pass.withRules profile rules) t).run s').result = .ok out ∧
      ((pass.run (pass.withRules profile rules) t).run s').state = s' := by
  intro rules
  rw [Pass.run_run] at h
  cases hsettle : ((settleAll (pass.rules profile)).run s).result with
  | error cause =>
      rw [hsettle] at h
      cases h
  | ok settled =>
      rw [hsettle] at h
      obtain ⟨heq, hfixed⟩ := settleAll_ok hsettle
      have hrules : rules = settled := by
        simp only [rules, Pass.run_run, generated_append, Pass.generated_stripEvents,
          List.nil_append, heq]
      rw [hrules, Pass.run_run, Pass.rules_withRules, Pass.output_withRules,
        run_settleAll_of_isFixed hfixed]
      exact ⟨h, rfl⟩

/-- A pass whose rules ask for no more than the underscore takes no word
and gives the same whatever the source. -/
theorem Pass.run_of_short {pass : Pass} {profile : Profile}
    (h : ∀ rule ∈ pass.rules profile, ∀ length,
      Replacement.parse rule.replacement = .ok (.random length) → length < 2)
    (t : Text) (s : WordSource) :
    ((pass.run profile t).run s).state = s ∧
      ∀ s', ((pass.run profile t).run s').result = ((pass.run profile t).run s).result := by
  obtain ⟨hstate, hresult⟩ := settleAll_of_short h s
  refine ⟨?_, fun s' => ?_⟩
  · rw [Pass.run_run, hstate]
  · rw [Pass.run_run, Pass.run_run, hresult s']

/-- A pass with literal rules gives the same whatever the source. -/
theorem Pass.run_of_literal {pass : Pass} {profile : Profile}
    (h : ∀ rule ∈ pass.rules profile,
      Replacement.parse rule.replacement = .ok (.literal rule.replacement))
    (t : Text) (s s' : WordSource) :
    ((pass.run profile t).run s').result = ((pass.run profile t).run s).result := by
  refine (Pass.run_of_short (fun rule hrule length hparse => ?_) t s).2 s'
  cases (h rule hrule).symm.trans hparse

/-- The texts never reach the word source: runs that ask for the same are
alike; a call gives what its rules give with the drawn identifiers written
in; a call for an unknown profile takes no word; and a call whose rules
ask for no more than the underscore takes none and does not depend on the
source. -/
theorem texts_never_reach_source (catalogue : Catalogue) :
    (∀ (steps others : List Step) (s : WordSource),
      steps.map Step.request = others.map Step.request →
        List.Forall₂ Outcome.Alike (catalogue.runSteps steps s)
          (catalogue.runSteps others s)) ∧
    (∀ (pass : Pass) (id t out : Text) (profile : Profile) (s s' : WordSource),
      catalogue.get id = .ok profile →
      ((catalogue.run pass id t).run s).result = .ok out →
        let rules := literalise (pass.rules profile)
          (generated ((catalogue.run pass id t).run s).log)
        ((pass.run (pass.withRules profile rules) t).run s').result = .ok out ∧
          ((pass.run (pass.withRules profile rules) t).run s').state = s') ∧
    (∀ (pass : Pass) (id t : Text) (s : WordSource),
      id ∉ catalogue.ids → ((catalogue.run pass id t).run s).state = s) ∧
    (∀ (pass : Pass) (id t : Text) (profile : Profile) (s : WordSource),
      catalogue.get id = .ok profile →
      (∀ rule ∈ pass.rules profile, ∀ length,
        Replacement.parse rule.replacement = .ok (.random length) → length < 2) →
        ((catalogue.run pass id t).run s).state = s ∧
          ∀ s', ((catalogue.run pass id t).run s').result
            = ((catalogue.run pass id t).run s).result) := by
  refine ⟨fun steps others s h => catalogue.runSteps_alike h s, ?_, ?_, ?_⟩
  · intro pass id t out profile s s' hget hout
    rw [Catalogue.run_of_get_ok hget] at hout ⊢
    exact Pass.run_literalise hout s'
  · intro pass id t s hid
    rw [Catalogue.run_of_get_error (Catalogue.get_of_not_mem hid)]
  · intro pass id t profile s hget hshort
    simp only [Catalogue.run_of_get_ok hget]
    exact Pass.run_of_short hshort t s

/-- A profile that draws in one pass and not in the other. -/
def drawingProfile : Profile where
  id := text "Draws"
  replaceableStrings := [⟨text "KEY", text "@Random(1)"⟩]
  copyrightStrings := [⟨text "KEY", text "@Random(3)"⟩, ⟨text "a", text "b"⟩]

/-- Words of which the second is no letter. -/
def drawingWords : WordSource :=
  WordSource.ofWords [0x08000000, 0xFC000000, 0x0C000000] 7

/-- Two runs on different texts; a call that draws, and its rules with the
drawn identifier written in; one for an unknown profile; and one that asks
for the underscore only. -/
theorem texts_never_reach_source_drawingProfile :
    List.Forall₂ Outcome.Alike
        (Catalogue.runSteps ⟨[drawingProfile]⟩
          [⟨.copyright, text "Draws", text "KEY"⟩, ⟨.transform, [], text "x"⟩] drawingWords)
        (Catalogue.runSteps ⟨[drawingProfile]⟩
          [⟨.copyright, text "Draws", []⟩, ⟨.transform, [], text "KEY"⟩] drawingWords) ∧
      ((Catalogue.run ⟨[drawingProfile]⟩ .copyright (text "Draws") (text "a KEY")).run
        drawingWords).result = .ok (text "b _CD") ∧
      ((Pass.copyright.run (Pass.copyright.withRules drawingProfile
          [⟨text "KEY", text "_CD"⟩, ⟨text "a", text "b"⟩]) (text "a KEY")).run
        drawingWords.advance).result = .ok (text "b _CD") ∧
      ((Catalogue.run ⟨[drawingProfile]⟩ .transform (text "Drawn") []).run
        drawingWords).state = drawingWords ∧
      ((Catalogue.run ⟨[drawingProfile]⟩ .transform (text "Draws") (text "KEY")).run
        drawingWords).state = drawingWords := by
  obtain ⟨halike, hliteral, hunknown, hshort⟩ := texts_never_reach_source ⟨[drawingProfile]⟩
  have hget : Catalogue.get ⟨[drawingProfile]⟩ (text "Draws") = .ok drawingProfile := by decide
  have hresult : ((Catalogue.run ⟨[drawingProfile]⟩ .copyright (text "Draws")
      (text "a KEY")).run drawingWords).result = .ok (text "b _CD") := by cbv
  have hgenerated : generated ((Catalogue.run ⟨[drawingProfile]⟩ .copyright (text "Draws")
      (text "a KEY")).run drawingWords).log = [text "_CD"] := by cbv
  have hdrawn := (hliteral _ _ _ _ _ _ drawingWords.advance hget hresult).1
  rw [hgenerated] at hdrawn
  refine ⟨halike _ _ _ rfl, hresult, hdrawn, hunknown _ _ _ _ (by decide), ?_⟩
  refine (hshort .transform _ _ _ _ hget ?_).1
  intro rule hrule length hparse
  obtain rfl : rule = ⟨text "KEY", text "@Random(1)"⟩ := List.mem_singleton.1 hrule
  have hone : Replacement.parse (text "@Random(1)") = .ok (.random 1) := by decide
  rw [hone] at hparse
  cases hparse
  decide

end TaggedSource

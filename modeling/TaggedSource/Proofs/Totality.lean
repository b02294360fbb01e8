/-
Validation rules out failures.

What a profile is checked for when it is registered and what its rules can
fail with when a pass applies them are two different pieces of code. They
agree: a pass fails exactly if one of its rules looks for something and has
a broken directive, with the failure of the first such rule and whatever
the text (`Pass.run_error_iff`), and a valid profile has no such rule. So a
call on a catalogue fails for an unknown id and for nothing else.
-/
import Mathlib.Data.List.Forall2
import TaggedSource.Proofs.Catalogue
import TaggedSource.Proofs.Drawing

namespace TaggedSource

-- =============================================================== rules

/-- A rule fails if it looks for something and its directive is broken. -/
theorem Rule.failure?_eq_some_iff {rule : Rule} {cause : Failure} :
    rule.failure? = some cause ↔
      rule.pattern ≠ [] ∧ ∃ flaw, Replacement.parse rule.replacement = .error flaw ∧
        cause = .badDirective rule flaw := by
  unfold failure?
  by_cases hpattern : rule.pattern = []
  · simp [hpattern]
  · cases hparse : Replacement.parse rule.replacement with
    | error flaw =>
        rw [if_neg (by simpa using hpattern)]
        constructor
        · intro h
          cases h
          exact ⟨hpattern, flaw, rfl, rfl⟩
        · rintro ⟨-, flaw', hflaw, rfl⟩
          cases hflaw
          rfl
    | ok replacement => simp [hpattern]

/-- A rule does not fail if it looks for nothing or its right side can be
read. -/
theorem Rule.failure?_eq_none_iff {rule : Rule} :
    rule.failure? = none ↔
      rule.pattern = [] ∨ ∃ replacement,
        Replacement.parse rule.replacement = .ok replacement := by
  unfold failure?
  by_cases hpattern : rule.pattern = []
  · simp [hpattern]
  · cases hparse : Replacement.parse rule.replacement with
    | error flaw => simp [hpattern]
    | ok replacement => simp [hpattern]

/-- A rule that passes its check does not fail. -/
theorem Rule.failure?_of_checkRule {profile : Profile} {rule : Rule}
    (h : profile.checkRule rule = .ok ()) : rule.failure? = none := by
  rw [failure?_eq_none_iff]
  unfold Profile.checkRule at h
  split at h
  · cases h
  · split at h
    · cases h
    · next replacement hparse => exact .inr ⟨replacement, hparse⟩

-- ============================================================== passes

/-- A pass fails exactly if one of its rules does, with the failure of the
first that does. -/
theorem Pass.run_error_iff {pass : Pass} {profile : Profile} {t : Text} {s : WordSource}
    {cause : Failure} :
    ((pass.run profile t).run s).result = .error cause
      ↔ (pass.rules profile).findSome? Rule.failure? = some cause := by
  rw [Pass.run_run, ← settleAll_error_iff (s := s)]
  cases ((settleAll (pass.rules profile)).run s).result <;> simp [Except.map]

/-- No rule of a valid profile fails, in either pass. -/
theorem Pass.findSome?_of_validate {profile : Profile} (h : profile.validate = .ok ())
    (pass : Pass) : (pass.rules profile).findSome? Rule.failure? = none := by
  rw [List.findSome?_eq_none_iff]
  intro rule hrule
  refine Rule.failure?_of_checkRule (Profile.checkRule_of_validate h rule ?_)
  cases pass with
  | transform => exact List.mem_append_left _ hrule
  | copyright => exact List.mem_append_right _ hrule

/-- A pass of a valid profile gives a text. -/
theorem Pass.run_of_validate {profile : Profile} (h : profile.validate = .ok ())
    (pass : Pass) (t : Text) (s : WordSource) :
    ∃ out, ((pass.run profile t).run s).result = .ok out := by
  cases hresult : ((pass.run profile t).run s).result with
  | error cause =>
      have hfails := Pass.run_error_iff.1 hresult
      rw [Pass.findSome?_of_validate h pass] at hfails
      cases hfails
  | ok out => exact ⟨out, rfl⟩

-- =============================================================== calls

/-- A call on a catalogue of valid profiles fails exactly if it asks for an
unknown one. -/
theorem Catalogue.run_error_iff {catalogue : Catalogue}
    (h : ∀ profile ∈ catalogue.profiles, profile.validate = .ok ()) {pass : Pass}
    {id t : Text} {s : WordSource} {cause : Failure} :
    ((catalogue.run pass id t).run s).result = .error cause
      ↔ id ∉ catalogue.ids ∧ cause = .unknownProfile id catalogue.ids := by
  by_cases hid : id ∈ catalogue.ids
  · obtain ⟨profile, hmem, -, hget⟩ := get_of_mem hid
    obtain ⟨out, hout⟩ := Pass.run_of_validate (h profile hmem) pass t s
    rw [run_of_get_ok hget, hout]
    simp [hid]
  · rw [run_of_get_error (get_of_not_mem hid)]
    simp [hid, eq_comm]

/-- The same for every call of a run. -/
theorem Catalogue.runSteps_error_iff {catalogue : Catalogue}
    (h : ∀ profile ∈ catalogue.profiles, profile.validate = .ok ()) (steps : List Step)
    (s : WordSource) :
    List.Forall₂ (fun step outcome => ∀ cause, outcome.result = .error cause ↔
        step.id ∉ catalogue.ids ∧ cause = .unknownProfile step.id catalogue.ids)
      steps (catalogue.runSteps steps s) := by
  induction steps generalizing s with
  | nil => exact .nil
  | cons step steps ih => exact .cons (fun _ => run_error_iff h) (ih _)

/-- Validation rules out failures: a pass of a valid profile gives a text;
a call on a catalogue of registered profiles fails exactly for an unknown
id; and a pass of any profile fails exactly if one of its rules looks for
something and has a broken directive, with the failure of the first such
rule. -/
theorem validation_rules_out_failure :
    (∀ (profile : Profile) (pass : Pass) (t : Text) (s : WordSource),
      profile.validate = .ok () →
        ∃ out, ((pass.run profile t).run s).result = .ok out) ∧
    (∀ (profiles : List Profile) (catalogue : Catalogue) (steps : List Step)
      (s : WordSource),
      ((Catalogue.ofProfiles profiles : Action Unit Catalogue).run ()).result
        = .ok catalogue →
        List.Forall₂ (fun step outcome => ∀ cause, outcome.result = .error cause ↔
            step.id ∉ catalogue.ids ∧ cause = .unknownProfile step.id catalogue.ids)
          steps (catalogue.runSteps steps s)) ∧
    (∀ (profile : Profile) (pass : Pass) (t : Text) (s : WordSource) (cause : Failure),
      ((pass.run profile t).run s).result = .error cause ↔
        ∃ before rule after flaw, pass.rules profile = before ++ rule :: after ∧
          rule.pattern ≠ [] ∧ Replacement.parse rule.replacement = .error flaw ∧
          cause = .badDirective rule flaw ∧
          ∀ other ∈ before, other.pattern = [] ∨ ∃ replacement,
            Replacement.parse other.replacement = .ok replacement) := by
  refine ⟨fun profile pass t s h => Pass.run_of_validate h pass t s,
    fun profiles catalogue steps s h =>
      Catalogue.runSteps_error_iff (Catalogue.validate_of_ofProfiles h) steps s, ?_⟩
  intro profile pass t s cause
  rw [Pass.run_error_iff, List.findSome?_eq_some_iff]
  constructor
  · rintro ⟨before, rule, after, hrules, hfailure, hbefore⟩
    obtain ⟨hpattern, flaw, hparse, hcause⟩ := Rule.failure?_eq_some_iff.1 hfailure
    exact ⟨before, rule, after, flaw, hrules, hpattern, hparse, hcause,
      fun other hother => Rule.failure?_eq_none_iff.1 (hbefore other hother)⟩
  · rintro ⟨before, rule, after, flaw, hrules, hpattern, hparse, hcause, hbefore⟩
    exact ⟨before, rule, after, hrules,
      Rule.failure?_eq_some_iff.2 ⟨hpattern, flaw, hparse, hcause⟩,
      fun other hother => Rule.failure?_eq_none_iff.2 (hbefore other hother)⟩

/-- A valid profile. -/
def validProfile : Profile where
  id := text "Valid"
  replaceableStrings := [⟨text "KEY", text "@Random(8)"⟩]

/-- A profile with two broken directives, the first of which stands in a
rule that looks for nothing. -/
def brokenProfile : Profile where
  id := text "Broken"
  replaceableStrings := [⟨[], text "@Random(0)"⟩, ⟨text "K", text "@Random(8"⟩]

/-- The valid profile alone and in a catalogue, with a call for an unknown
id beside one for the profile; and the broken one. -/
theorem validation_rules_out_failure_sample :
    (∃ out, ((Pass.transform.run validProfile (text "KEY")).run
        (WordSource.ofWords [] 0)).result = .ok out) ∧
      List.Forall₂ (fun step outcome => ∀ cause, outcome.result = .error cause ↔
          step.id ∉ [text "Valid"] ∧ cause = .unknownProfile step.id [text "Valid"])
        [(⟨.transform, text "Valid", []⟩ : Step), ⟨.copyright, text "valid", []⟩]
        (Catalogue.runSteps ⟨[validProfile]⟩
          [⟨.transform, text "Valid", []⟩, ⟨.copyright, text "valid", []⟩]
          (WordSource.ofWords [] 0)) ∧
      ((Pass.transform.run brokenProfile []).run (WordSource.ofWords [] 0)).result
        = .error (.badDirective ⟨text "K", text "@Random(8"⟩ .unclosed) := by
  obtain ⟨hvalid, hcalls, hbroken⟩ := validation_rules_out_failure
  refine ⟨hvalid validProfile .transform _ _ (by decide),
    hcalls [validProfile] ⟨[validProfile]⟩ _ _ (by decide), (hbroken _ .transform _ _ _).2 ?_⟩
  refine ⟨[⟨[], text "@Random(0)"⟩], ⟨text "K", text "@Random(8"⟩, [], .unclosed, rfl,
    by decide, by decide, rfl, fun other hother => .inl ?_⟩
  obtain rfl : other = ⟨[], text "@Random(0)"⟩ := List.mem_singleton.1 hother
  rfl

end TaggedSource

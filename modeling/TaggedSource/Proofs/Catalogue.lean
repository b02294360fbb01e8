/-
Catalogues: what may be in them, what is found in them, and how they are made.

Looking up an id finds a profile exactly if the id is one of the catalogue's
(`get_of_mem`, `get_of_not_mem`), and there is only one to be found where ids
are distinct (`get_of_distinct`). The checks of a profile pass exactly if it
is valid (`validate_eq_ok_iff`).

# Registration

Profiles are registered one after the other. Either all of them are eligible,
or there is a first one that is refused (`eligible_or_refused`), and the ones
before it are registered as if it were not there (`run_registerAll_append`).
These two tell the outcome for every list of profiles
(`ofProfiles_takes_valid_distinct`).

A run of several calls on a catalogue (`runSteps`) goes on with one word
source from call to call.
-/
import Mathlib.Data.List.Nodup
import Mathlib.Data.List.TakeWhile
import TaggedSource.Pipeline
import TaggedSource.Proofs.Action

namespace TaggedSource

-- ============================================================= look-up

namespace Catalogue

/-- There is a profile for every id of a catalogue. -/
theorem get_of_mem {catalogue : Catalogue} {id : Text} (h : id ∈ catalogue.ids) :
    ∃ profile ∈ catalogue.profiles, profile.id = id ∧ catalogue.get id = .ok profile := by
  cases hfind : catalogue.profiles.find? (fun profile => profile.id = id) with
  | none =>
      obtain ⟨profile, hmem, hid⟩ := List.mem_map.1 h
      have hnone := List.find?_eq_none.1 hfind profile hmem
      simp [hid] at hnone
  | some profile =>
      have hid : profile.id = id := by simpa using List.find?_some hfind
      refine ⟨profile, List.mem_of_find?_eq_some hfind, hid, ?_⟩
      rw [get, hfind]

/-- There is none for any other id. -/
theorem get_of_not_mem {catalogue : Catalogue} {id : Text} (h : id ∉ catalogue.ids) :
    catalogue.get id = .error (.unknownProfile id catalogue.ids) := by
  have hfind : catalogue.profiles.find? (fun profile => profile.id = id) = none := by
    rw [List.find?_eq_none]
    intro profile hmem hid
    exact h (List.mem_map.2 ⟨profile, hmem, by simpa using hid⟩)
  rw [get, hfind]

/-- What is found is one of the profiles, and has the id. -/
theorem mem_of_get_ok {catalogue : Catalogue} {id : Text} {profile : Profile}
    (h : catalogue.get id = .ok profile) :
    profile ∈ catalogue.profiles ∧ profile.id = id := by
  by_cases hid : id ∈ catalogue.ids
  · obtain ⟨found, hmem, hfound, hget⟩ := get_of_mem hid
    rw [hget] at h
    cases h
    exact ⟨hmem, hfound⟩
  · rw [get_of_not_mem hid] at h
    cases h

/-- Where ids are distinct, each profile is found by its own. -/
theorem get_of_distinct {catalogue : Catalogue} (hids : catalogue.ids.Nodup) {profile : Profile}
    (h : profile ∈ catalogue.profiles) : catalogue.get profile.id = .ok profile := by
  obtain ⟨found, hmem, hid, hget⟩ := get_of_mem (List.mem_map_of_mem h)
  rw [hget, List.inj_on_of_nodup_map hids hmem h hid]

end Catalogue

-- =========================================================== validity

/-- Nothing is left of a text at whose ends white space is cut off exactly
if it is all white space. -/
theorem Text.trim_eq_nil_iff {t : Text} : trim t = [] ↔ ∀ c ∈ t, isBlank c = true := by
  rw [trim, List.reverse_eq_nil_iff, List.dropWhile_eq_nil_iff]
  simp only [List.mem_reverse]
  constructor
  · intro h
    by_cases hnil : t.dropWhile isBlank = []
    · exact List.dropWhile_eq_nil_iff.1 hnil
    · -- what the front is cut off from does not begin with white space
      have hhead := List.head_dropWhile_not isBlank hnil
      rw [h _ (List.head_mem hnil)] at hhead
      cases hhead
  · exact fun h c hc => h c ((List.dropWhile_sublist isBlank).subset hc)

namespace Profile

/-- What a profile must have to be registered. -/
structure IsValid (profile : Profile) : Prop where
  /-- The id is not all white space. -/
  id : ∃ c ∈ profile.id, Text.isBlank c = false
  /-- The features of both passes are complete. -/
  features : ∀ feature ∈ profile.removableFeatures ++ profile.copyrightFeatures,
    feature.id ≠ [] ∧ feature.eyecatcher ≠ []
  /-- The rules of both passes look for something and can be read. -/
  rules : ∀ rule ∈ profile.replaceableStrings ++ profile.copyrightStrings,
    rule.pattern ≠ [] ∧ ∃ replacement, Replacement.parse rule.replacement = .ok replacement
  /-- No line pattern is empty. -/
  lines : [] ∉ profile.removableLines
  /-- No token to remove is empty. -/
  tokens : [] ∉ profile.removableTokens
  /-- No token to replace is empty. -/
  pairs : ∀ pair ∈ profile.replaceableTokens, pair.old ≠ []

/-- A check of a list passes if it passes on every member. -/
theorem checkAll_eq_ok_iff {α : Type} {check : α → Except Failure Unit} {list : List α} :
    checkAll check list = .ok () ↔ ∀ x ∈ list, check x = .ok () := by
  induction list with
  | nil => simp [checkAll]
  | cons x list ih =>
      rw [checkAll, List.forall_mem_cons]
      cases hcheck : check x with
      | error cause => simp
      | ok u => simp [ih]

private theorem refuse_eq_ok_iff {condition : Bool} {cause : Misconfiguration} :
    refuse condition cause = .ok () ↔ condition = false := by
  cases condition <;> simp [refuse]

/-- Checks in a row pass if each of them does. -/
theorem seq_eq_ok_iff {first next : Except Failure Unit} :
    (first >>= fun _ => next) = .ok () ↔ first = .ok () ∧ next = .ok () := by
  cases first with
  | error cause => simp [bind, Except.bind]
  | ok u => simp [bind, Except.bind]

/-- A feature passes its check if it has an id and an eyecatcher. -/
private theorem checkFeature_eq_ok_iff {profile : Profile} {feature : Feature} :
    profile.checkFeature feature = .ok () ↔ feature.id ≠ [] ∧ feature.eyecatcher ≠ [] := by
  rw [checkFeature]
  split
  · next h =>
    have hempty : feature.id = [] ∨ feature.eyecatcher = [] := by simpa using h
    simp only [reduceCtorEq, false_iff]
    rintro ⟨hid, heye⟩
    exact hempty.elim hid heye
  · next h => simpa [not_or] using h

/-- A rule passes its check if it looks for something and its right side can
be read. -/
private theorem checkRule_eq_ok_iff {profile : Profile} {rule : Rule} :
    profile.checkRule rule = .ok () ↔
      rule.pattern ≠ [] ∧ ∃ replacement, Replacement.parse rule.replacement = .ok replacement := by
  rw [checkRule]
  split
  · next h => simp [List.isEmpty_iff.1 h]
  · next h =>
    have hne : rule.pattern ≠ [] := by simpa using h
    cases hparse : Replacement.parse rule.replacement with
    | error flaw => simp
    | ok replacement => simp [hne]

/-- The checks pass exactly on the valid profiles. -/
theorem validate_eq_ok_iff {profile : Profile} : profile.validate = .ok () ↔ profile.IsValid := by
  have hid : (Text.trim profile.id).isEmpty = false ↔ ∃ c ∈ profile.id, Text.isBlank c = false := by
    rw [List.isEmpty_eq_false_iff, ne_eq, Text.trim_eq_nil_iff]
    simp
  have hempty (list : List Text) : list.any (·.isEmpty) = false ↔ [] ∉ list := by
    rw [List.any_eq_false]
    constructor
    · exact fun h hmem => h [] hmem rfl
    · exact fun h x hmem hx => h (List.isEmpty_iff.1 hx ▸ hmem)
  have hpairs : profile.replaceableTokens.any (·.old.isEmpty) = false ↔
      ∀ pair ∈ profile.replaceableTokens, pair.old ≠ [] := by
    simp [List.any_eq_false]
  rw [validate]
  simp only [seq_eq_ok_iff, refuse_eq_ok_iff, checkAll_eq_ok_iff, checkFeature_eq_ok_iff,
    checkRule_eq_ok_iff, hid, hempty, hpairs]
  constructor
  · rintro ⟨hid, hfeatures, hrules, hlines, htokens, hpairs⟩
    exact ⟨hid, hfeatures, hrules, hlines, htokens, hpairs⟩
  · rintro ⟨hid, hfeatures, hrules, hlines, htokens, hpairs⟩
    exact ⟨hid, hfeatures, hrules, hlines, htokens, hpairs⟩

/-- The rules of a valid profile, of either pass, pass their check. -/
theorem checkRule_of_validate {profile : Profile} (h : profile.validate = .ok ()) :
    ∀ rule ∈ profile.replaceableStrings ++ profile.copyrightStrings,
      profile.checkRule rule = .ok () :=
  fun rule hrule => checkRule_eq_ok_iff.2 ((validate_eq_ok_iff.1 h).rules rule hrule)

end Profile

-- ======================================================== registration

namespace Catalogue

variable {σ : Type}

/-- Why a profile is turned down where ids are taken. -/
inductive Refused (taken : List Text) (profile : Profile) : Failure → Prop where
  /-- It is not valid. -/
  | invalid {cause : Failure} (h : profile.validate = .error cause) : Refused taken profile cause
  /-- It is valid, but its id is taken. -/
  | duplicate (h : profile.IsValid) (hid : profile.id ∈ taken) :
      Refused taken profile (.misconfigured (.duplicateProfile profile.id))

/-- Profiles that are all valid, with ids that are neither taken nor
repeated. -/
structure Eligible (taken : List Text) (profiles : List Profile) : Prop where
  valid : ∀ profile ∈ profiles, profile.IsValid
  free : ∀ profile ∈ profiles, profile.id ∉ taken
  distinct : (profiles.map (·.id)).Nodup

private theorem eligible_nil (taken : List Text) : Eligible taken [] := by
  constructor <;> simp

/-- All profiles can be taken if they are valid and no two share an id. -/
private theorem eligible_nil_iff {profiles : List Profile} :
    Eligible [] profiles ↔
      (∀ profile ∈ profiles, profile.IsValid) ∧ (profiles.map (·.id)).Nodup :=
  ⟨fun h => ⟨h.valid, h.distinct⟩, fun h => ⟨h.1, fun _ _ => List.not_mem_nil, h.2⟩⟩

private theorem eligible_cons {taken : List Text} {profile : Profile} {profiles : List Profile} :
    Eligible taken (profile :: profiles) ↔
      profile.IsValid ∧ profile.id ∉ taken ∧ Eligible (taken ++ [profile.id]) profiles := by
  constructor
  · rintro ⟨hvalid, hfree, hdistinct⟩
    obtain ⟨hprofile, hvalid⟩ := List.forall_mem_cons.1 hvalid
    obtain ⟨hnew, hfree⟩ := List.forall_mem_cons.1 hfree
    obtain ⟨hother, hdistinct⟩ := List.nodup_cons.1 hdistinct
    refine ⟨hprofile, hnew, hvalid, fun other hmem htaken => ?_, hdistinct⟩
    rcases List.mem_append.1 htaken with htaken | hsame
    · exact hfree other hmem htaken
    · exact hother (List.mem_map.2 ⟨other, hmem, List.mem_singleton.1 hsame⟩)
  · rintro ⟨hprofile, hnew, hvalid, hfree, hdistinct⟩
    have hother (other : Profile) (hmem : other ∈ profiles) :
        other.id ∉ taken ∧ other.id ≠ profile.id := by
      simpa using hfree other hmem
    refine ⟨List.forall_mem_cons.2 ⟨hprofile, hvalid⟩,
      List.forall_mem_cons.2 ⟨hnew, fun other hmem => (hother other hmem).1⟩,
      List.nodup_cons.2 ⟨fun hmem => ?_, hdistinct⟩⟩
    obtain ⟨other, hmem, hsame⟩ := List.mem_map.1 hmem
    exact (hother other hmem).2 hsame

/-- Where not all profiles are eligible there is a first that is refused. -/
theorem eligible_or_refused (taken : List Text) (profiles : List Profile) :
    Eligible taken profiles ∨ ∃ before profile after cause, profiles = before ++ profile :: after ∧
      Eligible taken before ∧ Refused (taken ++ before.map (·.id)) profile cause := by
  induction profiles generalizing taken with
  | nil => exact .inl (eligible_nil taken)
  | cons profile profiles ih =>
      cases hcheck : profile.validate with
      | error cause =>
          exact .inr ⟨[], profile, profiles, cause, rfl, eligible_nil taken, .invalid hcheck⟩
      | ok u =>
          have hvalid : profile.IsValid := Profile.validate_eq_ok_iff.1 hcheck
          by_cases htaken : profile.id ∈ taken
          · exact .inr ⟨[], profile, profiles, _, rfl, eligible_nil taken,
              .duplicate hvalid (by simpa using htaken)⟩
          · rcases ih (taken ++ [profile.id]) with hrest |
              ⟨before, other, after, cause, rfl, hbefore, hrefused⟩
            · exact .inl (eligible_cons.2 ⟨hvalid, htaken, hrest⟩)
            · refine .inr ⟨profile :: before, other, after, cause, rfl,
                eligible_cons.2 ⟨hvalid, htaken, hbefore⟩, ?_⟩
              rwa [List.append_assoc] at hrefused

private theorem run_register_of_refused {catalogue : Catalogue} {profile : Profile}
    {cause : Failure}
    (h : Refused catalogue.ids profile cause) (s : σ) :
    (catalogue.register profile).run s = ⟨.error cause, [], s⟩ := by
  rw [register, Action.run_bind, Action.run_ofExcept]
  cases h with
  | invalid h => rw [h, Action.goOn_error]
  | duplicate h hid =>
      rw [Profile.validate_eq_ok_iff.2 h, Action.goOn_ok]
      simp [hid]

private theorem run_register_of_new {catalogue : Catalogue} {profile : Profile}
    (hvalid : profile.IsValid)
    (hnew : profile.id ∉ catalogue.ids) (s : σ) :
    (catalogue.register profile).run s
      = ⟨.ok ⟨catalogue.profiles ++ [profile]⟩, [.registered profile.id], s⟩ := by
  rw [register, Action.run_bind, Action.run_ofExcept, Profile.validate_eq_ok_iff.2 hvalid,
    Action.goOn_ok]
  simp [hnew, Action.run_bind]

/-- Eligible profiles are registered in their order, and those behind them
come next. -/
theorem run_registerAll_append (catalogue : Catalogue) {before : List Profile}
    (h : Eligible catalogue.ids before) (after : List Profile) (s : σ) :
    (catalogue.registerAll (before ++ after)).run s
      = Action.goOn ⟨.ok (Catalogue.mk (catalogue.profiles ++ before)),
          before.map (.registered ·.id), s⟩ fun next => next.registerAll after := by
  induction before generalizing catalogue with
  | nil => simp
  | cons profile before ih =>
      obtain ⟨hvalid, hnew, hrest⟩ := eligible_cons.1 h
      have hids : (Catalogue.mk (catalogue.profiles ++ [profile])).ids
          = catalogue.ids ++ [profile.id] := by simp [ids]
      rw [List.cons_append, registerAll, Action.run_bind, run_register_of_new hvalid hnew,
        Action.goOn_ok, ih _ (hids ▸ hrest)]
      simp

/-- Eligible profiles are registered all. -/
theorem run_ofProfiles_of_eligible {profiles : List Profile} (h : Eligible [] profiles) (s : σ) :
    (ofProfiles profiles).run s = ⟨.ok ⟨profiles⟩, profiles.map (.registered ·.id), s⟩ := by
  have hrun := run_registerAll_append {} h [] s
  simpa [ofProfiles, registerAll] using hrun

/-- The first profile that is refused ends the registration. -/
theorem run_ofProfiles_of_refused {before : List Profile} {profile : Profile} {cause : Failure}
    (h : Eligible [] before) (hrefused : Refused (before.map (·.id)) profile cause)
    (after : List Profile) (s : σ) :
    (ofProfiles (before ++ profile :: after)).run s
      = ⟨.error cause, before.map (.registered ·.id), s⟩ := by
  have hregister : (register ⟨({} : Catalogue).profiles ++ before⟩ profile).run s
      = ⟨.error cause, [], s⟩ := run_register_of_refused hrefused s
  rw [ofProfiles, run_registerAll_append {} h, Action.goOn_ok, registerAll, Action.run_bind,
    hregister, Action.goOn_error, List.append_nil]

/-- A catalogue of all profiles comes about exactly if all can be taken. -/
private theorem ofProfiles_ok_iff {profiles : List Profile} {catalogue : Catalogue} {s : σ} :
    ((ofProfiles profiles).run s).result = .ok catalogue ↔
      Eligible [] profiles ∧ catalogue = ⟨profiles⟩ := by
  constructor
  · intro hok
    rcases eligible_or_refused [] profiles with h | ⟨before, profile, after, cause, rfl, h, hrefused⟩
    · rw [run_ofProfiles_of_eligible h] at hok
      cases hok
      exact ⟨h, rfl⟩
    · rw [run_ofProfiles_of_refused h hrefused] at hok
      cases hok
  · rintro ⟨h, rfl⟩
    rw [run_ofProfiles_of_eligible h]

/-- The first profile that cannot be taken is the one that fails. -/
private theorem ofProfiles_error_iff {profiles : List Profile} {cause : Failure} {s : σ} :
    ((ofProfiles profiles).run s).result = .error cause ↔
      ∃ before profile after, profiles = before ++ profile :: after ∧ Eligible [] before ∧
        Refused (before.map (·.id)) profile cause := by
  constructor
  · intro herror
    rcases eligible_or_refused [] profiles with h | ⟨before, profile, after, found, rfl, h, hrefused⟩
    · rw [run_ofProfiles_of_eligible h] at herror
      cases herror
    · rw [run_ofProfiles_of_refused h hrefused] at herror
      cases herror
      exact ⟨before, profile, after, rfl, h, hrefused⟩
  · rintro ⟨before, profile, after, rfl, h, hrefused⟩
    rw [run_ofProfiles_of_refused h hrefused]

/-- There is a catalogue of valid profiles with distinct ids. -/
theorem ofProfiles_of_valid {profiles : List Profile} (s : σ)
    (hvalid : ∀ profile ∈ profiles, profile.validate = .ok ())
    (hids : (profiles.map (·.id)).Nodup) :
    ((ofProfiles profiles).run s).result = .ok ⟨profiles⟩ :=
  ofProfiles_ok_iff.2 ⟨⟨fun profile hmem => Profile.validate_eq_ok_iff.1 (hvalid profile hmem),
    fun _ _ => List.not_mem_nil, hids⟩, rfl⟩

/-- A catalogue made of profiles holds valid ones only. -/
theorem validate_of_ofProfiles {catalogue : Catalogue} {profiles : List Profile} {s : σ}
    (h : ((ofProfiles profiles).run s).result = .ok catalogue) :
    ∀ profile ∈ catalogue.profiles, profile.validate = .ok () := by
  obtain ⟨heligible, rfl⟩ := ofProfiles_ok_iff.1 h
  exact fun profile hmem => Profile.validate_eq_ok_iff.2 (heligible.valid profile hmem)

/-- Registration succeeds exactly on valid profiles with distinct ids. The
catalogue then has their ids in the order given, one profile for each, and
finds each profile by its id and nothing by any other. It fails with the
cause of the first profile that is not valid or, if it is valid, has the id
of one before it. -/
theorem ofProfiles_takes_valid_distinct (profiles : List Profile) (s : σ) :
    let result := ((ofProfiles profiles).run s).result
    let given := profiles.map (·.id)
    ((∃ catalogue, result = .ok catalogue) ↔
      (∀ profile ∈ profiles, profile.IsValid) ∧ given.Nodup) ∧
    (∀ catalogue, result = .ok catalogue →
      catalogue.ids = given ∧ catalogue.profiles.length = profiles.length ∧
      (∀ profile ∈ profiles, catalogue.get profile.id = .ok profile) ∧
      ∀ id, id ∉ given → catalogue.get id = .error (.unknownProfile id given)) ∧
    ∀ cause, result = .error cause ↔
      ∃ before profile after, profiles = before ++ profile :: after ∧
        ((∀ earlier ∈ before, earlier.IsValid) ∧ (before.map (·.id)).Nodup) ∧
        Refused (before.map (·.id)) profile cause := by
  intro result given
  refine ⟨?_, ?_, fun cause => ?_⟩
  · simp only [result, ofProfiles_ok_iff, eligible_nil_iff, exists_and_left, exists_eq, and_true]
    exact Iff.rfl
  · intro catalogue hok
    obtain ⟨heligible, rfl⟩ := ofProfiles_ok_iff.1 hok
    exact ⟨rfl, rfl, fun profile => get_of_distinct heligible.distinct, fun id => get_of_not_mem⟩
  · simp only [result, ofProfiles_error_iff, eligible_nil_iff]

end Catalogue

-- ========================================================== the calls

/-- A call: a pass of the profile with an id, over a text. -/
structure Step where
  /-- The pass. -/
  pass : Pass
  /-- The profile's id. -/
  id : Text
  /-- The text. -/
  content : Text
  deriving DecidableEq, Repr

/-- What a call asks for, apart from its text. -/
def Step.request (step : Step) : Pass × Text := (step.pass, step.id)

namespace Catalogue

/-- The outcomes of calls that are made one after the other; each takes its
words from where the one before left the source, also if that one failed. -/
def runSteps (catalogue : Catalogue) : List Step → WordSource → List (Outcome WordSource Text)
  | [], _ => []
  | step :: steps, s =>
    let outcome := (catalogue.run step.pass step.id step.content).run s
    outcome :: catalogue.runSteps steps outcome.state

/-- A pass for an id is a pass with its profile. -/
theorem run_of_get_ok {catalogue : Catalogue} {id : Text} {profile : Profile}
    (h : catalogue.get id = .ok profile) (pass : Pass) (t : Text) (s : WordSource) :
    (catalogue.run pass id t).run s = (pass.run profile t).run s := by
  rw [Catalogue.run, Action.run_bind, Action.run_ofExcept, h, Action.goOn_ok,
    List.nil_append]

/-- A pass for an unknown id fails before it draws a word. -/
theorem run_of_get_error {catalogue : Catalogue} {id : Text} {cause : Failure}
    (h : catalogue.get id = .error cause) (pass : Pass) (t : Text) (s : WordSource) :
    (catalogue.run pass id t).run s = ⟨.error cause, [], s⟩ := by
  rw [Catalogue.run, Action.run_bind, Action.run_ofExcept, h, Action.goOn_error]

end Catalogue

end TaggedSource

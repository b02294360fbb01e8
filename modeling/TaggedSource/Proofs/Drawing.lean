/-
What substitution takes from the word source.

A rule that asks for a random identifier draws it before it looks at the
text, and whether or not its pattern occurs. So what a list of rules does
splits in two: `settleAll` turns the rules into literal ones, which takes
words, may fail and never sees a text, and the literal rules then rewrite
the text, which takes no words and cannot fail (`run_substitute`). A pass
strips before and tidies up after, and neither takes words or fails
(`Pass.run_run`). All that is said of the failures and draws of a pass is
therefore said of `settleAll`, and read off the three ways in which a rule
settles (`Rule.settle_cases`).
-/
import TaggedSource.Pipeline
import TaggedSource.Proofs.Action
import TaggedSource.Proofs.Directive
import TaggedSource.Proofs.Identifier

namespace TaggedSource

-- ====================================================== the vocabulary

/-- The literal rule that a rule comes to. -/
def Rule.settle (rule : Rule) : Action WordSource Rule :=
  if rule.pattern.isEmpty then
    pure rule
  else
    match Replacement.parse rule.replacement with
    | .error flaw => .fail (.badDirective rule flaw)
    | .ok (.literal _) => pure rule
    | .ok (.random length) => do
      let source ← .get
      let (value, source) := source.identifier length
      .set source
      .log [.generated rule.pattern value]
      pure { rule with replacement := value }

/-- The literal rules that a list of rules comes to. -/
def settleAll : List Rule → Action WordSource (List Rule)
  | [] => pure []
  | rule :: rules => do
    let settled ← rule.settle
    let others ← settleAll rules
    pure (settled :: others)

/-- What a literal rule makes of a text. -/
def Rule.rewrite (t : Text) (rule : Rule) : Text :=
  if rule.pattern.isEmpty then t else Text.replaceAll rule.pattern rule.replacement t

/-- A rule that settles as it is: it looks for nothing, or its right side
is a literal. -/
def Rule.IsFixed (rule : Rule) : Prop :=
  rule.pattern = [] ∨ ∃ value, Replacement.parse rule.replacement = .ok (.literal value)

/-- Why a rule fails, if it does: it looks for something, and its right
side is a broken directive. -/
def Rule.failure? (rule : Rule) : Option Failure :=
  if rule.pattern.isEmpty then
    none
  else
    match Replacement.parse rule.replacement with
    | .error flaw => some (.badDirective rule flaw)
    | .ok _ => none

/-- Whether a rule draws: it looks for something, and its right side is a
directive in order. -/
def Rule.draws (rule : Rule) : Bool :=
  !rule.pattern.isEmpty &&
    match Replacement.parse rule.replacement with
    | .ok (.random _) => true
    | _ => false

/-- The rules with drawn values in the place of the directives, first to
last. -/
def literalise : List Rule → List Text → List Rule
  | [], _ => []
  | rule :: rules, values =>
    if rule.draws then
      { rule with replacement := values.headD rule.replacement } ::
        literalise rules values.tail
    else
      rule :: literalise rules values

/-- What a log says to have been drawn. -/
def generated (log : List Log.Event) : List Text :=
  log.filterMap fun
    | .generated _ value => some value
    | _ => none

-- ============================================================ one rule

/-- The right side of a rule that reads as a literal is the literal. -/
theorem Replacement.eq_of_parse_literal {value literal : Text}
    (h : Replacement.parse value = .ok (.literal literal)) : literal = value := by
  cases parse_eq_iff.1 h with
  | literal _ => rfl

/-- Applying a rule is settling it and rewriting the text. -/
theorem Rule.run_apply (rule : Rule) (t : Text) (s : WordSource) :
    (rule.apply t).run s
      = ⟨(rule.settle.run s).result.map (Rule.rewrite t), (rule.settle.run s).log,
          (rule.settle.run s).state⟩ := by
  unfold apply settle
  by_cases hpattern : rule.pattern.isEmpty = true
  · simp [hpattern, rewrite, Except.map]
  · simp only [hpattern, Bool.false_eq_true, if_false]
    cases hparse : Replacement.parse rule.replacement with
    | error flaw => simp [Except.map]
    | ok replacement =>
        cases replacement with
        | literal value =>
            have hvalue := Replacement.eq_of_parse_literal hparse
            simp [Except.map, rewrite, hpattern, hvalue]
        | random length => simp [Action.run_bind, Except.map, rewrite, hpattern]

/-- Substituting is settling the rules and letting them rewrite the text,
one after the other. -/
theorem run_substitute (rules : List Rule) (t : Text) (s : WordSource) :
    (substitute rules t).run s
      = ⟨((settleAll rules).run s).result.map (List.foldl Rule.rewrite t),
          ((settleAll rules).run s).log, ((settleAll rules).run s).state⟩ := by
  induction rules generalizing t s with
  | nil => rfl
  | cons rule rules ih =>
      rw [substitute, settleAll, Action.run_bind, Action.run_bind, Rule.run_apply]
      obtain ⟨result, events, s'⟩ := rule.settle.run s
      cases result with
      | error cause => rfl
      | ok settled =>
          simp only [Except.map, Action.goOn_ok, ih, Action.run_bind, Action.goOn_pure]
          cases ((settleAll rules).run s').result with
          | error cause => rfl
          | ok others => rfl

-- ============================================================ settling

/-- The three ways in which a rule settles: its directive is broken, it
draws, or it is fixed. -/
theorem Rule.settle_cases (rule : Rule) :
    (∃ flaw, rule.failure? = some (.badDirective rule flaw) ∧
      ∀ s, rule.settle.run s = ⟨.error (.badDirective rule flaw), [], s⟩) ∨
    (∃ length, rule.failure? = none ∧ rule.draws = true ∧
      Replacement.parse rule.replacement = .ok (.random length) ∧
      ∀ s, rule.settle.run s = ⟨.ok { rule with replacement := (s.identifier length).1 },
        [.generated rule.pattern (s.identifier length).1], (s.identifier length).2⟩) ∨
    (rule.failure? = none ∧ rule.draws = false ∧ rule.IsFixed ∧
      ∀ s, rule.settle.run s = ⟨.ok rule, [], s⟩) := by
  by_cases hpattern : rule.pattern = []
  · right
    right
    refine ⟨?_, ?_, .inl hpattern, fun s => ?_⟩
    · simp [failure?, hpattern]
    · simp [draws, hpattern]
    · simp [settle, hpattern]
  · have hne : ¬ rule.pattern.isEmpty = true := by simpa using hpattern
    cases hparse : Replacement.parse rule.replacement with
    | error flaw =>
        left
        refine ⟨flaw, ?_, fun s => ?_⟩
        · rw [failure?, if_neg hne, hparse]
        · rw [settle, if_neg hne, hparse]
          rfl
    | ok replacement =>
        right
        have hflawless : rule.failure? = none := by rw [failure?, if_neg hne, hparse]
        cases replacement with
        | literal value =>
            right
            refine ⟨hflawless, ?_, .inr ⟨value, hparse⟩, fun s => ?_⟩
            · simp [draws, hparse]
            · rw [settle, if_neg hne, hparse]
              rfl
        | random length =>
            left
            refine ⟨length, hflawless, ?_, rfl, fun s => ?_⟩
            · simp [draws, hparse, hpattern]
            · rw [settle, if_neg hne, hparse]
              rfl

/-- A text whose first character is not that of a directive reads as a
literal. -/
theorem Replacement.parse_cons {c : Char} (hc : c ≠ '@') (t : Text) :
    parse (c :: t) = .ok (.literal (c :: t)) := by
  apply parse_of_not_lead
  intro hlead
  exact hc (List.cons_prefix_cons.1 hlead).1.symm

/-- No directive asks for an empty identifier. -/
theorem Replacement.pos_of_parse_random {value : Text} {length : Nat}
    (h : parse value = .ok (.random length)) : 0 < length := by
  cases parse_eq_iff.1 h with
  | random _ hpos _ => exact hpos

/-- A drawn identifier reads as a literal. -/
theorem parse_identifier {length : Nat} (h : 0 < length) (s : WordSource) :
    Replacement.parse (s.identifier length).1 = .ok (.literal (s.identifier length).1) := by
  obtain ⟨n, rfl⟩ : ∃ n, length = n + 1 := ⟨length - 1, by omega⟩
  obtain ⟨letters, taken, heq, -, -⟩ := s.exists_identifier_eq (n + 1)
  rw [heq]
  exact Replacement.parse_cons (by decide) _

/-- A fixed rule settles as it is. -/
theorem Rule.IsFixed.run_settle {rule : Rule} (h : rule.IsFixed) (s : WordSource) :
    rule.settle.run s = ⟨.ok rule, [], s⟩ := by
  unfold settle
  rcases h with hpattern | ⟨value, hparse⟩
  · simp [hpattern]
  · rw [hparse]
    split <;> rfl

/-- Fixed rules settle as they are. -/
theorem run_settleAll_of_isFixed {rules : List Rule} (h : ∀ rule ∈ rules, rule.IsFixed)
    (s : WordSource) : (settleAll rules).run s = ⟨.ok rules, [], s⟩ := by
  induction rules with
  | nil => rfl
  | cons rule rules ih =>
      obtain ⟨hrule, hrules⟩ := List.forall_mem_cons.1 h
      rw [settleAll, Action.run_bind, hrule.run_settle, Action.goOn_ok, Action.run_bind,
        ih hrules]
      rfl

/-- What settling some rules leaves, by the way in which the first of them
settles. -/
theorem run_settleAll_cons {rule settled : Rule} {events : List Log.Event} {s s' : WordSource}
    (h : rule.settle.run s = ⟨.ok settled, events, s'⟩) (rules : List Rule) :
    (settleAll (rule :: rules)).run s
      = ⟨((settleAll rules).run s').result.map (settled :: ·),
          events ++ ((settleAll rules).run s').log, ((settleAll rules).run s').state⟩ := by
  rw [settleAll, Action.run_bind, h, Action.goOn_ok, Action.run_bind, Action.goOn_pure]

private theorem exists_of_settleAll_cons {rule first : Rule} {events : List Log.Event}
    {s s' : WordSource}
    (h : rule.settle.run s = ⟨.ok first, events, s'⟩) {rules settled : List Rule}
    (hsettled : ((settleAll (rule :: rules)).run s).result = .ok settled) :
    ∃ others, settled = first :: others ∧ ((settleAll rules).run s').result = .ok others := by
  rw [run_settleAll_cons h] at hsettled
  cases hrest : ((settleAll rules).run s').result with
  | error cause =>
      rw [hrest] at hsettled
      cases hsettled
  | ok others =>
      rw [hrest] at hsettled
      cases hsettled
      exact ⟨others, rfl, rfl⟩

/-- Rules that settle come to fixed rules: those with what was drawn in the
place of the directives. -/
theorem settleAll_ok {rules settled : List Rule} {s : WordSource}
    (h : ((settleAll rules).run s).result = .ok settled) :
    settled = literalise rules (generated ((settleAll rules).run s).log) ∧
      ∀ rule ∈ settled, rule.IsFixed := by
  induction rules generalizing settled s with
  | nil =>
      obtain rfl : [] = settled := by simpa [settleAll] using h
      exact ⟨rfl, fun _ h => absurd h List.not_mem_nil⟩
  | cons rule rules ih =>
      rcases rule.settle_cases with ⟨flaw, -, hrun⟩ | ⟨length, -, hdraws, hparse, hrun⟩ |
        ⟨-, hdraws, hfixed, hrun⟩
      · rw [settleAll, Action.run_bind, hrun] at h
        cases h
      · obtain ⟨others, rfl, hrest⟩ := exists_of_settleAll_cons (hrun s) h
        obtain ⟨heq, hall⟩ := ih hrest
        -- what was drawn is no directive, so it is fixed from now on
        have hvalue := parse_identifier (Replacement.pos_of_parse_random hparse) s
        refine ⟨?_, List.forall_mem_cons.2 ⟨.inr ⟨_, hvalue⟩, hall⟩⟩
        rw [run_settleAll_cons (hrun s), literalise, if_pos hdraws, heq]
        rfl
      · obtain ⟨others, rfl, hrest⟩ := exists_of_settleAll_cons (hrun s) h
        obtain ⟨heq, hall⟩ := ih hrest
        refine ⟨?_, List.forall_mem_cons.2 ⟨hfixed, hall⟩⟩
        rw [run_settleAll_cons (hrun s), literalise, hdraws, heq]
        rfl

/-- What holds of the fixed rules, and of the others with whatever is drawn
in the place of their directive, holds of what they settle to. -/
theorem forall_of_settleAll {P : Rule → Prop} {rules settled : List Rule} {s : WordSource}
    (h : ((settleAll rules).run s).result = .ok settled)
    (hfixed : ∀ rule ∈ rules, rule.IsFixed → P rule)
    (hdrawn : ∀ rule ∈ rules, ∀ (length : Nat) (s : WordSource),
      P { rule with replacement := (s.identifier length).1 }) :
    ∀ rule ∈ settled, P rule := by
  induction rules generalizing settled s with
  | nil =>
      obtain rfl : [] = settled := by simpa [settleAll] using h
      exact fun _ hmem => absurd hmem List.not_mem_nil
  | cons rule rules ih =>
      obtain ⟨hfixed, hfixed'⟩ := List.forall_mem_cons.1 hfixed
      obtain ⟨hdrawn, hdrawn'⟩ := List.forall_mem_cons.1 hdrawn
      rcases rule.settle_cases with ⟨flaw, -, hrun⟩ | ⟨length, -, -, -, hrun⟩ | ⟨-, -, hrule, hrun⟩
      · rw [settleAll, Action.run_bind, hrun] at h
        cases h
      · obtain ⟨others, rfl, hrest⟩ := exists_of_settleAll_cons (hrun s) h
        exact List.forall_mem_cons.2 ⟨hdrawn length s, ih hrest hfixed' hdrawn'⟩
      · obtain ⟨others, rfl, hrest⟩ := exists_of_settleAll_cons (hrun s) h
        exact List.forall_mem_cons.2 ⟨hfixed hrule, ih hrest hfixed' hdrawn'⟩

/-- Rules settle unless one of them fails, and then with the failure of the
first that does. -/
theorem settleAll_error_iff {rules : List Rule} {s : WordSource} {cause : Failure} :
    ((settleAll rules).run s).result = .error cause
      ↔ rules.findSome? Rule.failure? = some cause := by
  induction rules generalizing s with
  | nil => simp [settleAll]
  | cons rule rules ih =>
      rw [List.findSome?_cons]
      rcases rule.settle_cases with ⟨flaw, hfailure, hrun⟩ | ⟨length, hfailure, -, -, hrun⟩ |
        ⟨hfailure, -, -, hrun⟩
      · rw [settleAll, Action.run_bind, hrun, hfailure]
        simp
      · rw [run_settleAll_cons (hrun s), hfailure, ← ih (s := (s.identifier length).2)]
        cases ((settleAll rules).run (s.identifier length).2).result <;> simp [Except.map]
      · rw [run_settleAll_cons (hrun s), hfailure, ← ih (s := s)]
        cases ((settleAll rules).run s).result <;> simp [Except.map]

/-- Rules that ask for no more than the underscore take no word, and settle
alike whatever the source. -/
theorem settleAll_of_short {rules : List Rule}
    (h : ∀ rule ∈ rules, ∀ length,
      Replacement.parse rule.replacement = .ok (.random length) → length < 2)
    (s : WordSource) :
    ((settleAll rules).run s).state = s ∧
      ∀ s', ((settleAll rules).run s').result = ((settleAll rules).run s).result := by
  induction rules with
  | nil => exact ⟨rfl, fun _ => rfl⟩
  | cons rule rules ih =>
      obtain ⟨hrule, hrules⟩ := List.forall_mem_cons.1 h
      obtain ⟨hstate, hresult⟩ := ih hrules
      rcases rule.settle_cases with ⟨flaw, -, hrun⟩ | ⟨length, -, -, hparse, hrun⟩ |
        ⟨-, -, -, hrun⟩
      · simp only [settleAll, Action.run_bind, hrun]
        exact ⟨rfl, fun _ => rfl⟩
      · -- an identifier of one character is the underscore, and takes no word
        have hone : length = 1 := by
          have hshort := hrule length hparse
          have hpos := Replacement.pos_of_parse_random hparse
          omega
        subst hone
        have hsettled (s : WordSource) : rule.settle.run s = ⟨.ok { rule with
            replacement := ['_'] }, [.generated rule.pattern ['_']], s⟩ := by
          rw [hrun s, WordSource.identifier_one]
        refine ⟨?_, fun s' => ?_⟩
        · rw [run_settleAll_cons (hsettled s), hstate]
        · rw [run_settleAll_cons (hsettled s), run_settleAll_cons (hsettled s'), hresult s']
      · refine ⟨?_, fun s' => ?_⟩
        · rw [run_settleAll_cons (hrun s), hstate]
        · rw [run_settleAll_cons (hrun s), run_settleAll_cons (hrun s'), hresult s']

-- ============================================================== passes

namespace Pass

/-- The features that a pass strips. -/
def features : Pass → Profile → List Feature
  | .transform, profile => profile.removableFeatures
  | .copyright, profile => profile.copyrightFeatures

/-- The rules that a pass applies. -/
def rules : Pass → Profile → List Rule
  | .transform, profile => profile.replaceableStrings
  | .copyright, profile => profile.copyrightStrings

/-- A profile with other rules for a pass. -/
def withRules : Pass → Profile → List Rule → Profile
  | .transform, profile, rules => { profile with replaceableStrings := rules }
  | .copyright, profile, rules => { profile with copyrightStrings := rules }

/-- What a pass does once the strings are substituted. -/
def finish : Pass → Profile → Text → Text
  | .transform, profile => Pipeline.tidy profile
  | .copyright, profile => Pipeline.mapLines profile id

/-- The text that a pass makes of another with settled rules. -/
def output (pass : Pass) (profile : Profile) (t : Text) (settled : List Rule) : Text :=
  pass.finish profile (settled.foldl Rule.rewrite (strip (pass.features profile) t).text)

/-- What a pass reports of stripping. -/
def stripEvents (pass : Pass) (profile : Profile) (t : Text) : List Log.Event :=
  let stripped := strip (pass.features profile) t
  stripped.events ++
    if stripped.balanced then [] else [.leftInPlace profile.id stripped.unbalanced.length]

/-- Stripping reports no identifier. -/
theorem generated_stripEvents (pass : Pass) (profile : Profile) (t : Text) :
    generated (pass.stripEvents profile t) = [] := by
  unfold stripEvents generated Stripped.events
  cases (strip (pass.features profile) t).balanced <;> simp

/-- A pass strips, settles its rules and computes the rest: only settling
takes words or fails. -/
theorem run_run (pass : Pass) (profile : Profile) (t : Text) (s : WordSource) :
    (pass.run profile t).run s
      = ⟨((settleAll (pass.rules profile)).run s).result.map (pass.output profile t),
          pass.stripEvents profile t ++ ((settleAll (pass.rules profile)).run s).log,
          ((settleAll (pass.rules profile)).run s).state⟩ := by
  have hsteps : pass.run profile t = (do
      let t ← Pipeline.stripFeatures profile (pass.features profile) t
      let t ← substitute (pass.rules profile) t
      pure (pass.finish profile t)) := by
    cases pass <;> rfl
  have hstrip : (Pipeline.stripFeatures profile (pass.features profile) t).run s
      = ⟨.ok (strip (pass.features profile) t).text, pass.stripEvents profile t, s⟩ := by
    rw [Pipeline.stripFeatures, Action.run_bind, Action.run_log, Action.goOn_ok, stripEvents]
    cases (strip (pass.features profile) t).balanced <;> rfl
  rw [hsteps, Action.run_bind, hstrip, Action.goOn_ok, Action.run_bind, run_substitute,
    Action.goOn_pure]
  cases ((settleAll (pass.rules profile)).run s).result <;> rfl

/-- A pass that gives a text has finished what substitution gave. -/
theorem exists_substituted {pass : Pass} {profile : Profile} {t out : Text} {s : WordSource}
    (h : ((pass.run profile t).run s).result = .ok out) :
    ∃ substituted,
      ((substitute (pass.rules profile) (strip (pass.features profile) t).text).run s).result
        = .ok substituted ∧ out = pass.finish profile substituted := by
  rw [run_run] at h
  rw [run_substitute]
  cases hsettled : ((settleAll (pass.rules profile)).run s).result with
  | error cause =>
      rw [hsettled] at h
      cases h
  | ok settled =>
      rw [hsettled] at h
      cases h
      exact ⟨_, rfl, rfl⟩

/-- The rules of a pass are those that were put in. -/
theorem rules_withRules (pass : Pass) (profile : Profile) (rules : List Rule) :
    pass.rules (pass.withRules profile rules) = rules := by
  cases pass <;> rfl

/-- Settled rules make the same of a text wherever they stand. -/
theorem output_withRules (pass : Pass) (profile : Profile) (t : Text) (rules : List Rule) :
    pass.output (pass.withRules profile rules) t = pass.output profile t := by
  cases pass <;> rfl

end Pass

end TaggedSource

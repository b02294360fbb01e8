/-
Clean sources are left alone.

A text is clean for a pass (`Pass.Clean`) if it holds nothing that a stage of
the pass looks for: no start marker, no pattern of a rule, no forbidden line,
and for a transformation nothing to tidy up (`Tidy.IsTidy`). Stray end and
leave markers do not count, nor do blank lines at either end of the text.

# Stage by stage

Each stage gives back a text in which it finds nothing. Stripping is settled
by `resolveAll_eq_self_iff`, and a rule by the pattern that it keeps when it
settles, whatever it draws. Lines are cut and joined again, which gives the
text back (`joinLines_splitLines`).

# The batch

So the pass gives the text back, and a batch that reads it has nothing to
write: wherever a run comes upon a clean text, on any tree, it leaves the
tree as it found it (`handle_of_clean`). Without links and temporary files
the file is not touched by the handling of others either
(`Grounded.get?_of_clean`).
-/
import Mathlib.Data.List.Infix
import TaggedSource.Proofs.BlankLines
import TaggedSource.Proofs.Conditions
import TaggedSource.Proofs.Deletion
import TaggedSource.Proofs.Journey
import TaggedSource.Proofs.Lines
import TaggedSource.Proofs.Reduction

namespace TaggedSource

namespace Tidy

-- ============================================================ tidying up

/-- A text in which a transformation has nothing to tidy up: no blank group,
no `if` without a condition, no token in a line, and no blank line between
the first and the last. -/
structure IsTidy (profile : Profile) (t : Text) : Prop where
  no_group : ¬ BlankGroup t
  no_spaced_if : ¬ text "if ()" <:+: t
  no_if : ¬ text "if()" <:+: t
  no_token : ∀ line ∈ Text.splitLines t, ∀ token ∈ profile.removableTokens, ¬ token <:+: line
  no_pair : ∀ line ∈ Text.splitLines t, ∀ pair ∈ profile.replaceableTokens, ¬ pair.old <:+: line
  no_blank : ∀ line ∈ (Text.splitLines t).tail.dropLast, ∃ c ∈ line, isLineBlank c = false

private theorem conditions_of_isTidy {profile : Profile} {t : Text} (h : IsTidy profile t) :
    conditions t = t :=
  conditions_eq_self h.no_group h.no_spaced_if h.no_if

private theorem blankLines_of_isTidy {profile : Profile} {t : Text} (h : IsTidy profile t) :
    blankLines t = t := by
  have hinner := h.no_blank
  rcases Text.lines_cases t with hlines | ⟨first, inner, last, hlines⟩
  · exact blankLines_of_line hlines
  · rw [hlines, List.tail_cons, List.dropLast_concat] at hinner
    exact (blankLines_eq_self_iff hlines).2 fun line hline => inked_iff.2 (hinner line hline)

end Tidy

-- ================================================================== lines

/-- A line without any of the tokens is left alone. -/
private theorem Line.edit_eq_self {tokens : List Text} {pairs : List TokenPair} {line : Text}
    (htokens : ∀ token ∈ tokens, ¬ token <:+: line)
    (hpairs : ∀ pair ∈ pairs, ¬ pair.old <:+: line) : Line.edit tokens pairs line = line := by
  have hremove : edit tokens [] line = line :=
    edit_eq_self_iff.2 fun token htoken _ => htokens token htoken
  show pairs.foldl (fun line pair => replaceToken pair line) (edit tokens [] line) = line
  rw [hremove]
  clear hremove
  induction pairs with
  | nil => rfl
  | cons pair pairs ih =>
      obtain ⟨hpair, hpairs⟩ := List.forall_mem_cons.1 hpairs
      rw [List.foldl_cons, replaceToken,
        Text.replaceAll_of_not_occursIn (Text.occursIn_eq_false_iff.2 hpair)]
      exact ih hpairs

/-- A text is left alone if each of its lines is. -/
private theorem mapLines_eq_self {profile : Profile} {edit : Text → Text} {t : Text}
    (hallowed : ∀ line ∈ Text.splitLines t, Line.Allowed profile.removableLines line)
    (hedit : ∀ line ∈ Text.splitLines t, edit line = line) :
    Pipeline.mapLines profile edit t = t := by
  have hkept : Line.dropForbidden profile.removableLines (Text.splitLines t)
      = Text.splitLines t := by
    rw [Line.dropForbidden_eq, List.filter_eq_self]
    exact fun line hline => decide_eq_true (hallowed line hline)
  have hedited : (Text.splitLines t).map edit = Text.splitLines t := by
    rw [List.map_congr_left hedit, List.map_id']
  rw [Pipeline.mapLines, hkept, hedited, Text.joinLines_splitLines]

-- ================================================================ passes

namespace Pass

/-- A text in which a pass finds nothing to do. -/
structure Clean (pass : Pass) (profile : Profile) (t : Text) : Prop where
  no_start : ∀ f ∈ pass.features profile, ¬ f.token .start <:+: t
  no_match : ∀ rule ∈ pass.rules profile, ¬ rule.pattern <:+: t
  allowed : ∀ line ∈ Text.splitLines t, Line.Allowed profile.removableLines line
  tidy : pass = .transform → Tidy.IsTidy profile t

section
variable {pass : Pass} {profile : Profile} {t : Text} (h : pass.Clean profile t)
include h

/-- There is no marker to resolve. -/
theorem Clean.strip : strip (pass.features profile) t = { text := t } := by
  rw [strip_eq, resolveAll_eq_self_iff]
  exact fun f hf => Text.occursIn_eq_false_iff.2 (h.no_start f hf)

/-- The rules leave the text alone, whatever they draw. -/
theorem Clean.foldl_rewrite {settled : List Rule} {s : WordSource}
    (hsettled : ((settleAll (pass.rules profile)).run s).result = .ok settled) :
    settled.foldl Rule.rewrite t = t := by
  have hall : ∀ rule ∈ settled, ¬ rule.pattern <:+: t :=
    forall_of_settleAll hsettled (fun rule hrule _ => h.no_match rule hrule)
      fun rule hrule _ _ => h.no_match rule hrule
  clear hsettled
  induction settled with
  | nil => rfl
  | cons rule settled ih =>
      obtain ⟨hrule, hsettled⟩ := List.forall_mem_cons.1 hall
      have hsame : Rule.rewrite t rule = t := by
        unfold Rule.rewrite
        rw [Text.replaceAll_of_not_occursIn (Text.occursIn_eq_false_iff.2 hrule), ite_self]
      rw [List.foldl_cons, hsame, ih hsettled]

theorem Clean.finish : pass.finish profile t = t := by
  cases pass with
  | copyright => exact mapLines_eq_self h.allowed fun _ _ => rfl
  | transform =>
      have htidy := h.tidy rfl
      show Pipeline.tidy profile t = t
      rw [Pipeline.tidy, Tidy.conditions_of_isTidy htidy, mapLines_eq_self h.allowed,
        Tidy.blankLines_of_isTidy htidy]
      exact fun line hline => Line.edit_eq_self (htidy.no_token line hline) (htidy.no_pair line hline)

/-- A pass of a valid profile gives a clean text back. -/
theorem Clean.result_run (hvalid : profile.validate = .ok ()) (s : WordSource) :
    ((pass.run profile t).run s).result = .ok t := by
  obtain ⟨out, hout⟩ := Pass.run_of_validate hvalid pass t s
  rw [Pass.run_run] at hout ⊢
  cases hsettled : ((settleAll (pass.rules profile)).run s).result with
  | error cause =>
      rw [hsettled] at hout
      cases hout
  | ok settled =>
      show Except.ok (pass.output profile t settled) = .ok t
      rw [Pass.output, h.strip, h.foldl_rewrite hsettled, h.finish]

end

end Pass

-- =============================================================== batches

namespace Batch

section
variable {batch : Batch} (hvalid : batch.profile.validate = .ok ())
include hvalid

section
variable {path t : Text} {w : Workspace} (hread : w.tree.readSource path = .ok t)
  (hclean : batch.pass.Clean batch.profile t)
include hread hclean

/-- Processing a clean text ends with nothing to write. -/
private theorem process_of_clean (hconcerns : batch.concerns w.tree path = true) :
    ∃ events w', (batch.process path).run w = ⟨.ok (some .unchanged), events, w'⟩ := by
  rw [process_of_concerns hconcerns, revise_of_text hread, hclean.result_run hvalid]
  simp [Except.map, Except.mapError]

/-- A clean text is left as it was found. -/
theorem handle_of_clean (dryRun : Bool) :
    let o := (batch.handle dryRun path).run w
    o.result = .ok (if batch.concerns w.tree path then some false else none) ∧
      o.state.tree = w.tree := by
  have htree : ((batch.process path).run w).state.tree = w.tree := tree_process
  rw [handle, Action.run_bind]
  cases hconcerns : batch.concerns w.tree path with
  | false =>
      obtain ⟨events, hprocess⟩ := process_of_not_concerns hconcerns
      rw [hprocess]
      exact ⟨rfl, rfl⟩
  | true =>
      obtain ⟨events, w', hprocess⟩ := process_of_clean hvalid hread hclean hconcerns
      rw [hprocess] at htree ⊢
      exact ⟨rfl, htree⟩

end

/-- The fate of a file with a clean text leaves it as it is. -/
theorem nodeAfter_of_clean {content : Bytes} {mode : Nat} {t : Text}
    (hdecode : Utf8.decode content = .ok t) (hclean : batch.pass.Clean batch.profile t)
    (source : WordSource) (names : Place) :
    (batch.fateOf false source names (.file content mode)).nodeAfter (.file content mode)
      = .file content mode := by
  by_cases htaken : batch.selects names = true ∧ batch.reaches names = true
  · rw [nodeAfter_of_text htaken.1 htaken.2 hdecode (hclean.result_run hvalid source),
      Utf8.encode_of_decode hdecode, ite_self]
  · refine nodeAfter_of_no_text fun hselects => ?_
    have hreaches : batch.reaches names = false := by
      rw [← Bool.not_eq_true]
      exact fun hreaches => htaken ⟨hselects, hreaches⟩
    simp [textOf?, hreaches]

/-- A run leaves a clean file where it is, whether it gets to it or not. -/
private theorem Grounded.get?_of_clean {top place : Place} {tree : FileTree} {content : Bytes}
    {mode : Nat}
    {t : Text} (hground : batch.Grounded top tree)
    (hlocate : tree.locate .target batch.root = .ok (.node top .directory))
    (hget : tree.get? place = some (.file content mode)) (hdecode : Utf8.decode content = .ok t)
    (hclean : batch.pass.Clean batch.profile t) (recursive : Bool) (source : WordSource) :
    ((batch.run ⟨recursive, false⟩).run ⟨tree, source⟩).state.tree.get? place
      = some (.file content mode) := by
  obtain ⟨-, hstate, -⟩ := hground.run_run hlocate recursive false source
  have hnames (entry : Place × Node) (hmem : entry ∈ batch.met tree top recursive) :=
    get?_of_mem_met hground.sound hmem
  rw [hstate]
  by_cases hmet : ∃ entry ∈ batch.met tree top recursive, place = top ++ entry.1
  · obtain ⟨⟨names, node⟩, hmem, rfl⟩ := hmet
    obtain rfl : node = .file content mode :=
      Option.some.inj ((hnames (names, node) hmem).2.symm.trans hget)
    obtain ⟨before, after, hsplit⟩ := List.append_of_mem hmem
    have hdistinct : (batch.met tree top recursive).Pairwise _ :=
      pairwise_met hground.sound top recursive
    rw [hsplit] at hnames hdistinct
    simp only [hsplit]
    rw [get?_treeBehind (fun entry hmem => (hnames entry hmem).1) hdistinct hget,
      nodeAfter_of_clean hvalid hdecode hclean]
  · have hother (entry : Place × Node) (hmem : entry ∈ batch.met tree top recursive) :
        place ≠ top ++ entry.1 := fun heq => hmet ⟨entry, hmem, heq⟩
    rw [get?_treeBehind_of_ne false (fun entry hmem => (hnames entry hmem).1) hother, hget]

/-- No run in a clear tree changes a clean file. -/
private theorem get?_run_of_clean {place : Place} {tree : FileTree} {content : Bytes} {mode : Nat}
    {t : Text}
    (hsound : tree.Sound) (hclear : tree.Clear) (hget : tree.get? place = some (.file content mode))
    (hdecode : Utf8.decode content = .ok t) (hclean : batch.pass.Clean batch.profile t)
    (options : BatchOptions) (source : WordSource) :
    ((batch.run options).run ⟨tree, source⟩).state.tree.get? place = some (.file content mode) := by
  obtain ⟨recursive, dryRun⟩ := options
  cases dryRun with
  | true => rw [tree_run_dry, hget]
  | false =>
      by_cases hlook : tree.lookAt .target batch.root = .ok .directory
      · obtain ⟨top, hlocate⟩ := FileTree.locate_of_lookAt hlook
        have hground := Grounded.of_locate hsound hclear hlocate
        exact hground.get?_of_clean hvalid hlocate hget hdecode hclean recursive source
      · rw [(run_of_not_directory hlook recursive false source).2, hget]

end

/-- Clean sources are left alone. A pass of a valid profile gives a clean
text back, whatever words it draws. So a batch of the profile finds a file
with a clean text unchanged; a run that stops at one leaves the tree as it
is, on any tree; and without links and temporary files the file is the same
behind the run. -/
theorem clean_sources_kept {profile : Profile} (hvalid : profile.validate = .ok ()) :
    (∀ (pass : Pass) (t : Text) (s : WordSource), pass.Clean profile t →
      ((pass.run profile t).run s).result = .ok t) ∧
    ∀ batch : Batch, batch.profile = profile →
      (∀ path w t, w.tree.readSource path = .ok t → batch.pass.Clean profile t →
        batch.concerns w.tree path = true →
          ((batch.process path).run w).result = .ok (some .unchanged)) ∧
      (∀ options w, ∀ stop ∈ (batch.journey options w).stops, ∀ t,
        stop.found.tree.readSource stop.path = .ok t → batch.pass.Clean profile t →
          let o := (batch.handle options.dryRun stop.path).run stop.found
          o.result = .ok (if batch.concerns stop.found.tree stop.path then some false else none) ∧
            o.state.tree = stop.found.tree) ∧
      ∀ (tree : FileTree) place content mode t, tree.Sound → tree.Clear →
        tree.get? place = some (.file content mode) → Utf8.decode content = .ok t →
        batch.pass.Clean profile t → ∀ options source,
          ((batch.run options).run ⟨tree, source⟩).state.tree.get? place
            = some (.file content mode) := by
  refine ⟨fun pass t s hclean => hclean.result_run hvalid s, ?_⟩
  rintro batch rfl
  refine ⟨?_, ?_, ?_⟩
  · intro path w t hread hclean hconcerns
    obtain ⟨events, w', hprocess⟩ := process_of_clean hvalid hread hclean hconcerns
    rw [hprocess]
  · intro options w stop _ t hread hclean
    exact handle_of_clean hvalid hread hclean options.dryRun
  · intro tree place content mode t hsound hclear hget hdecode hclean options source
    exact get?_run_of_clean hvalid hsound hclear hget hdecode hclean options source

-- ============================================================= a calm text

/-- A profile with something to look for in every stage. -/
def calmProfile : Profile where
  id := text "Calm"
  removableFeatures := [⟨text "Log", text "@1@"⟩]
  replaceableStrings := [⟨text "KEY", text "@Random(4)"⟩]
  removableLines := [text "TODO"]
  removableTokens := [text "dbg"]
  replaceableTokens := [⟨text "foo", text "bar"⟩]

/-- A text between blank lines, with an end marker that has no start. -/
def calmText : Text := text " \nf()/*Piranhito?@-Log-E@1@*/\nif (a)\n"

private theorem isTidy_calmText : Tidy.IsTidy calmProfile calmText where
  no_group hgroup := absurd (Tidy.hasGroup_iff.2 hgroup) (by decide)
  no_spaced_if := by decide
  no_if := by decide
  no_token := by decide
  no_pair := by decide
  no_blank := by
    have hinner : ∀ line ∈ (Text.splitLines calmText).tail.dropLast,
        line.all Tidy.isLineBlank = false := by decide
    intro line hline
    simpa using hinner line hline

private theorem clean_calmText : Pass.transform.Clean calmProfile calmText where
  no_start := by decide
  no_match := by decide
  allowed := by decide
  tidy _ := isTidy_calmText

def calmBatch : Batch where
  profile := calmProfile
  pass := .transform
  root := text "."
  ignored := .none

def calmTree : FileTree where
  home := [text "w"]
  entries :=
    [([text "w"], .directory),
      ([text "w", text "a.js"], .file (Utf8.encode calmText) 420),
      ([text "w", text "b.js"], .file (Utf8.encode (text "KEY")) 420)]

/-- The pass gives the text back, and the file that holds it is the same
behind a run that has another to write. -/
theorem clean_sources_kept_calmText :
    calmProfile.validate = .ok () ∧ Pass.transform.Clean calmProfile calmText ∧
      calmTree.Sound ∧ calmTree.Clear ∧
      ((Pass.transform.run calmProfile calmText).run (WordSource.ofWords [] 0)).result
        = .ok calmText ∧
      ((calmBatch.run ⟨true, false⟩).run
          ⟨calmTree, WordSource.ofWords [] 0⟩).state.tree.get? [text "w", text "a.js"]
        = some (.file (Utf8.encode calmText) 420) := by
  have hvalid : calmProfile.validate = .ok () := by decide
  have hsound : calmTree.Sound := by decide
  have hclear : calmTree.Clear := by decide
  have hdecode : Utf8.decode (Utf8.encode calmText) = .ok calmText := by decide +kernel
  obtain ⟨hpass, hbatch⟩ := clean_sources_kept hvalid
  obtain ⟨-, -, hfile⟩ := hbatch calmBatch rfl
  exact ⟨hvalid, clean_calmText, hsound, hclear, hpass _ _ _ clean_calmText,
    hfile calmTree _ _ _ _ hsound hclear rfl hdecode clean_calmText _ _⟩

end Batch

end TaggedSource
